import MenteDb.Facade.TurnStages

/-!
# Histories of turns

Several clients take turns on one database, and others use its engines and its tables in
between.  A client brings its own delta tracker and keeps a copy of the identifiers it was
served.
-/

namespace MenteDb
namespace Facade

open Foundation
open Cognitive
open MenteDb.Context

variable {κ F : Type}

/-- A database, its engines, and the delta tracker of each client. -/
structure Hosting (κ F : Type) where
  db : Database F
  engines : Engines F
  trackers : κ -> DeltaTracker

/-- What is asked of a hosted database; what others do to the tables, the caches and the phantom
tracker is any change. -/
inductive HostCall (κ F : Type) where
  | turn (client : κ) (input : ProcessTurnInput)
  | tell (call : EngineCall F)
  | change (f : Database F -> Database F)

def Hosting.serving (s : Hosting κ F) (client : κ) : Serving F where
  db := s.db
  engines := s.engines
  tracker := s.trackers client

section Runs

variable [DecidableEq κ] [Scalar F] (exp : F -> F) (env : Env F) (services : TurnServices F)

def HostCall.step (s : Hosting κ F) : HostCall κ F -> Hosting κ F
  | HostCall.turn client input =>
      let s' := (processTurn env services input (s.serving client)).2
      { db := s'.db
        engines := s'.engines
        trackers := fun c => if c = client then s'.tracker else s.trackers c }
  | HostCall.tell call => { s with engines := s.engines.hear exp env services call }
  | HostCall.change f => { s with db := f s.db }

def Hosting.run (s : Hosting κ F) (calls : List (HostCall κ F)) : Hosting κ F :=
  calls.foldl (HostCall.step exp env services) s

/-!
## Copies
-/

omit [Scalar F] in
/-- A client drops what was removed and adds what is new. -/
def follow (copy : List MemoryId) (r : ProcessTurnResult F) : List MemoryId :=
  copy.filter (fun id => decide (id ∉ r.deltaRemoved)) ++ r.deltaAdded

/-- How a turn ends for the client: whether a context was served, and the result. -/
structure Answer (F : Type) where
  served : Bool
  result : Except Stop (ProcessTurnResult F)

def answerTo (input : ProcessTurnInput) (s : Serving F) : Answer F where
  served := (serveContext env services input s).1.isOk
  result := (processTurn env services input s).1

/-- The answer that a client gets from a call. -/
def answerOf (client : κ) (s : Hosting κ F) : HostCall κ F -> List (Answer F)
  | HostCall.turn c input =>
      if c = client then [answerTo env services input (s.serving client)] else []
  | HostCall.tell _ => []
  | HostCall.change _ => []

/-- The answers that one client gets. -/
def answersTo (client : κ) (s : Hosting κ F) : List (HostCall κ F) -> List (Answer F)
  | [] => []
  | call :: rest =>
      answerOf env services client s call ++
        answersTo client (HostCall.step exp env services s call) rest

/-- The results of the turns that succeeded. -/
def resultsOf (answers : List (Answer F)) : List (ProcessTurnResult F) :=
  answers.filterMap (fun answer => answer.result.toOption)

end Runs

section Copies

variable [DecidableEq κ] [Scalar F] {exp : F -> F} {env : Env F} {services : TurnServices F}

/-- A copy has the same identifiers as what the tracker remembers. -/
def SameMembers (xs ys : List MemoryId) : Prop := forall id, id ∈ xs <-> id ∈ ys

omit [DecidableEq κ] in
/-- Following the differences to what the tracker remembers gives the context. -/
theorem sameMembers_follow {input : ProcessTurnInput} {s s' : Serving F} {r : ProcessTurnResult F}
    {copy : List MemoryId} (hcopy : SameMembers copy s.tracker.lastServed)
    (h : Reported env services input s s' r) : SameMembers (follow copy r) (idsOf r.context) := by
  intro id
  unfold follow
  rw [h.delta.1, h.delta.2, List.mem_append, List.mem_filter]
  simp only [DeltaTracker.computeDelta, List.mem_filter, decide_eq_true_eq,
    Bool.not_eq_true', decide_eq_false_iff_not, HashOrder.mem_order, hcopy id, not_and, not_not,
    List.contains_eq_mem]
  constructor
  · rintro (⟨hold, hstill⟩ | ⟨hnew, _⟩)
    · exact hstill hold
    · exact hnew
  · intro hmem
    by_cases hold : id ∈ s.tracker.lastServed
    · exact Or.inl ⟨hold, fun _ => hmem⟩
    · exact Or.inr ⟨hmem, hold⟩

omit [DecidableEq κ] in
/-- A turn that serves nothing leaves the tracker. -/
theorem tracker_of_not_served {input : ProcessTurnInput} {s : Serving F}
    (h : (answerTo env services input s).served = false) :
    (processTurn env services input s).2.tracker = s.tracker := by
  rw [(processTurn_spec id s).tracker]
  unfold trackerAfter
  cases hserve : (serveContext env services input s).1 with
  | ok served =>
      rw [answerTo, hserve] at h
      cases h
  | error e => rfl

/-- After a turn that succeeds or serves nothing, a copy that was right is right. -/
theorem sameMembers_turn {input : ProcessTurnInput} {s : Serving F} {copy : List MemoryId}
    (hcopy : SameMembers copy s.tracker.lastServed)
    (hanswer : (answerTo env services input s).served = true ->
      (answerTo env services input s).result.isOk = true) :
    SameMembers ((resultsOf [answerTo env services input s]).foldl follow copy)
        (processTurn env services input s).2.tracker.lastServed ∧
      SameMembers (processTurn env services input s).2.tracker.lastServed
        (((resultsOf [answerTo env services input s]).getLast?.map
          (fun r => idsOf r.context)).getD s.tracker.lastServed) := by
  rcases hresult : (answerTo env services input s).result with e | r
  · have hresults : resultsOf [answerTo env services input s] = [] := by
      rw [resultsOf, List.filterMap_cons, hresult]
      rfl
    have hserved : (answerTo env services input s).served = false := by
      rw [Bool.eq_false_iff]
      intro hserved
      have hok := hanswer hserved
      rw [hresult] at hok
      cases hok
    rw [hresults, tracker_of_not_served hserved]
    exact ⟨hcopy, fun id => Iff.rfl⟩
  · have hresults : resultsOf [answerTo env services input s] = [r] := by
      rw [resultsOf, List.filterMap_cons, hresult]
      rfl
    have hreported := (processTurn_spec id s).reported r hresult
    rw [hresults, hreported.tracker]
    refine ⟨?_, fun id => List.mem_dedup⟩
    intro id
    exact (sameMembers_follow hcopy hreported id).trans List.mem_dedup.symm

variable (exp) in
/-- One call, whoever makes it. -/
theorem sameMembers_call {client : κ} {s : Hosting κ F} {call : HostCall κ F}
    {copy : List MemoryId} (hcopy : SameMembers copy (s.trackers client).lastServed)
    (hanswers : forall answer, answer ∈ answerOf env services client s call ->
      answer.served = true -> answer.result.isOk = true) :
    SameMembers ((resultsOf (answerOf env services client s call)).foldl follow copy)
        ((HostCall.step exp env services s call).trackers client).lastServed ∧
      SameMembers ((HostCall.step exp env services s call).trackers client).lastServed
        (((resultsOf (answerOf env services client s call)).getLast?.map
          (fun r => idsOf r.context)).getD (s.trackers client).lastServed) := by
  cases call with
  | turn c input =>
      unfold answerOf at hanswers ⊢
      unfold HostCall.step
      dsimp only at hanswers ⊢
      by_cases hc : c = client
      · rw [if_pos hc] at hanswers ⊢
        rw [hc, if_pos rfl]
        exact sameMembers_turn hcopy (hanswers _ List.mem_cons_self)
      · rw [if_neg hc, if_neg (Ne.symm hc)]
        exact ⟨hcopy, fun id => Iff.rfl⟩
  | tell call => exact ⟨hcopy, fun id => Iff.rfl⟩
  | change f => exact ⟨hcopy, fun id => Iff.rfl⟩

variable (exp) in
theorem sameMembers_run {client : κ} {s : Hosting κ F} {calls : List (HostCall κ F)}
    {copy : List MemoryId} (hcopy : SameMembers copy (s.trackers client).lastServed)
    (hanswers : forall answer, answer ∈ answersTo exp env services client s calls ->
      answer.served = true -> answer.result.isOk = true) :
    SameMembers ((resultsOf (answersTo exp env services client s calls)).foldl follow copy)
      (((resultsOf (answersTo exp env services client s calls)).getLast?.map
        (fun r => idsOf r.context)).getD (s.trackers client).lastServed) := by
  induction calls generalizing s copy with
  | nil => exact hcopy
  | cons call rest ih =>
      have hlater : forall answer, answer ∈ answersTo exp env services client
          (HostCall.step exp env services s call) rest ->
          answer.served = true -> answer.result.isOk = true :=
        fun answer hmem => hanswers answer (List.mem_append_right _ hmem)
      rcases sameMembers_call exp hcopy
        (fun answer hmem => hanswers answer (List.mem_append_left _ hmem)) with ⟨hhere, hlast⟩
      have hrest := ih hhere hlater
      rw [answersTo, resultsOf, List.filterMap_append, List.foldl_append, List.getLast?_append]
      intro id
      refine (hrest id).trans ?_
      unfold resultsOf at hlast ⊢
      cases hlater : (List.filterMap (fun answer => answer.result.toOption)
          (answersTo exp env services client (HostCall.step exp env services s call)
            rest)).getLast? with
      | none => exact hlast id
      | some r => exact Iff.rfl

/-- Whatever others do in between, a client whose turns fail, if they do, before a context is
served has from the differences alone the identifiers of the context that it was served last. -/
theorem copies_follow_deltas (s : Hosting κ F) (client : κ)
    (hnew : s.trackers client = DeltaTracker.new) (calls : List (HostCall κ F))
    (hanswers : forall answer, answer ∈ answersTo exp env services client s calls ->
      answer.served = true -> answer.result.isOk = true) :
    let results := resultsOf (answersTo exp env services client s calls)
    forall id, id ∈ results.foldl follow [] <->
      exists r, results.getLast? = some r ∧ id ∈ idsOf r.context := by
  dsimp only
  intro id
  have hcopy : SameMembers [] (s.trackers client).lastServed := by
    rw [hnew]
    exact fun _ => Iff.rfl
  rw [sameMembers_run exp hcopy hanswers id, hnew]
  cases (resultsOf (answersTo exp env services client s calls)).getLast? with
  | none => exact ⟨fun h => absurd h List.not_mem_nil, fun ⟨_, h, _⟩ => by cases h⟩
  | some r => exact ⟨fun h => ⟨r, rfl, h⟩, fun ⟨_, heq, h⟩ => by cases heq; exact h⟩

end Copies

/-!
## What the engines were told
-/

section Told

variable [DecidableEq κ] [Scalar F] (exp : F -> F) (env : Env F) (services : TurnServices F)

/-- What the engines hear of a call. -/
def heardOf (s : Hosting κ F) : HostCall κ F -> List (EngineCall F)
  | HostCall.turn client input => heardInTurn env services input (s.serving client)
  | HostCall.tell call => [call]
  | HostCall.change _ => []

/-- Everything the engines heard. -/
def heard (s : Hosting κ F) : List (HostCall κ F) -> List (EngineCall F)
  | [] => []
  | call :: rest =>
      heardOf env services s call ++ heard (HostCall.step exp env services s call) rest

variable {exp env services}

end Told

/-!
### One engine at a time
-/

section Parts

/-- What a trajectory tracker is told. -/
inductive TrajectoryCall (F : Type) where
  | turn (node : TrajectoryNode F)
  | reinforce (hitTopic : String)

def TrajectoryCall.step (text : TextOps F) (build : Build) (t : TrajectoryTracker F) :
    TrajectoryCall F -> Option (TrajectoryTracker F)
  | TrajectoryCall.turn node => t.recordTurn text build node
  | TrajectoryCall.reinforce hitTopic => t.reinforceTransition text build hitTopic

/-- The calls that could be counted, one after the other. -/
def counted (text : TextOps F) (build : Build) (t : TrajectoryTracker F) :
    List (TrajectoryCall F) -> List (TrajectoryCall F)
  | [] => []
  | call :: rest =>
      match call.step text build t with
      | none => counted text build t rest
      | some t' => call :: counted text build t' rest

variable [Scalar F] {exp : F -> F} {env : Env F} {services : TurnServices F}

end Parts

/-!
### What a turn reports
-/

/-- How the engines of a database are set up; the transitions are those that were saved. -/
structure EngineSettings (F : Type) where
  painTracking : Bool
  painMaxWarnings : Nat
  trajectoryMaxTurns : Nat
  transitions : TransitionMap
  streamConfig : StreamConfig F

def EngineSettings.trajectory (settings : EngineSettings F) : TrajectoryTracker F :=
  { TrajectoryTracker.new settings.trajectoryMaxTurns with transitions := settings.transitions }

def EngineSettings.start (settings : EngineSettings F) : Engines F where
  pain :=
    { enabled := settings.painTracking
      registry := PainRegistry.new settings.painMaxWarnings }
  trajectory := settings.trajectory
  stream := CognitionStream.withConfig settings.streamConfig

section Reports

variable [DecidableEq κ] [Scalar F]

variable (exp : F -> F) (env : Env F) (services : TurnServices F)

end Reports

/-!
### Two clients
-/

section Examples

/-- Words are separated by ASCII white space, and nothing can be embedded. -/
def plainTextEnv : Env Rat := { calmEnv CognitiveConfig.default with text := asciiOps }

def noEmbedder : TurnServices Rat where
  embedText _ _ := Except.ok none
  classes := { isUppercase := Char.isUpper, isAlphanumeric := Char.isAlphanum }
  build := Build.wrapping
  phantomTracking := true
  enrichmentEnabled := true
  triggerInterval := 1

def plainSettings : EngineSettings Rat where
  painTracking := true
  painMaxWarnings := 5
  trajectoryMaxTurns := 100
  transitions := TransitionMap.default
  streamConfig := StreamConfig.default

def freshHosting : Hosting Nat Rat where
  db := Database.ofWorld emptyWorld
  engines := plainSettings.start
  trackers _ := DeltaTracker.new

def redisTurn : ProcessTurnInput where
  userMessage := "Deploy Redis"
  assistantResponse := some "ok"
  turnId := 1
  projectContext := none
  agentId := none

theorem copies_follow_deltas_redis :
    let results := resultsOf (answersTo id plainTextEnv noEmbedder 0 freshHosting
      [HostCall.turn 0 redisTurn, HostCall.turn 1 redisTurn, HostCall.turn 0 redisTurn])
    forall id, id ∈ results.foldl follow [] <->
      exists r, results.getLast? = some r ∧ id ∈ idsOf r.context := by
  have hanswers : (answersTo id plainTextEnv noEmbedder 0 freshHosting
      [HostCall.turn 0 redisTurn, HostCall.turn 1 redisTurn, HostCall.turn 0 redisTurn]).all
        (fun answer => !answer.served || answer.result.isOk) = true := by decide +kernel
  refine copies_follow_deltas freshHosting 0 rfl _ ?_
  intro answer hmem hserved
  have hanswer := List.all_eq_true.mp hanswers answer hmem
  rw [hserved] at hanswer
  exact hanswer

end Examples

end Facade
end MenteDb
