import MenteDb.Facade.Archiving
import MenteDb.Facade.EnrichmentProgress
import MenteDb.Facade.TurnHistories

/-!
# What turns leave stored

What survives every write survives a turn that does not archive.  So the memories that a turn
reports are there until a turn archives, or somebody else takes them away.
-/

namespace MenteDb
namespace Facade

open Foundation
open Sqlite
open Cognitive
open MenteDb.Context

variable {κ F : Type} [Scalar F]

/-- Memories are archived on every hundredth turn. -/
def archives (turnId : UInt64) : Prop := turnId ≠ 0 ∧ turnId.toNat % 100 = 0

instance (turnId : UInt64) : Decidable (archives turnId) := inferInstanceAs (Decidable (_ ∧ _))

section Closed

variable {env : Env F} {services : TurnServices F} {input : ProcessTurnInput} {I : World F -> Prop}

omit [Scalar F] in
theorem keeps_inWorld {α ε : Type} {f : ε -> Stop} {x : Prog (World F) ε α}
    (hx : Prog.Keeps I x) : Prog.Keeps (fun s => I s.db.world) (worldPart.run f x) := by
  have hrun : Prog.Keeps (fun s => I (worldPart.get s)) (worldPart.run f x) := Part.keeps_run hx
  exact hrun

namespace WriteClosed

variable (h : WriteClosed env I)

include h

theorem keeps_embedText (s : String) : Prog.Keeps I (embedText services s) := by
  intro w hw
  unfold embedText
  have hnext := h.views.ignoresTicks w (w.ticks + 1) (Nat.le_succ _) hw
  cases services.embedText w.ticks s with
  | ok embedding => exact hnext
  | error e => exact hnext

theorem keeps_embedOrZeros (s : String) : Prog.Keeps I (embedOrZeros services s) :=
  Prog.Keeps.bind (h.keeps_embedText s) (fun _ => Prog.keeps_pure _)

theorem keeps_retrieveContext (message : String) (queryEmbedding : List F) :
    Prog.Keeps I (retrieveContext env message queryEmbedding) := by
  have hhybrid : Prog.Keeps I (hybridContext env message queryEmbedding) := by
    apply Prog.Keeps.bind h.keeps_now
    intro now
    apply Prog.Keeps.bind (Prog.keeps_gets _)
    intro recalled
    exact Prog.Keeps.bind (Prog.keeps_gets _) (fun _ => Prog.keeps_pure _)
  apply Prog.Keeps.bind
  · intro w hw
    unfold trySpeculativeHit
    cases env.config.speculativeCache with
    | false => exact hw
    | true => exact h.views w _ rfl rfl rfl rfl (Nat.le_succ _) hw
  · intro hit
    cases hit with
    | none => exact hhybrid
    | some entry =>
        apply Prog.Keeps.bind (Prog.keeps_gets _)
        intro matched
        exact Prog.triple_ite (fun _ => Prog.keeps_pure _) (fun _ => hhybrid)

theorem keeps_linkAll (now : Timestamp) (id : MemoryId) (others : List (MemoryNode F))
    (edges : Nat) : Prog.Keeps I (linkAll env now id others edges) := by
  induction others generalizing edges with
  | nil => exact Prog.keeps_pure _
  | cons other rest ih =>
      apply Prog.Keeps.bind (h.keeps_relateOrSkip _)
      intro drawn
      exact ih _

theorem keeps_extractAndLinkFacts (id : MemoryId) :
    Prog.Keeps I (extractAndLinkFacts env id) := by
  apply Prog.Keeps.bind (Prog.Triple.mapError (StoreClosed.keeps_getMemory id))
  intro target
  split
  · exact Prog.keeps_fail _
  · apply Prog.Triple.mapError
    apply Prog.triple_ite
    · exact fun _ => Prog.keeps_pure _
    · intro _
      apply Prog.Keeps.bind h.keeps_now
      intro recalledAt
      apply Prog.Keeps.bind (Prog.keeps_gets _)
      intro nearby
      apply Prog.Keeps.bind h.keeps_now
      intro now
      exact Prog.Keeps.bind (h.keeps_linkAll _ _ _ _) (fun _ => Prog.keeps_pure _)

theorem keeps_proactiveRecall (actions : List DetectedAction) :
    Prog.Keeps I (proactiveRecall env services actions) := by
  induction actions with
  | nil => exact Prog.keeps_pure _
  | cons action rest ih =>
      have hhere : Prog.Keeps I (recallForAction env services action) := by
        apply Prog.Keeps.bind (h.keeps_embedText _)
        intro embedding
        cases embedding with
        | none => exact Prog.keeps_pure _
        | some e => exact Prog.Keeps.bind h.keeps_now (fun _ => Prog.keeps_gets _)
      apply Prog.Keeps.bind hhere
      intro here
      exact Prog.Keeps.bind ih (fun _ => Prog.keeps_pure _)

theorem keeps_storeConversation : Prog.Keeps I (storeConversation env services input) := by
  apply Prog.Keeps.bind (h.keeps_embedText _)
  intro embedding
  apply Prog.Keeps.bind (Prog.keeps_gets _)
  intro id
  apply Prog.Keeps.bind h.keeps_now
  intro now
  exact Prog.Keeps.bind (h.keeps_store _) (fun _ => Prog.keeps_pure _)

theorem keeps_autoDetectCorrection :
    Prog.Keeps I (autoDetectCorrection env services input) := by
  apply Prog.triple_ite
  · intro _
    apply Prog.Keeps.bind (h.keeps_embedOrZeros _)
    intro embedding
    apply Prog.Keeps.bind (h.keeps_newNode _ _ _ _)
    intro node
    exact Prog.Keeps.bind (h.keeps_store _) (fun _ => Prog.keeps_pure _)
  · exact fun _ => Prog.keeps_pure _

theorem keeps_storeGhost (actions : List DetectedAction) :
    Prog.Keeps I (storeGhost env services input actions) := by
  apply Prog.triple_ite
  · intro _
    apply Prog.Keeps.bind (h.keeps_embedText _).attempt
    intro embedding
    split
    · apply Prog.Keeps.bind (h.keeps_newNode _ _ _ _)
      intro node
      exact Prog.Keeps.bind (h.keeps_store _).attempt (fun _ => Prog.keeps_pure _)
    · exact Prog.keeps_pure _
  · exact fun _ => Prog.keeps_pure _

theorem keeps_buildTopics (topics : List String) :
    Prog.Keeps I (buildTopics env services topics) := by
  induction topics with
  | nil => exact Prog.keeps_pure _
  | cons topic rest ih =>
      have hbuilt : Prog.Keeps I (buildTopic env services topic) := by
        apply Prog.Keeps.bind (h.keeps_embedText _).attempt
        intro embedding
        split
        · exact Prog.Keeps.bind h.keeps_now (fun _ => Prog.keeps_gets _)
        · exact Prog.keeps_pure _
      apply Prog.Keeps.bind hbuilt
      intro built
      exact Prog.Keeps.bind ih (fun _ => Prog.keeps_pure _)

theorem keeps_updateSpeculativeCache (predictions : List String) :
    Prog.Keeps I (updateSpeculativeCacheFromPredictions env services predictions) := by
  apply Prog.triple_ite
  · exact fun _ => Prog.keeps_pure _
  · intro _
    apply Prog.triple_ite
    · intro _
      apply Prog.Keeps.bind h.keeps_now
      intro now
      apply Prog.Keeps.bind (h.keeps_buildTopics _)
      intro built
      exact Prog.keeps_modify (fun w hw => h.views w _ rfl rfl rfl rfl (Nat.le_refl _) hw)
    · exact fun _ => Prog.keeps_pure _

/-- Without archiving, maintenance only writes. -/
theorem keeps_maybeRunMaintenance {turnId : UInt64} (hturn : ¬ archives turnId) :
    Prog.Keeps I (maybeRunMaintenance env turnId) := by
  apply Prog.triple_ite
  · exact fun _ => Prog.keeps_pure _
  · intro hzero
    apply Prog.Keeps.bind (keeps_everyTurns turnId 50 h.keeps_turnDecay)
    intro _
    apply Prog.Keeps.bind
    · unfold everyTurns
      rw [if_neg (fun hperiod => hturn ⟨hzero, hperiod⟩)]
      exact Prog.keeps_pure _
    · intro _
      exact keeps_everyTurns turnId 200 h.keeps_turnConsolidation

theorem keeps_serveContext :
    Prog.Keeps (fun s => I s.db.world) (serveContext env services input) := by
  apply Prog.Keeps.bind (keeps_inWorld (h.keeps_embedOrZeros _))
  intro queryEmbedding
  apply Prog.Keeps.bind (keeps_inWorld (h.keeps_retrieveContext _ _))
  intro context s hs
  exact hs

theorem keeps_writeTurn_world :
    Prog.Keeps (fun s => I s.db.world) (writeTurn env services input) := by
  apply Prog.Keeps.bind (keeps_inWorld h.keeps_storeConversation)
  intro episodicId
  apply Prog.Keeps.bind (keeps_inWorld (h.keeps_runExplicitWriteInference _))
  intro inferenceActions
  apply Prog.Keeps.bind (keeps_inWorld (h.keeps_extractAndLinkFacts _))
  intro facts
  apply Prog.Keeps.bind (keeps_inWorld (h.keeps_proactiveRecall _))
  intro recalls
  apply Prog.Keeps.bind (keeps_inWorld h.keeps_autoDetectCorrection)
  intro correctionId
  exact Prog.keeps_pure _

/-!
## Whole turns
-/

theorem keeps_tellEngines (context : List (ScoredMemory F)) :
    Prog.Keeps (fun s => I s.db.world) (tellEngines env services input context) := by
  apply Prog.Keeps.bind
  · apply keeps_inWorld
    intro w hw
    unfold detectPhantoms
    by_cases htracking : services.phantomTracking = true
    · rw [if_pos htracking]
      exact h.views w _ rfl rfl rfl rfl ((Nat.le_add_right _ _).trans (Nat.le_succ _)) hw
    · rw [if_neg htracking]
      exact hw
  intro phantomCount
  apply Prog.Keeps.bind (x := checkResponse env input context) (fun _ hs => hs)
  intro contradictionCount
  apply Prog.Keeps.bind
  · apply keeps_inWorld
    apply Prog.Keeps.bind (h.keeps_embedOrZeros _)
    intro topicEmbedding
    exact Prog.Keeps.bind h.keeps_now (fun _ => Prog.keeps_pure _)
  intro node
  apply Prog.Keeps.bind
  · intro s hs
    unfold recordTrajectoryTurn
    cases s.engines.trajectory.recordTurn env.text services.build node with
    | none => exact hs
    | some t => exact hs
  · exact fun _ => Prog.keeps_pure _

theorem keeps_finishTurn (hturn : ¬ archives input.turnId) (actions : List DetectedAction) :
    Prog.Keeps (fun s => I s.db.world) (finishTurn env services input actions) := by
  apply Prog.Keeps.bind (Prog.keeps_gets _)
  intro predictions
  apply Prog.Keeps.bind (keeps_inWorld (h.keeps_storeGhost _))
  intro _
  apply Prog.Keeps.bind (keeps_inWorld (h.keeps_updateSpeculativeCache _))
  intro _
  apply Prog.Keeps.bind
  · apply Prog.Keeps.bind (keeps_inWorld (h.keeps_maybeRunMaintenance hturn))
    intro _
    apply Prog.keeps_modify
    intro s hs
    show I (triggerEnrichment services input.turnId s.db).world
    unfold triggerEnrichment
    split <;> exact hs
  · intro _
    exact Prog.Keeps.bind (Prog.keeps_gets _) (fun _ => Prog.keeps_pure _)

/-- What survives every write survives a turn that does not archive. -/
theorem keeps_processTurn (hturn : ¬ archives input.turnId) :
    Prog.Keeps (fun s => I s.db.world) (processTurn env services input) := by
  rw [processTurn_eq]
  apply Prog.Keeps.bind h.keeps_serveContext
  intro served
  apply Prog.Keeps.bind h.keeps_writeTurn_world
  intro written
  apply Prog.Keeps.bind (h.keeps_tellEngines _)
  intro told
  exact Prog.Keeps.bind (h.keeps_finishTurn hturn _) (fun _ => Prog.keeps_pure _)

end WriteClosed

/-!
## What is reported
-/

/-- A memory that was stored is there. -/
theorem triple_store_stored (node : MemoryNode F) :
    Prog.Triple (fun _ => True) (store env node) (fun _ => Stored node.id) (fun _ => True) := by
  have hwrites : WriteClosed env (Stored node.id : World F -> Prop) := writeClosed_stored node.id
  have hwritten : Prog.Triple (fun _ => True) (dbStoreMemory env node) (fun _ => Stored node.id)
      (fun _ => True) := by
    apply Prog.triple_gets_bind
    intro dim
    apply triple_transact (fun _ _ _ _ => trivial)
    intro w t _ hrun
    unfold Stored
    show (t.memories.find? node.id).isSome = true
    rw [Tables.storeMemoryOn_find? (Tables.storeMemory_ok hrun), if_pos rfl]
    rfl
  apply Prog.Triple.bind (Q := fun _ _ => True) (Prog.triple_of_states (fun _ _ => trivial))
  intro _
  apply Prog.Triple.bind hwritten
  intro _
  apply Prog.Triple.bind (Q := fun _ => Stored node.id)
  · exact Prog.triple_modify (fun w hw => hwrites.register w node.id hw)
  intro _
  apply Prog.Triple.bind (Q := fun _ => Stored node.id)
  · exact (keeps_indexMemoryEntities hwrites.views node).attempt.triple (fun _ _ => trivial)
  intro _
  apply Prog.triple_ite
  · exact fun _ => (hwrites.inference.keeps_runWriteInference node).triple (fun _ _ => trivial)
  · exact fun _ => (Prog.keeps_pure ()).triple (fun _ _ => trivial)

theorem triple_storeConversation_stored :
    Prog.Triple (fun _ => True) (storeConversation env services input)
      (fun id => Stored id) (fun _ => True) := by
  apply Prog.Triple.bind (Q := fun _ _ => True) (Prog.triple_of_states (fun _ _ => trivial))
  intro embedding
  apply Prog.Triple.bind (Q := fun _ _ => True) (Prog.triple_of_states (fun _ _ => trivial))
  intro id
  apply Prog.Triple.bind (Q := fun _ _ => True) (Prog.triple_of_states (fun _ _ => trivial))
  intro now
  apply Prog.Triple.bind (triple_store_stored _)
  intro _ w hw
  exact hw

theorem triple_autoDetectCorrection_stored :
    Prog.Triple (fun _ => True) (autoDetectCorrection env services input)
      (fun correctionId w => forall id, correctionId = some id -> Stored id w)
      (fun _ => True) := by
  apply Prog.triple_ite
  · intro _
    apply Prog.Triple.bind (Q := fun _ _ => True) (Prog.triple_of_states (fun _ _ => trivial))
    intro embedding
    apply Prog.Triple.bind (Q := fun _ _ => True) (Prog.triple_of_states (fun _ _ => trivial))
    intro node
    apply Prog.Triple.bind (triple_store_stored _)
    intro _ w hw id hid
    cases hid
    exact hw
  · intro _ w _ id hid
    cases hid

/-- The memories that a turn writes down as stored are there when it is written. -/
theorem triple_writeTurn_stored :
    Prog.Triple (fun _ => True) (writeTurn env services input)
      (fun written s => forall id, (id = written.episodicId ∨ written.correctionId = some id) ->
        Stored id s.db.world) (fun _ => True) := by
  have hstored : Prog.Triple (fun s => True)
      (worldPart.run Stop.failed (storeConversation env services input))
      (fun id s => Stored id (worldPart.get s)) (fun _ => True) :=
    Part.triple_run triple_storeConversation_stored
  apply Prog.Triple.bind hstored
  intro episodicId
  have hwrites : WriteClosed env (Stored episodicId : World F -> Prop) :=
    writeClosed_stored episodicId
  apply Prog.Triple.bind (Q := fun _ s => Stored episodicId s.db.world)
  · exact (keeps_inWorld (hwrites.keeps_runExplicitWriteInference _)).triple (fun _ _ => trivial)
  intro inferenceActions
  apply Prog.Triple.bind (Q := fun _ s => Stored episodicId s.db.world)
  · exact (keeps_inWorld (hwrites.keeps_extractAndLinkFacts _)).triple (fun _ _ => trivial)
  intro facts
  apply Prog.Triple.bind (Q := fun _ s => Stored episodicId s.db.world)
  · exact (keeps_inWorld (hwrites.keeps_proactiveRecall _)).triple (fun _ _ => trivial)
  intro recalls
  have hcorrection : Prog.Triple (fun s => True)
      (worldPart.run Stop.failed (autoDetectCorrection env services input))
      (fun correctionId s => forall id, correctionId = some id -> Stored id (worldPart.get s))
      (fun _ => True) :=
    Part.triple_run triple_autoDetectCorrection_stored
  have hkept : Prog.Keeps (fun s => Stored episodicId s.db.world)
      (worldPart.run Stop.failed (autoDetectCorrection env services input)) :=
    keeps_inWorld hwrites.keeps_autoDetectCorrection
  apply Prog.Triple.bind ((Prog.Triple.and hkept hcorrection).weaken
    (fun _ hs => ⟨hs, trivial⟩) (fun _ _ hs => hs) (fun _ _ => trivial))
  intro correctionId s hs id hid
  rcases hid with heq | hcorrected
  · rw [heq]
    exact hs.1
  · exact hs.2 id hcorrected

variable (env services) in
/-- What a turn that does not archive reports as stored is there. -/
theorem triple_processTurn_stored (hturn : ¬ archives input.turnId) (id : MemoryId) :
    Prog.Triple (fun _ => True) (processTurn env services input)
      (fun r s => (id ∈ r.storedIds ∨ r.correctionId = some id) -> Stored id s.db.world)
      (fun _ => True) := by
  have hwrites : WriteClosed env (Stored id : World F -> Prop) := writeClosed_stored id
  rw [processTurn_eq]
  apply Prog.Triple.bind (Q := fun _ _ => True) (Prog.triple_of_states (fun _ _ => trivial))
  intro served
  apply Prog.Triple.bind (triple_writeTurn_stored.weaken (fun _ hs => hs)
    (fun _ _ hs => hs id) (fun _ hs => hs))
  intro written
  apply Prog.Triple.bind
    ((Prog.Keeps.imp (hwrites.keeps_tellEngines _)).triple (fun _ _ => trivial))
  intro told
  apply Prog.Triple.bind ((Prog.Keeps.imp (hwrites.keeps_finishTurn hturn _)).triple
    (fun _ _ => trivial))
  intro finished s hs hid
  exact hs (hid.imp_left List.mem_singleton.mp)

end Closed

/-!
## Later calls
-/

/-- The call leaves the row of a memory, with its creation time. -/
def HostCall.Retains (id : MemoryId) : HostCall κ F -> Prop
  | HostCall.turn _ input => ¬ archives input.turnId
  | HostCall.tell _ => True
  | HostCall.change f => forall at_ db, CreatedAt id at_ db.world -> CreatedAt id at_ (f db).world

section Runs

variable [DecidableEq κ] (exp : F -> F) (env : Env F) (services : TurnServices F)

theorem createdAt_step {id : MemoryId} {at_ : Timestamp} {s : Hosting κ F} {call : HostCall κ F}
    (hs : CreatedAt id at_ s.db.world) (hcall : call.Retains id) :
    CreatedAt id at_ (HostCall.step exp env services s call).db.world := by
  cases call with
  | turn client input =>
      have hwrites : WriteClosed env (CreatedAt id at_ : World F -> Prop) :=
        writeClosed_createdAt id at_
      exact (hwrites.keeps_processTurn hcall).state hs
  | tell call => exact hs
  | change f => exact hcall at_ s.db hs

/-- What a turn that does not archive reports as stored has a row, and this row stays, with its
creation time, whatever comes later, until a turn archives or another call takes it away. -/
theorem told_memories_stay (s : Hosting κ F) (client : κ) (input : ProcessTurnInput)
    {r : ProcessTurnResult F}
    (h : (processTurn env services input (s.serving client)).1 = Except.ok r)
    (hturn : ¬ archives input.turnId) (id : MemoryId)
    (hid : id ∈ r.storedIds ∨ r.correctionId = some id) :
    exists at_, forall later : List (HostCall κ F),
      (forall call, call ∈ later -> call.Retains id) ->
      CreatedAt id at_ (((HostCall.step exp env services s (HostCall.turn client input)).run
        exp env services later).db.world) := by
  have hstored : Stored id (processTurn env services input (s.serving client)).2.db.world := by
    have hpost := triple_processTurn_stored env services hturn id (s.serving client) trivial
    rcases hrun : processTurn env services input (s.serving client) with ⟨result, s'⟩
    rw [hrun] at hpost h
    cases h
    exact hpost hid
  rcases Option.isSome_iff_exists.mp hstored with ⟨row, hrow⟩
  refine ⟨row.createdAt, ?_⟩
  intro later hlater
  have hstart : CreatedAt id row.createdAt
      (HostCall.step exp env services s (HostCall.turn client input)).db.world :=
    congrArg (Option.map MemoryRow.createdAt) hrow
  generalize HostCall.step exp env services s (HostCall.turn client input) = s' at hstart
  induction later generalizing s' with
  | nil => exact hstart
  | cons call rest ih =>
      exact ih (fun c hc => hlater c (List.mem_cons_of_mem _ hc)) _
        (createdAt_step exp env services hstart (hlater call List.mem_cons_self))

end Runs

theorem told_memories_stay_redis :
    exists r, (processTurn plainTextEnv noEmbedder redisTurn (freshHosting.serving 0)).1 =
        Except.ok r ∧ r.storedIds ≠ [] ∧
      forall m, m ∈ r.storedIds -> exists at_, CreatedAt m at_
        (freshHosting.run id plainTextEnv noEmbedder
          [HostCall.turn 0 redisTurn, HostCall.turn 1 redisTurn]).db.world := by
  have hstores : ((processTurn plainTextEnv noEmbedder redisTurn
      (freshHosting.serving 0)).1.toOption.map fun r => r.storedIds.isEmpty) = some false := by
    decide +kernel
  rcases hrun : (processTurn plainTextEnv noEmbedder redisTurn
      (freshHosting.serving 0)).1 with e | r
  · rw [hrun] at hstores
    cases hstores
  · rw [hrun] at hstores
    have hnonempty : r.storedIds.isEmpty = false := Option.some.inj hstores
    refine ⟨r, rfl, List.isEmpty_eq_false_iff.mp hnonempty, ?_⟩
    intro m hm
    rcases told_memories_stay id plainTextEnv noEmbedder freshHosting 0 redisTurn hrun (by decide) m
      (Or.inl hm) with ⟨at_, hlater⟩
    refine ⟨at_, hlater [HostCall.turn 1 redisTurn] ?_⟩
    intro call hcall
    rw [List.mem_singleton.mp hcall]
    show ¬ archives redisTurn.turnId
    decide

end Facade
end MenteDb
