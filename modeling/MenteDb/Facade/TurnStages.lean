import MenteDb.Facade.ProcessTurn

/-!
# The stages of a turn

Most of a turn only touches the world.  The tracker moves when the context is served, and each
engine is told once, by a turn that came so far.
-/

namespace MenteDb
namespace Facade

open Foundation
open Cognitive
open MenteDb.Context

variable {F : Type}

/-!
## Beside the world
-/

/-- What a program on the world leaves alone. -/
structure Beside (F : Type) where
  engines : Engines F
  tracker : DeltaTracker
  lastEnrichmentTurn : UInt64
  enrichmentPending : Bool

def Serving.beside (s : Serving F) : Beside F where
  engines := s.engines
  tracker := s.tracker
  lastEnrichmentTurn := s.db.lastEnrichmentTurn
  enrichmentPending := s.db.enrichmentPending

theorem keeps_worldPart {ε α : Type} {f : ε -> Stop} (x : Prog (World F) ε α) (b : Beside F) :
    Prog.Keeps (fun s => s.beside = b) (worldPart.run f x) :=
  Part.keeps_frame (fun _ _ hs => hs)

theorem beside_inWorld {α : Type} (x : Op F α) (b : Beside F) :
    Prog.Keeps (fun s => s.beside = b) (inWorld x) := keeps_worldPart x b

section Stages

variable [Scalar F] {env : Env F} {services : TurnServices F} {input : ProcessTurnInput}

theorem keeps_writeTurn (b : Beside F) :
    Prog.Keeps (fun s => s.beside = b) (writeTurn env services input) := by
  apply Prog.Keeps.bind (beside_inWorld _ b)
  intro episodicId
  apply Prog.Keeps.bind (beside_inWorld _ b)
  intro inferenceActions
  apply Prog.Keeps.bind (keeps_worldPart _ b)
  intro facts
  apply Prog.Keeps.bind (beside_inWorld _ b)
  intro recalls
  apply Prog.Keeps.bind (beside_inWorld _ b)
  intro correctionId
  exact Prog.keeps_pure _

variable (env services input) in
/-- A context is served as the difference to the last one, and the tracker moves on; a turn that
fails before leaves the tracker. -/
theorem triple_serveContext (b : Beside F) :
    Prog.Triple (fun s => s.beside = b) (serveContext env services input)
      (fun served s =>
        s.beside = { b with tracker := b.tracker.update served.context.ids } ∧
        served.delta =
          DeltaTracker.computeDelta env.hashOrder served.context.ids b.tracker.lastServed ∧
        served.painWarnings = b.engines.pain.checkPainSignals env.text input.userMessage)
      (fun s => s.beside = b) := by
  apply Prog.Triple.bind (beside_inWorld _ b)
  intro queryEmbedding
  apply Prog.Triple.bind (beside_inWorld _ b)
  intro context s hs
  cases hs
  exact ⟨rfl, rfl, rfl⟩

/-- The identifiers of a context are those of its memories. -/
theorem triple_retrieveContext_ids (message : String) (queryEmbedding : List F) :
    Prog.Triple (fun _ => True) (retrieveContext env message queryEmbedding)
      (fun context _ => idsOf context.scored = context.ids) (fun _ => True) := by
  have hhybrid : Prog.Triple (fun _ => True) (hybridContext env message queryEmbedding)
      (fun context _ => idsOf context.scored = context.ids) (fun _ => True) :=
    fun _ _ => rfl
  apply Prog.Triple.bind (Q := fun _ _ => True)
  · exact Prog.triple_of_states (fun _ _ => trivial)
  · intro hit
    cases hit with
    | none => exact hhybrid
    | some entry =>
        apply Prog.triple_gets_bind
        intro matched
        apply Prog.triple_ite
        · exact fun _ _ _ => rfl
        · exact fun _ => hhybrid

variable (env services input) in
theorem triple_serveContext_ids : Prog.Triple (fun _ => True) (serveContext env services input)
    (fun served _ => idsOf served.context.scored = served.context.ids) (fun _ => True) := by
  apply Prog.Triple.bind (Q := fun _ _ => True)
  · exact Prog.triple_of_states (fun _ _ => trivial)
  intro queryEmbedding
  apply Prog.Triple.bind (Part.triple_run (triple_retrieveContext_ids _ _))
  intro context s hs
  exact hs

/-- The gaps that a turn finds are the mentions of which nothing is known. -/
def gapCount (env : Env F) (services : TurnServices F) (input : ProcessTurnInput)
    (context : List (ScoredMemory F)) (w : World F) : Nat :=
  if services.phantomTracking then
    (w.phantom.unknownMentions services.classes env.text env.hashOrder input.conversation
      (knownWords env.text context)).length
  else 0

omit [Scalar F] in
theorem detectPhantoms_spec {b : Beside F} (context : List (ScoredMemory F)) {s : Serving F}
    (hs : s.beside = b) :
    exists s', inWorld (detectPhantoms env services input context) s =
        (Except.ok (gapCount env services input context s.db.world), s') ∧ s'.beside = b := by
  cases hs
  unfold inWorld Part.run detectPhantoms gapCount
  by_cases htracking : services.phantomTracking = true
  · simp only [if_pos htracking]
    refine ⟨_, Prod.ext (congrArg Except.ok ?_) rfl, rfl⟩
    show (List.map _ (List.zipIdx _)).length = _
    rw [List.length_map, List.length_zipIdx]
    rfl
  · simp only [if_neg htracking]
    exact ⟨_, rfl, rfl⟩

theorem checkResponse_spec {b : Beside F} (context : List (ScoredMemory F)) {s : Serving F}
    (hs : s.beside = b) :
    exists s', checkResponse env input context s =
        (Except.ok (checkStream env.text b.engines.stream input.response context).1, s') ∧
      s'.beside = { b with
        engines := { b.engines with
          stream := StreamCall.step env.text b.engines.stream
            (StreamCall.turn input.assistantResponse context) } } := by
  cases hs
  exact ⟨_, rfl, rfl⟩

omit [Scalar F] in
theorem recordTrajectoryTurn_spec {b : Beside F} (node : TrajectoryNode F) {s : Serving F}
    (hs : s.beside = b) :
    (b.engines.trajectory.recordTurn env.text services.build node = none ∧
      recordTrajectoryTurn env services node s = (Except.error Stop.panicked, s)) ∨
    exists t s', b.engines.trajectory.recordTurn env.text services.build node = some t ∧
      recordTrajectoryTurn env services node s = (Except.ok (), s') ∧
      s'.beside = { b with engines := { b.engines with trajectory := t } } := by
  cases hs
  unfold recordTrajectoryTurn Serving.beside
  cases s.engines.trajectory.recordTurn env.text services.build node with
  | none => exact Or.inl ⟨rfl, rfl⟩
  | some t => exact Or.inr ⟨t, _, rfl, rfl, rfl⟩

end Stages

/-!
## What the engines hear
-/

inductive EngineCall (F : Type) where
  | pain (call : PainCall F)
  | stream (call : StreamCall F)
  | turn (node : TrajectoryNode F)
  | reinforce (hitTopic : String)

section Heard

variable [Scalar F] (exp : F -> F) (env : Env F) (services : TurnServices F)

/-- A turn or a hit that cannot be counted leaves the trajectory. -/
def Engines.hear (e : Engines F) : EngineCall F -> Engines F
  | EngineCall.pain call => { e with pain := e.pain.step exp call }
  | EngineCall.stream call => { e with stream := StreamCall.step env.text e.stream call }
  | EngineCall.turn node =>
      { e with
        trajectory := (e.trajectory.recordTurn env.text services.build node).getD e.trajectory }
  | EngineCall.reinforce hitTopic =>
      { e with
        trajectory := (e.trajectory.reinforceTransition env.text services.build hitTopic).getD
          e.trajectory }

/-- The context of a turn that gets to its writes, and through them. -/
def turnContext (input : ProcessTurnInput) : Turn F (List (ScoredMemory F)) := do
  let served ← serveContext env services input
  let _ ← writeTurn env services input
  pure served.context.scored

/-- The topic that a turn with a context gets to. -/
def turnTopic (input : ProcessTurnInput) (context : List (ScoredMemory F)) :
    Turn F (TrajectoryNode F) := do
  let _ ← inWorld (detectPhantoms env services input context)
  let _ ← checkResponse env input context
  inWorld (topicNode env services input)

/-- What the engines hear once everything is written. -/
def heardAfterWriting (input : ProcessTurnInput) (context : List (ScoredMemory F))
    (s : Serving F) : List (EngineCall F) :=
  EngineCall.stream (StreamCall.turn input.assistantResponse context) ::
    match turnTopic env services input context s with
    | (Except.ok node, _) => [EngineCall.turn node]
    | (Except.error _, _) => []

/-- What the engines hear of a turn. -/
def heardInTurn (input : ProcessTurnInput) (s : Serving F) : List (EngineCall F) :=
  match turnContext env services input s with
  | (Except.ok context, mid) => heardAfterWriting env services input context mid
  | (Except.error _, _) => []

/-- The gaps and the contradictions, when the engines are told. -/
def tellEngines (input : ProcessTurnInput) (context : List (ScoredMemory F)) :
    Turn F (Nat × Nat) := do
  let phantomCount ← inWorld (detectPhantoms env services input context)
  let contradictionCount ← checkResponse env input context
  let node ← inWorld (topicNode env services input)
  recordTrajectoryTurn env services node
  pure (phantomCount, contradictionCount)

/-- What is left of a turn when its topic is recorded. -/
def finishTurn (input : ProcessTurnInput) (actions : List DetectedAction) :
    Turn F (List String × Bool) := do
  let predictions ← Prog.gets (fun s =>
    s.engines.trajectory.predictNextTopics env.text env.hashOrder)
  inWorld (storeGhost env services input actions)
  inWorld (updateSpeculativeCacheFromPredictions env services predictions)
  maintain env services input.turnId
  let enrichmentPending ← Prog.gets (fun s => needsEnrichment services s.db)
  pure (predictions, enrichmentPending)

end Heard

section Simulation

variable [Scalar F] {exp : F -> F} {env : Env F} {services : TurnServices F}
  {input : ProcessTurnInput}

theorem processTurn_eq : processTurn env services input = (do
    let served ← serveContext env services input
    let written ← writeTurn env services input
    let told ← tellEngines env services input served.context.scored
    let finished ← finishTurn env services input written.actions
    pure
      { context := served.context.scored
        storedIds := [written.episodicId]
        episodicId := some written.episodicId
        painWarnings := served.painWarnings
        cacheHit := served.context.cacheHit
        inferenceActions := written.inferenceActions
        detectedActions := written.actions
        proactiveRecalls := written.recalls
        correctionId := written.correctionId
        sentiment := analyzeSentiment env.text input.userMessage
        phantomCount := told.1
        contradictionCount := told.2
        predictedTopics := finished.1
        factsExtracted := written.facts.1
        edgesCreated := written.facts.2
        enrichmentPending := finished.2
        deltaAdded := served.delta.added
        deltaRemoved := served.delta.removed }) := by
  unfold processTurn updateTrajectory tellEngines finishTurn
  simp only [Prog.bind_assoc]
  rfl

/-!
### The end of a turn
-/

/-- What stands beside the world after maintenance. -/
def afterMaintenance (services : TurnServices F) (turnId : UInt64) (b : Beside F) : Beside F :=
  { b with
    enrichmentPending :=
      b.enrichmentPending || enrichmentDue services turnId b.lastEnrichmentTurn }

omit [Scalar F] in
theorem beside_triggerEnrichment (turnId : UInt64) (s : Serving F) :
    Serving.beside { s with db := triggerEnrichment services turnId s.db } =
      afterMaintenance services turnId s.beside := by
  unfold triggerEnrichment afterMaintenance needsEnrichment
  cases hdue : enrichmentDue services turnId s.db.lastEnrichmentTurn with
  | false =>
      rw [Bool.false_and, if_neg Bool.false_ne_true]
      show s.beside = { s.beside with enrichmentPending :=
        s.db.enrichmentPending || enrichmentDue services turnId s.db.lastEnrichmentTurn }
      rw [hdue, Bool.or_false]
      rfl
  | true =>
      have henabled : services.enrichmentEnabled = true := by
        unfold enrichmentDue at hdue
        simp only [Bool.and_eq_true] at hdue
        exact hdue.1.1.2
      rw [henabled, Bool.true_and, Bool.true_and]
      show Serving.beside { s with db := if (!s.db.enrichmentPending) = true then _ else _ } =
        { s.beside with enrichmentPending :=
          s.db.enrichmentPending || enrichmentDue services turnId s.db.lastEnrichmentTurn }
      rw [hdue, Bool.or_true]
      cases hpending : s.db.enrichmentPending with
      | false => rfl
      | true =>
          show s.beside = { s.beside with enrichmentPending := true }
          rw [← hpending]
          rfl

variable (env services input) in
theorem triple_finishTurn (actions : List DetectedAction) (b : Beside F) :
    Prog.Triple (fun s => s.beside = b) (finishTurn env services input actions)
      (fun finished s =>
        s.beside = afterMaintenance services input.turnId b ∧
        finished.1 = b.engines.trajectory.predictNextTopics env.text env.hashOrder ∧
        finished.2 = needsEnrichment services s.db)
      (fun s => s.beside = b) := by
  apply Prog.Triple.bind (Q := fun predictions s => s.beside = b ∧
    predictions = b.engines.trajectory.predictNextTopics env.text env.hashOrder)
  · exact Prog.triple_gets (fun s hs => ⟨hs, by rw [← hs]; rfl⟩)
  intro predictions
  apply Prog.Triple.of_and
  intro hpredictions
  apply Prog.Triple.bind (beside_inWorld _ b)
  intro _
  apply Prog.Triple.bind (beside_inWorld _ b)
  intro _
  apply Prog.Triple.bind (Q := fun _ s => s.beside = afterMaintenance services input.turnId b)
  · apply Prog.Triple.bind (beside_inWorld _ b)
    intro _
    apply Prog.triple_modify
    intro s hs
    rw [beside_triggerEnrichment, hs]
  · intro _ s hs
    exact ⟨hs, hpredictions, rfl⟩

/-!
### Every outcome
-/

/-- The tracker after a turn: it moves when a context was served. -/
def trackerAfter (env : Env F) (services : TurnServices F) (input : ProcessTurnInput)
    (s : Serving F) : DeltaTracker :=
  match (serveContext env services input s).1 with
  | Except.ok served => s.tracker.update served.context.ids
  | Except.error _ => s.tracker

omit [Scalar F] in
theorem beside_of_eq {α : Type} {x : Turn F α} {b : Beside F}
    (h : Prog.Keeps (fun s => s.beside = b) x) {s s' : Serving F} {r : Except Stop α}
    (hs : s.beside = b) (hrun : x s = (r, s')) : s'.beside = b := by
  have hstate := h.state hs
  rw [hrun] at hstate
  exact hstate

/-- What a turn that succeeds reports, given the state in which it starts and the one it leaves. -/
structure Reported (env : Env F) (services : TurnServices F) (input : ProcessTurnInput)
    (s s' : Serving F) (r : ProcessTurnResult F) : Prop where
  delta : r.deltaAdded = (DeltaTracker.computeDelta env.hashOrder (idsOf r.context)
      s.tracker.lastServed).added ∧
    r.deltaRemoved = (DeltaTracker.computeDelta env.hashOrder (idsOf r.context)
      s.tracker.lastServed).removed
  tracker : s'.tracker = s.tracker.update (idsOf r.context)
  pain : r.painWarnings = s.engines.pain.checkPainSignals env.text input.userMessage
  phantoms : exists mid, turnContext env services input s = (Except.ok r.context, mid) ∧
    r.phantomCount = gapCount env services input r.context mid.db.world
  contradictions : r.contradictionCount =
    (checkStream env.text s.engines.stream input.response r.context).1
  topics : exists node, node.topicSummary = rawTopic input ∧ node.openQuestions = [] ∧
    s.engines.trajectory.recordTurn env.text services.build node = some s'.engines.trajectory ∧
    EngineCall.turn node ∈ heardInTurn env services input s ∧
    r.predictedTopics = s'.engines.trajectory.predictNextTopics env.text env.hashOrder
  enrichment : r.enrichmentPending = needsEnrichment services s'.db

theorem topicNode_spec {w w' : World F} {node : TrajectoryNode F}
    (h : topicNode env services input w = (Except.ok node, w')) :
    node.topicSummary = rawTopic input ∧ node.openQuestions = [] := by
  rcases Prog.bind_ok h with ⟨embedding, mid, _, h⟩
  rcases Prog.bind_ok h with ⟨now, last, _, h⟩
  cases h
  exact ⟨rfl, rfl⟩

/-- The state after a turn and, if it succeeded, what it reported. -/
structure TurnSpec (exp : F -> F) (env : Env F) (services : TurnServices F)
    (input : ProcessTurnInput) (s : Serving F)
    (outcome : Except Stop (ProcessTurnResult F) × Serving F) : Prop where
  engines : outcome.2.engines =
    (heardInTurn env services input s).foldl (Engines.hear exp env services) s.engines
  tracker : outcome.2.tracker = trackerAfter env services input s
  lastEnrichment : outcome.2.db.lastEnrichmentTurn = s.db.lastEnrichmentTurn
  pending : outcome.2.db.enrichmentPending = (s.db.enrichmentPending ||
    (outcome.1.isOk && enrichmentDue services input.turnId s.db.lastEnrichmentTurn))
  reported : forall r, outcome.1 = Except.ok r ->
    Reported env services input s outcome.2 r

theorem TurnSpec.of_failed {s s' : Serving F} {e : Stop} {b : Beside F} (hs : s'.beside = b)
    (hengines : b.engines =
      (heardInTurn env services input s).foldl (Engines.hear exp env services) s.engines)
    (htracker : b.tracker = trackerAfter env services input s)
    (hlast : b.lastEnrichmentTurn = s.db.lastEnrichmentTurn)
    (hpending : b.enrichmentPending = s.db.enrichmentPending) :
    TurnSpec exp env services input s (Except.error e, s') := by
  rw [← hs] at hengines htracker hlast hpending
  refine ⟨hengines, htracker, hlast, ?_, fun r hr => by cases hr⟩
  exact hpending.trans (Bool.or_false _).symm

theorem hear_turn_none {e : Engines F} {node : TrajectoryNode F}
    (h : e.trajectory.recordTurn env.text services.build node = none) :
    e.hear exp env services (EngineCall.turn node) = e := by
  rw [Engines.hear, h]
  rfl

theorem hear_turn_some {e : Engines F} {node : TrajectoryNode F} {t : TrajectoryTracker F}
    (h : e.trajectory.recordTurn env.text services.build node = some t) :
    e.hear exp env services (EngineCall.turn node) = { e with trajectory := t } := by
  rw [Engines.hear, h]
  rfl

variable (exp env services input) in
/-- When the engines are told, each hears its part. -/
theorem tellEngines_spec {b : Beside F} (context : List (ScoredMemory F)) {s : Serving F}
    (hs : s.beside = b) :
    match tellEngines env services input context s with
    | (Except.ok told, s') =>
        exists node t, s'.beside = { b with
            engines := (heardAfterWriting env services input context s).foldl
              (Engines.hear exp env services) b.engines } ∧
          s'.engines.trajectory = t ∧
          node.topicSummary = rawTopic input ∧ node.openQuestions = [] ∧
          b.engines.trajectory.recordTurn env.text services.build node = some t ∧
          EngineCall.turn node ∈ heardAfterWriting env services input context s ∧
          told.1 = gapCount env services input context s.db.world ∧
          told.2 = (checkStream env.text b.engines.stream input.response context).1
    | (Except.error _, s') =>
        s'.beside = { b with
          engines := (heardAfterWriting env services input context s).foldl
            (Engines.hear exp env services) b.engines } := by
  rcases detectPhantoms_spec context hs with ⟨s1, hdetect, hs1⟩
  rcases checkResponse_spec context hs1 with ⟨s2, hcheck, hs2⟩
  have htopic : turnTopic env services input context s =
      inWorld (topicNode env services input) s2 := by
    unfold turnTopic
    rw [Prog.bind_of_ok hdetect, Prog.bind_of_ok hcheck]
  unfold tellEngines heardAfterWriting
  rw [Prog.bind_of_ok hdetect, Prog.bind_of_ok hcheck, htopic]
  rcases hnode : inWorld (topicNode env services input) s2 with ⟨nodeResult, s3⟩
  have hs3 := beside_of_eq (beside_inWorld _ _) hs2 hnode
  cases nodeResult with
  | error e =>
      rw [Prog.bind_of_error hnode]
      exact hs3
  | ok node =>
      have hstream : b.engines.hear exp env services
          (EngineCall.stream (StreamCall.turn input.assistantResponse context)) =
            { b.engines with
              stream := StreamCall.step env.text b.engines.stream
                (StreamCall.turn input.assistantResponse context) } := rfl
      rw [Prog.bind_of_ok hnode, List.foldl_cons, List.foldl_cons, List.foldl_nil, hstream]
      rcases recordTrajectoryTurn_spec node hs3 with
        ⟨hnone, hrecord⟩ | ⟨t, s4, hsome, hrecord, hs4⟩
      · rw [Prog.bind_of_error hrecord, hear_turn_none hnone]
        exact hs3
      · rw [Prog.bind_of_ok hrecord, hear_turn_some hsome]
        rcases Part.run_eq_ok hnode with ⟨w, hw, _⟩
        refine ⟨node, t, hs4, ?_, (topicNode_spec hw).1, (topicNode_spec hw).2, hsome, ?_, rfl, rfl⟩
        · exact congrArg (fun b => b.engines.trajectory) hs4
        · exact List.mem_cons_of_mem _ List.mem_cons_self

theorem heardInTurn_of_failed {s s' : Serving F} {e : Stop}
    (h : turnContext env services input s = (Except.error e, s')) :
    heardInTurn env services input s = [] := by
  unfold heardInTurn
  rw [h]

theorem heardInTurn_of_written {s mid : Serving F} {context : List (ScoredMemory F)}
    (h : turnContext env services input s = (Except.ok context, mid)) :
    heardInTurn env services input s = heardAfterWriting env services input context mid := by
  unfold heardInTurn
  rw [h]

variable (exp) in
theorem processTurn_spec (s : Serving F) :
    TurnSpec exp env services input s (processTurn env services input s) := by
  rw [processTurn_eq]
  rcases hserve : serveContext env services input s with ⟨servedResult, s1⟩
  have hs1 := triple_serveContext env services input s.beside s rfl
  rw [hserve] at hs1
  cases servedResult with
  | error e =>
      have hcontext : turnContext env services input s = (Except.error e, s1) :=
        Prog.bind_of_error hserve
      rw [Prog.bind_of_error hserve]
      refine TurnSpec.of_failed hs1 ?_ ?_ rfl rfl
      · rw [heardInTurn_of_failed hcontext]
        rfl
      · unfold trackerAfter
        rw [hserve]
        rfl
  | ok served =>
      rcases hs1 with ⟨hs1, hdelta, hpain⟩
      have htracker : trackerAfter env services input s =
          s.tracker.update served.context.ids := by
        unfold trackerAfter
        rw [hserve]
      rw [Prog.bind_of_ok hserve]
      rcases hwrite : writeTurn env services input s1 with ⟨writtenResult, s2⟩
      have hs2 := beside_of_eq (keeps_writeTurn _) hs1 hwrite
      cases writtenResult with
      | error e =>
          have hcontext : turnContext env services input s = (Except.error e, s2) := by
            unfold turnContext
            rw [Prog.bind_of_ok hserve, Prog.bind_of_error hwrite]
          rw [Prog.bind_of_error hwrite]
          refine TurnSpec.of_failed hs2 ?_ htracker.symm rfl rfl
          rw [heardInTurn_of_failed hcontext]
          rfl
      | ok written =>
          have hcontext : turnContext env services input s =
              (Except.ok served.context.scored, s2) := by
            unfold turnContext
            rw [Prog.bind_of_ok hserve, Prog.bind_of_ok hwrite]
            rfl
          rw [Prog.bind_of_ok hwrite]
          rcases htell : tellEngines env services input served.context.scored s2 with
            ⟨toldResult, s3⟩
          have hs3 := tellEngines_spec exp env services input served.context.scored hs2
          rw [htell, ← heardInTurn_of_written hcontext] at hs3
          cases toldResult with
          | error e =>
              rw [Prog.bind_of_error htell]
              exact TurnSpec.of_failed hs3 rfl htracker.symm rfl rfl
          | ok told =>
              rcases hs3 with ⟨node, t, hs3, ht, hsummary, hquestions, hrecord, hheard, hphantoms,
                hcontradictions⟩
              rw [Prog.bind_of_ok htell]
              rcases hfinish : finishTurn env services input written.actions s3 with
                ⟨finishedResult, s4⟩
              have hs4 := triple_finishTurn env services input written.actions _ s3 hs3
              rw [hfinish] at hs4
              cases finishedResult with
              | error e =>
                  rw [Prog.bind_of_error hfinish]
                  exact TurnSpec.of_failed hs4 rfl htracker.symm rfl rfl
              | ok finished =>
                  rcases hs4 with ⟨hs4, hpredicted, hneeds⟩
                  have hids := triple_serveContext_ids env services input s trivial
                  rw [hserve] at hids
                  have htrajectory : s4.engines.trajectory = t := by
                    rw [← ht]
                    exact (congrArg (fun b => b.engines.trajectory) hs4).trans
                      (congrArg (fun b => b.engines.trajectory) hs3).symm
                  rw [Prog.bind_of_ok hfinish]
                  refine ⟨congrArg Beside.engines hs4, (congrArg Beside.tracker hs4).trans
                    htracker.symm, congrArg Beside.lastEnrichmentTurn hs4,
                    congrArg Beside.enrichmentPending hs4, ?_⟩
                  intro r hr
                  cases hr
                  refine ⟨?_, ?_, hpain, ⟨s2, hcontext, hphantoms⟩, hcontradictions,
                    ⟨node, hsummary, hquestions, ?_, hheard, ?_⟩, hneeds⟩
                  · rw [hids, hdelta]
                    exact ⟨rfl, rfl⟩
                  · rw [hids]
                    exact congrArg Beside.tracker hs4
                  · exact hrecord.trans (congrArg some htrajectory.symm)
                  · exact hpredicted.trans (congrArg (fun b =>
                      b.engines.trajectory.predictNextTopics env.text env.hashOrder) hs4).symm

end Simulation

end Facade
end MenteDb
