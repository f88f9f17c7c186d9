import MenteDb.Facade.Archiving

/-!
# Archival evaluation switched off

The switch is asked where a batch of loaded memories is evaluated, not where all
memories are.  A sleep run without archival evaluation therefore changes nothing on
account of a decision, while the pass of a turn and the archive policy go on as if it
were on.
-/

namespace MenteDb
namespace Facade

open Foundation
open Sqlite
open Consolidation

variable {F : Type}

/-- Every memory reads as before. -/
def MemoriesKept (w w' : World F) : Prop :=
  forall id, w'.tables.getMemory id = w.tables.getMemory id

theorem memoriesKept_of_tables {w w' : World F} (h : w'.tables = w.tables) : MemoriesKept w w' := by
  intro id
  rw [h]

theorem ignoresTicks_memoriesKept (w : World F) : IgnoresTicks (MemoriesKept w) :=
  fun _ _ _ hw => hw

section Stages

variable [Scalar F] {env : Env F} {w : World F}

/-- The archival stage of a sleep run, on what the run loads. -/
def sleepArchival (env : Env F) (config : SleepMaintenanceConfig F) : Op F Unit := do
  let loaded ← Prog.gets (fun w => loadSleepMaintenanceMemories w.tables config.maxMemories)
  whenOn config.evaluateArchival (evaluateSleepArchival env loaded config)

/-- With the switch off everything loaded is kept. -/
theorem memoriesKept_sleepArchival (hoff : env.config.archivalEvaluation = false)
    (config : SleepMaintenanceConfig F) (w : World F) :
    MemoriesKept w (sleepArchival env config w).2 := by
  have hkeep : Prog.Keeps (MemoriesKept w) (sleepArchival env config) := by
    apply Prog.Keeps.bind (Prog.keeps_gets _)
    intro loaded
    apply keeps_whenOn
    unfold evaluateSleepArchival evaluateArchivalBatch
    rw [hoff]
    apply Prog.Triple.bind (Q := fun decisions w' => MemoriesKept w w' ∧
      forall d, d ∈ decisions -> d.2 = ArchivalDecision.keep)
    · intro w' hw'
      refine ⟨hw', ?_⟩
      intro d hd
      rcases List.mem_map.mp hd with ⟨m, _, heq⟩
      rw [← heq]
    · intro decisions w' hw'
      refine Prog.Keeps.forEach ?_ w' hw'.1
      intro d hd
      rw [hw'.2 d hd]
      exact Prog.keeps_pure ()
  exact hkeep.state (fun _ => rfl)

/-!
## The pass of a turn
-/

/-- Without a memory to archive or delete the pass does nothing. -/
theorem memoriesKept_turnArchival
    (hkept : forall id, ¬ Decided env w id ArchivalDecision.delete ∧
      ¬ Decided env w id ArchivalDecision.archive) : MemoriesKept w (turnArchival env w).2 := by
  refine Prog.Triple.state (P := fun w' => w' = w) ?_ rfl
  apply Prog.Triple.bind (Q := fun decisions w' => MemoriesKept w w' ∧
    forall d, d ∈ decisions -> Decided env w d.1 d.2)
  · intro w' hw'
    rw [hw']
    exact ⟨fun _ => rfl, fun d hd => decided_evaluateBatch (fun _ hm => hm) hd⟩
  · intro decisions w' hw'
    refine Prog.Keeps.forEach ?_ w' hw'.1
    intro d hd
    have hdecided := hw'.2 d hd
    apply Prog.triple_ite
    · rintro (hdelete | harchive)
      · exact absurd (hdelete ▸ hdecided) (hkept d.1).1
      · exact absurd (harchive ▸ hdecided) (hkept d.1).2
    · intro _
      exact Prog.keeps_pure ()

/-- With nothing to mark the policy writes nothing. -/
theorem memoriesKept_applyArchivePolicyGlobal
    (hkept : forall id node, w.tables.getMemory id = some node -> memoryIsArchived node = false ->
      evaluate node (env.clock w.ticks) ≠ ArchivalDecision.archive ∧
        evaluate node (env.clock w.ticks) ≠ ArchivalDecision.delete) :
    MemoriesKept w (applyArchivePolicyGlobal env w).2 := by
  have hnone : archiveUpdates (env.clock w.ticks) w.tables.allMemories = [] := by
    apply List.filterMap_eq_nil_iff.mpr
    intro node hnode
    split
    · rfl
    · rename_i hunmarked
      have hgiven := hkept node.id node (Tables.mem_allMemories hnode)
        (Bool.not_eq_true _ ▸ hunmarked)
      split
      · rename_i harchive
        exact absurd harchive hgiven.1
      · rename_i hdelete
        exact absurd hdelete hgiven.2
      · rfl
      · rfl
  have hread : applyArchivePolicyGlobal env w =
      writeLifecycle env (archiveUpdates (env.clock w.ticks) w.tables.allMemories)
        { w with ticks := w.ticks + 1 } := rfl
  rw [hread, hnone]
  have hkeep : Prog.Keeps (MemoriesKept w) (writeLifecycle env []) := by
    apply Prog.Keeps.bind (Prog.keeps_gets _)
    intro dim
    apply Prog.Keeps.bind
    · apply keeps_transact (ignoresTicks_memoriesKept w)
      intro v t hv hrun
      cases hrun
      exact hv
    · intro _
      exact Prog.keeps_pure _
  exact hkeep.state (fun _ => rfl)

end Stages

/-!
## Runs
-/

section Runs

variable [Scalar F]

/-- The state the archival pass of a turn leaves. -/
def turnArchived (env : Env F) (turnId : UInt64) (w : World F) : World F :=
  if turnId = 0 then w
  else (everyTurns turnId 100 (turnArchival env) (turnEvaluation env turnId w)).2

/-- The state the archival stage of a sleep run leaves. -/
def sleepArchived (env : Env F) (config : SleepMaintenanceConfig F) (w : World F) : World F :=
  (sleepArchival env config (sleepEvaluation env config w)).2

omit [Scalar F] in
theorem succeeds_everyTurns {turnId : UInt64} {period : Nat} {pass : Op F Unit}
    (h : Prog.Succeeds pass) : Prog.Succeeds (everyTurns turnId period pass) := by
  unfold everyTurns
  split
  · exact h
  · exact Prog.succeeds_pure ()

theorem succeeds_turnArchival (env : Env F) : Prog.Succeeds (turnArchival env) := by
  apply Prog.Succeeds.bind
  · exact fun w => ⟨_, _, rfl⟩
  · intro decisions
    apply Prog.Succeeds.forEach
    intro d
    split
    · exact Prog.Succeeds.bind (Prog.succeeds_attempt _) (fun _ => Prog.succeeds_pure ())
    · exact Prog.succeeds_pure ()

/-- The passes of a turn: decay, archival, consolidation. -/
theorem maybeRunMaintenance_stages (env : Env F) {turnId : UInt64} (hturn : turnId ≠ 0)
    (w : World F) :
    maybeRunMaintenance env turnId w =
      everyTurns turnId 200 (turnConsolidation env) (turnArchived env turnId w) := by
  have hdecay : Prog.Succeeds (everyTurns turnId 50 (turnDecay env)) :=
    succeeds_everyTurns (Prog.Succeeds.bind (Prog.succeeds_attempt _)
      (fun _ => Prog.succeeds_pure ()))
  have harchival : Prog.Succeeds (everyTurns turnId 100 (turnArchival env)) :=
    succeeds_everyTurns (succeeds_turnArchival env)
  unfold maybeRunMaintenance turnArchived turnEvaluation
  rw [if_neg hturn, if_neg hturn, if_neg hturn]
  rcases hdecay w with ⟨_, w1, hw1⟩
  rcases harchival w1 with ⟨_, w2, hw2⟩
  rw [Prog.bind_of_ok hw1, Prog.bind_of_ok hw2, hw1, hw2]

/-- The stages of a sleep run whose decay goes through and whose archival stage does. -/
theorem runSleepMaintenance_stages (env : Env F) (resolve : String -> Option String)
    (config : SleepMaintenanceConfig F) {w : World F}
    (hdecay : whenOn config.applyDecay
      (applySleepDecay env config.maxMemories config.decayWriteEpsilon) w =
        (Except.ok (), sleepEvaluation env config w))
    (harchival : sleepArchival env config (sleepEvaluation env config w) =
      (Except.ok (), sleepArchived env config w)) :
    runSleepMaintenance env resolve config w = (do
      whenOn config.runConsolidation (runSleepConsolidation env
        (loadSleepMaintenanceMemories (sleepEvaluation env config w).tables config.maxMemories)
        config)
      whenOn config.linkEntities (linkEntities env resolve)) (sleepArchived env config w) := by
  unfold runSleepMaintenance
  rw [Prog.bind_of_ok hdecay]
  have hloaded : (Prog.gets (fun w => loadSleepMaintenanceMemories w.tables config.maxMemories) :
      Op F (List (MemoryNode F))) (sleepEvaluation env config w) =
        (Except.ok (loadSleepMaintenanceMemories (sleepEvaluation env config w).tables
          config.maxMemories), sleepEvaluation env config w) := rfl
  rw [Prog.bind_of_ok hloaded]
  unfold sleepArchival at harchival
  rw [Prog.bind_of_ok hloaded] at harchival
  exact Prog.bind_of_ok harchival

namespace MaintenanceCall

/-- The call changes no memory on account of an archival decision. -/
def ArchivalInert (env : Env F) (w : World F) : MaintenanceCall F -> Prop
  | turn turnId => MemoriesKept (turnEvaluation env turnId w) (turnArchived env turnId w)
  | sleep _ config => MemoriesKept (sleepEvaluation env config w) (sleepArchived env config w)
  | archivePolicy => MemoriesKept w (applyArchivePolicyGlobal env w).2
  | operate _ => True

/-- Where the switch is not asked there is nothing to archive or delete. -/
def NothingDue (env : Env F) (w : World F) : MaintenanceCall F -> Prop
  | turn turnId =>
      turnId ≠ 0 -> turnId.toNat % 100 = 0 -> forall id,
        ¬ Decided env (turnEvaluation env turnId w) id ArchivalDecision.delete ∧
          ¬ Decided env (turnEvaluation env turnId w) id ArchivalDecision.archive
  | sleep _ _ => True
  | archivePolicy =>
      forall id node, w.tables.getMemory id = some node -> memoryIsArchived node = false ->
        evaluate node (env.clock w.ticks) ≠ ArchivalDecision.archive ∧
          evaluate node (env.clock w.ticks) ≠ ArchivalDecision.delete
  | operate _ => True

theorem NothingDue.inert {env : Env F} (hoff : env.config.archivalEvaluation = false)
    {w : World F} {call : MaintenanceCall F} (h : call.NothingDue env w) :
    call.ArchivalInert env w := by
  cases call with
  | turn turnId =>
      show MemoriesKept (turnEvaluation env turnId w) (turnArchived env turnId w)
      unfold turnArchived
      split
      · rename_i hzero
        unfold turnEvaluation
        rw [if_pos hzero]
        exact memoriesKept_of_tables rfl
      · rename_i hturn
        unfold everyTurns
        split
        · rename_i hperiod
          exact memoriesKept_turnArchival (h hturn hperiod)
        · exact memoriesKept_of_tables rfl
  | sleep resolve config => exact memoriesKept_sleepArchival hoff config _
  | archivePolicy => exact memoriesKept_applyArchivePolicyGlobal h
  | operate op => exact trivial

end MaintenanceCall

/-- With the switch off, a run in which nothing is due where it is not asked changes no
memory on account of an archival decision. -/
theorem archival_inert_of_run {env : Env F} (hoff : env.config.archivalEvaluation = false)
    {w0 w : World F} {calls : List (MaintenanceCall F)}
    (hrun : Run (MaintenanceCall.step env) (MaintenanceCall.NothingDue env) w0 calls w) :
    Run (MaintenanceCall.step env) (MaintenanceCall.ArchivalInert env) w0 calls w :=
  hrun.mono (fun _ _ h => h.inert hoff)

end Runs

section Examples

/-- The example's clock with archival evaluation switched off. -/
def switchedOffEnv : Env Rat :=
  { weeksLaterEnv with
    config := { weeksLaterEnv.config with archivalEvaluation := false } }

theorem archival_inert_of_run_faded :
    switchedOffEnv.config.archivalEvaluation = false ∧
      Decided switchedOffEnv fadedWorld ⟨7⟩ ArchivalDecision.archive ∧
      Run (MaintenanceCall.step switchedOffEnv) (MaintenanceCall.ArchivalInert switchedOffEnv)
        fadedWorld
        [MaintenanceCall.sleep (fun _ => none) SleepMaintenanceConfig.default,
          MaintenanceCall.turn 150]
        ([MaintenanceCall.sleep (fun _ => none) SleepMaintenanceConfig.default,
          MaintenanceCall.turn 150].foldl (MaintenanceCall.step switchedOffEnv) fadedWorld) := by
  refine ⟨rfl, decided_of_map (by decide +kernel), archival_inert_of_run rfl ?_⟩
  have h0 : Run (MaintenanceCall.step switchedOffEnv)
      (MaintenanceCall.NothingDue switchedOffEnv) fadedWorld [] fadedWorld := Run.nil _
  have h1 := h0.snoc
    (i := MaintenanceCall.sleep (fun _ => none) SleepMaintenanceConfig.default) trivial
  exact h1.snoc (i := MaintenanceCall.turn 150) (fun _ hperiod => absurd hperiod (by decide))

/-- The switch is off, and the memory is deleted at turn 100 and marked by the policy. -/
theorem switched_off_archives :
    switchedOffEnv.config.archivalEvaluation = false ∧
      ¬ (MaintenanceCall.turn 100).ArchivalInert switchedOffEnv fadedWorld ∧
      ¬ MaintenanceCall.archivePolicy.ArchivalInert switchedOffEnv fadedWorld := by
  refine ⟨rfl, ?_, ?_⟩
  · intro hinert
    have hbefore : ((turnEvaluation switchedOffEnv 100 fadedWorld).tables.getMemory ⟨7⟩).isSome =
        true := by decide +kernel
    have hafter : ((turnArchived switchedOffEnv 100 fadedWorld).tables.getMemory ⟨7⟩).isSome =
        false := by decide +kernel
    rw [hinert ⟨7⟩, hbefore] at hafter
    cases hafter
  · intro hinert
    have hbefore : (fadedWorld.tables.getMemory ⟨7⟩).map MemoryNode.tags = some [] := by
      decide +kernel
    have hafter : ((applyArchivePolicyGlobal switchedOffEnv fadedWorld).2.tables.getMemory
        ⟨7⟩).map MemoryNode.tags = some ["archived"] := by decide +kernel
    rw [hinert ⟨7⟩, hbefore] at hafter
    cases hafter

end Examples

end Facade
end MenteDb
