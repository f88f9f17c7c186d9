import MenteDb.Facade.Maintenance
import MenteDb.Facade.Recall

/-!
# Archiving is not deleting

The archival pipeline decides for each memory whether to keep, archive or delete
it.  Only a decision to delete should make a memory disappear.  A sleep run and
the archive policy follow that; the archival pass of a turn forgets what it was
told to archive.
-/

namespace MenteDb
namespace Facade

open Foundation
open Sqlite
open MenteDb.Graph
open Cognitive
open Consolidation

variable {F : Type}

/-!
## Stored memories
-/

def Stored (id : MemoryId) (w : World F) : Prop := (w.tables.memories.find? id).isSome = true

theorem Stored.getMemory {id : MemoryId} {w : World F} (h : Stored id w) :
    exists node, w.tables.getMemory id = some node := by
  rcases Option.isSome_iff_exists.mp h with ⟨row, hrow⟩
  unfold Tables.getMemory
  rw [hrow]
  exact ⟨_, rfl⟩

theorem stored_of_getMemory {id : MemoryId} {w : World F} {node : MemoryNode F}
    (h : w.tables.getMemory id = some node) : Stored id w := by
  rcases Option.map_eq_some_iff.mp h with ⟨row, hrow, _⟩
  unfold Stored
  rw [hrow]
  rfl

/-- Asking with these tags finds the memory whenever it is valid. -/
def FoundWith (tags : Option (List String)) (t : Tables F) (id : MemoryId) : Prop :=
  exists node, t.getMemory id = some node ∧ memoryMatchesTags node tags false = true ∧
    forall at_, node.isValidAt at_ = true ->
      currentlyVisible t { at_ := at_, tags := tags, tagsOr := false, timeRange := none } id = true

/-- The memory is found by asking for archived memories, or without asking as long as
it is not archived. -/
def Retrievable (t : Tables F) (id : MemoryId) : Prop :=
  FoundWith (some ["archived"]) t id ∨ FoundWith none t id

section Stored

variable [Scalar F] {env : Env F} {id : MemoryId} {w : World F}

omit [Scalar F] in
theorem foundWith_archived {t : Tables F} {node : MemoryNode F}
    (hget : t.getMemory id = some node) (harchived : memoryIsArchived node = true) :
    FoundWith (some ["archived"]) t id := by
  have htag : "archived" ∈ node.tags := of_decide_eq_true harchived
  refine ⟨node, hget, ?_, ?_⟩
  · simp [memoryMatchesTags, htag]
  · intro at_ hvalid
    unfold currentlyVisible
    rw [hget]
    simp [hvalid, archivedRequested]

omit [Scalar F] in
theorem Stored.retrievable (h : Stored id w) : Retrievable w.tables id := by
  rcases h.getMemory with ⟨node, hget⟩
  cases harchived : memoryIsArchived node with
  | true => exact Or.inl (foundWith_archived hget harchived)
  | false =>
      refine Or.inr ⟨node, hget, rfl, ?_⟩
      intro at_ hvalid
      unfold currentlyVisible
      rw [hget]
      simp [hvalid, harchived]

theorem writeClosed_stored (id : MemoryId) : WriteClosed env (Stored id : World F -> Prop) where
  views w w' _ hmemories _ _ _ hw := by
    unfold Stored
    rw [hmemories]
    exact hw
  storeOn w t node dim hw hrun := by
    unfold Stored at hw ⊢
    rw [Tables.storeMemoryOn_find? hrun]
    split
    · rfl
    · exact hw
  register w j hw := hw
  relate edge := by
    apply Prog.Keeps.bind
    · apply keeps_transact (fun _ _ _ hw => hw)
      intro w t hw hrun
      cases hrun
      exact hw
    · intro _
      exact keeps_onGraph (fun _ _ hw => hw)

/-- Forgetting one memory leaves the others. -/
theorem keeps_forget_stored {j : MemoryId} (hne : id ≠ j) :
    Prog.Keeps (Stored id) (forget env j) := by
  have hpolicy : Prog.Keeps (Stored id)
      (applyForgetPolicy env (ForgetScope.memory j) ForgetMode.hard) := by
    intro w hw
    rcases applyForgetPolicy_cases env (ForgetScope.memory j) ForgetMode.hard w with
      ⟨e, hfail⟩ | ⟨t, hrun, hdone⟩
    · rw [hfail]
      exact hw
    · rw [hdone]
      have hbetween := Between.hardForgetOn w.tables _ w.tables t (Between.refl _ _) hrun
      have hkept : ¬ Deleted w.tables (buildForgetPlan w.tables (ForgetScope.memory j))
          (RowRef.memory id) := by
        intro hdel
        cases hdel with
        | memory hid _ =>
            rw [mem_buildForgetPlan_memoryIds] at hid
            exact hne (List.mem_singleton.mp hid)
      show (t.memories.find? id).isSome = true
      rw [(hbetween.memories id).eq_of_not hkept not_false]
      exact hw
  exact Prog.Keeps.bind hpolicy (fun _ => Prog.keeps_pure ())

end Stored

/-!
## Decisions
-/

section Decisions

variable [Scalar F] {env : Env F} {id : MemoryId} {w : World F}

/-- The pipeline's decision for a stored memory, in a state and at its instant. -/
def Decided (env : Env F) (w : World F) (id : MemoryId) (decision : ArchivalDecision) : Prop :=
  exists node, w.tables.getMemory id = some node ∧ evaluate node (env.clock w.ticks) = decision

theorem decided_evaluateBatch {memories : List (MemoryNode F)} {d : MemoryId × ArchivalDecision}
    (hsub : forall m, m ∈ memories -> m ∈ w.tables.allMemories)
    (h : d ∈ evaluateBatch memories (env.clock w.ticks)) : Decided env w d.1 d.2 := by
  rcases List.mem_map.mp h with ⟨m, hm, hd⟩
  rw [← hd]
  exact ⟨m, Tables.mem_allMemories (hsub m hm), rfl⟩

/-- The archival pass of a turn forgets what is to be archived or deleted, no more. -/
theorem stored_turnArchival (hstored : Stored id w)
    (hkept : ¬ Decided env w id ArchivalDecision.delete ∧
      ¬ Decided env w id ArchivalDecision.archive) : Stored id (turnArchival env w).2 := by
  refine Prog.Triple.state (P := fun w' => w' = w) ?_ rfl
  apply Prog.Triple.bind (Q := fun decisions w' => Stored id w' ∧
    forall d, d ∈ decisions -> Decided env w d.1 d.2)
  · intro w' hw'
    rw [hw']
    exact ⟨hstored, fun d hd => decided_evaluateBatch (fun _ hm => hm) hd⟩
  · intro decisions w' hw'
    refine Prog.Keeps.forEach ?_ w' hw'.1
    intro d hd
    apply Prog.triple_ite
    · intro hforget
      have hne : id ≠ d.1 := by
        intro heq
        have hdecided := hw'.2 d hd
        rw [← heq] at hdecided
        rcases hforget with hdelete | harchive
        · rw [hdelete] at hdecided
          exact hkept.1 hdecided
        · rw [harchive] at hdecided
          exact hkept.2 hdecided
      exact Prog.Keeps.bind (keeps_forget_stored hne).attempt (fun _ => Prog.keeps_pure ())
    · intro _
      exact Prog.keeps_pure ()

/-- The archival stage of a sleep run forgets what is to be deleted, no more. -/
theorem stored_evaluateSleepArchival {loaded : List (MemoryNode F)}
    (hloaded : forall m, m ∈ loaded -> m ∈ w.tables.allMemories) (hstored : Stored id w)
    (hkept : ¬ Decided env w id ArchivalDecision.delete) (config : SleepMaintenanceConfig F) :
    Stored id (evaluateSleepArchival env loaded config w).2 := by
  refine Prog.Triple.state (P := fun w' => w' = w) ?_ rfl
  apply Prog.Triple.bind (Q := fun decisions w' => Stored id w' ∧
    forall d, d ∈ decisions -> d.2 = ArchivalDecision.delete -> Decided env w d.1 d.2)
  · apply Prog.triple_ite
    · intro _ w' hw'
      rw [hw']
      exact ⟨hstored, fun d hd _ => decided_evaluateBatch hloaded hd⟩
    · intro _ w' hw'
      rw [hw']
      refine ⟨hstored, ?_⟩
      intro d hd hdelete
      rcases List.mem_map.mp hd with ⟨m, _, heq⟩
      rw [← heq] at hdelete
      cases hdelete
  · intro decisions w' hw'
    refine Prog.Keeps.forEach ?_ w' hw'.1
    intro d hd
    cases hdecision : d.2 with
    | keep => exact Prog.keeps_pure ()
    | archive => exact Prog.keeps_pure ()
    | consolidate memories => exact Prog.keeps_pure ()
    | delete =>
        have hne : id ≠ d.1 := by
          intro heq
          have hdecided := hw'.2 d hd hdecision
          rw [← heq, hdecision] at hdecided
          exact hkept hdecided
        exact Prog.triple_ite (fun _ => keeps_forget_stored hne) (fun _ => Prog.keeps_pure ())

/-!
## The paths
-/

/-- The state in which the archival pass of a turn evaluates the memories. -/
def turnEvaluation (env : Env F) (turnId : UInt64) (w : World F) : World F :=
  if turnId = 0 then w else (everyTurns turnId 50 (turnDecay env) w).2

/-- The state in which a sleep run evaluates the memories. -/
def sleepEvaluation (env : Env F) (config : SleepMaintenanceConfig F) (w : World F) : World F :=
  (whenOn config.applyDecay
    (applySleepDecay env config.maxMemories config.decayWriteEpsilon) w).2

theorem stored_turnEvaluation {turnId : UInt64} (hstored : Stored id w) :
    Stored id (turnEvaluation env turnId w) := by
  unfold turnEvaluation
  split
  · exact hstored
  · exact (keeps_everyTurns turnId 50 (writeClosed_stored id).keeps_turnDecay).state hstored

theorem stored_sleepEvaluation {config : SleepMaintenanceConfig F} (hstored : Stored id w) :
    Stored id (sleepEvaluation env config w) :=
  (keeps_whenOn config.applyDecay ((writeClosed_stored id).keeps_applySleepDecay _ _)).state
    hstored

theorem stored_maybeRunMaintenance {turnId : UInt64}
    (hevaluation : Stored id (turnEvaluation env turnId w))
    (hkept : turnId ≠ 0 -> turnId.toNat % 100 = 0 ->
      ¬ Decided env (turnEvaluation env turnId w) id ArchivalDecision.delete ∧
        ¬ Decided env (turnEvaluation env turnId w) id ArchivalDecision.archive) :
    Stored id (maybeRunMaintenance env turnId w).2 := by
  have hwrites : WriteClosed env (Stored id : World F -> Prop) := writeClosed_stored id
  by_cases hturn : turnId = 0
  · unfold maybeRunMaintenance
    unfold turnEvaluation at hevaluation
    rw [if_pos hturn] at hevaluation ⊢
    exact hevaluation
  have hdecay : turnEvaluation env turnId w = (everyTurns turnId 50 (turnDecay env) w).2 :=
    if_neg hturn
  have harchival : Stored id
      (everyTurns turnId 100 (turnArchival env) (turnEvaluation env turnId w)).2 := by
    unfold everyTurns
    split
    · rename_i hperiod
      exact stored_turnArchival hevaluation (hkept hturn hperiod)
    · exact hevaluation
  unfold maybeRunMaintenance
  rw [if_neg hturn]
  refine Prog.Triple.state (P := fun w' => w' = w) ?_ rfl
  apply Prog.Triple.bind (Q := fun _ w' => w' = turnEvaluation env turnId w)
  · rw [hdecay] at hevaluation ⊢
    exact Prog.triple_of_state rfl hevaluation
  intro _
  apply Prog.Triple.bind (Q := fun _ => Stored id)
  · exact Prog.triple_of_state harchival harchival
  intro _
  exact keeps_everyTurns turnId 200 hwrites.keeps_turnConsolidation

theorem stored_runSleepMaintenance {resolve : String -> Option String}
    {config : SleepMaintenanceConfig F} (hevaluation : Stored id (sleepEvaluation env config w))
    (hkept : ¬ Decided env (sleepEvaluation env config w) id ArchivalDecision.delete) :
    Stored id (runSleepMaintenance env resolve config w).2 := by
  have hwrites : WriteClosed env (Stored id : World F -> Prop) := writeClosed_stored id
  refine Prog.Triple.state (P := fun w' => w' = w) ?_ rfl
  apply Prog.Triple.bind (Q := fun _ w' => w' = sleepEvaluation env config w)
  · exact Prog.triple_of_state rfl hevaluation
  intro _
  apply Prog.Triple.bind (Q := fun loaded w' => w' = sleepEvaluation env config w ∧
    forall m, m ∈ loaded -> m ∈ (sleepEvaluation env config w).tables.allMemories)
  · apply Prog.triple_gets
    intro w' hw'
    rw [hw']
    refine ⟨rfl, ?_⟩
    intro m hm
    exact mem_orderBy.mp (List.mem_of_mem_take hm)
  intro loaded w' hw'
  rw [hw'.1]
  have harchival : Stored id (whenOn config.evaluateArchival
      (evaluateSleepArchival env loaded config) (sleepEvaluation env config w)).2 := by
    unfold whenOn
    split
    · exact stored_evaluateSleepArchival hw'.2 hevaluation hkept config
    · exact hevaluation
  have hrest : Prog.Triple (fun w' => w' = sleepEvaluation env config w) (do
      whenOn config.evaluateArchival (evaluateSleepArchival env loaded config)
      whenOn config.runConsolidation (runSleepConsolidation env loaded config)
      whenOn config.linkEntities (linkEntities env resolve)) (fun _ => Stored id)
      (Stored id) := by
    apply Prog.Triple.bind (Q := fun _ => Stored id)
    · exact Prog.triple_of_state harchival harchival
    intro _
    apply Prog.Keeps.bind (keeps_whenOn _ (hwrites.keeps_runSleepConsolidation loaded config))
    intro _
    exact keeps_whenOn _ (hwrites.keeps_linkEntities resolve)
  exact hrest _ rfl

/-!
### The archive policy
-/

/-- The memory is stored and carries the archive tag. -/
def Archived (id : MemoryId) (t : Tables F) : Prop :=
  exists node, t.getMemory id = some node ∧ memoryIsArchived node = true

theorem archived_archiveUpdates {now : Timestamp} {nodes : List (MemoryNode F)}
    {u : MemoryNode F} (h : u ∈ archiveUpdates now nodes) : memoryIsArchived u = true := by
  rcases List.mem_filterMap.mp h with ⟨node, _, hu⟩
  split at hu
  · cases hu
  · split at hu
    · cases hu
      simp [memoryIsArchived]
    · cases hu
      simp [memoryIsArchived]
    · cases hu
    · cases hu

/-- Storing an archived memory archives it, and no other memory is touched. -/
theorem archived_storeMemoryOn {t t' : Tables F} {u : MemoryNode F} {dim : Nat}
    (hu : memoryIsArchived u = true) (hrun : Tables.storeMemoryOn u dim t = Except.ok t') :
    (u.id = id -> Archived id t') ∧ (Archived id t -> Archived id t') := by
  have hself : u.id = id -> Archived id t' := by
    intro heq
    have hfind := Tables.storeMemoryOn_find? hrun id
    rw [if_pos heq.symm] at hfind
    unfold Archived Tables.getMemory
    rw [hfind]
    refine ⟨_, rfl, decide_eq_true ?_⟩
    have htag : t'.memoryTags.contains (id, "archived") = true := by
      rw [Tables.storeMemoryOn_tags hrun, heq]
      simpa using of_decide_eq_true hu
    exact Tables.mem_tagsOf.mpr htag
  refine ⟨hself, ?_⟩
  intro harchived
  by_cases heq : u.id = id
  · exact hself heq
  · rcases harchived with ⟨node, hget, htag⟩
    refine ⟨node, ?_, htag⟩
    rw [← hget]
    apply Tables.getMemory_congr
    · rw [Tables.storeMemoryOn_find? hrun, if_neg (fun h => heq h.symm)]
    · intro tag
      rw [Tables.storeMemoryOn_tags hrun]
      simp [Ne.symm heq]

theorem archived_applyLifecyclePolicy {updates : List (MemoryNode F)} {dim : Nat}
    (harchived : forall u, u ∈ updates -> memoryIsArchived u = true) {t t' : Tables F}
    (h : Archived id t ∨ exists u, u ∈ updates ∧ u.id = id)
    (hrun : Tables.applyLifecyclePolicy dim updates t = Except.ok t') : Archived id t' := by
  have hkeep : forall u, u ∈ updates ->
      Atomic.Keeps (Archived id) (Tables.storeMemoryOn u dim : Tx F) :=
    fun u hu _ _ ht hstep => (archived_storeMemoryOn (harchived u hu) hstep).2 ht
  rcases h with hbefore | ⟨u, hu, hid⟩
  · exact Atomic.Keeps.forEach hkeep t t' hbefore hrun
  · refine Atomic.forEach_establishes (K := fun _ => True) hu (fun _ _ _ _ _ _ => trivial) hkeep
      ?_ trivial hrun
    intro s s' _ hstep
    exact (archived_storeMemoryOn (harchived u hu) hstep).1 hid

/-- After the policy has run, what was to be archived is found by asking for it. -/
theorem foundWith_applyArchivePolicyGlobal {ids : List MemoryId}
    (hok : (applyArchivePolicyGlobal env w).1 = Except.ok ids)
    (hdecided : Decided env w id ArchivalDecision.archive) :
    FoundWith (some ["archived"]) (applyArchivePolicyGlobal env w).2.tables id := by
  rcases hdecided with ⟨node, hget, hdecision⟩
  have hstart : Archived id w.tables ∨
      exists u, u ∈ archiveUpdates (env.clock w.ticks) w.tables.allMemories ∧ u.id = id := by
    cases harchived : memoryIsArchived node with
    | true => exact Or.inl ⟨node, hget, harchived⟩
    | false =>
        let archived : MemoryNode F :=
          { node with
            tags := node.tags ++ ["archived"]
            salience := min node.salience (ratio 2 100) }
        have hid : node.id = id := Tables.getMemory_id hget
        refine Or.inr ⟨archived, List.mem_filterMap.mpr
          ⟨node, Tables.mem_allMemories_of_getMemory hget, ?_⟩, hid⟩
        simp [harchived, hdecision, archived]
  have htriple : Prog.Triple (fun w' => w' = w) (applyArchivePolicyGlobal env)
      (fun _ w' => Archived id w'.tables) (fun _ => True) := by
    intro w' hw'
    rw [hw']
    have hread : applyArchivePolicyGlobal env w = (do
        transact env (Tables.applyLifecyclePolicy w.embeddingDim
          (archiveUpdates (env.clock w.ticks) w.tables.allMemories))
        pure ((archiveUpdates (env.clock w.ticks) w.tables.allMemories).map MemoryNode.id))
        { w with ticks := w.ticks + 1 } := rfl
    rw [hread]
    refine Prog.Triple.bind (P := fun v => v.tables = w.tables)
      (Q := fun _ v => Archived id v.tables) ?_ (fun _ v hv => hv) _ rfl
    apply Prog.Triple.weaken (triple_transact (I := fun v => v.tables = w.tables)
      (Q := fun v => Archived id v.tables) (fun _ _ _ hv => hv) ?_) (fun _ hv => hv)
      (fun _ _ hv => hv) (fun _ _ => trivial)
    intro v t hv hrun
    rw [hv] at hrun
    exact archived_applyLifecyclePolicy (fun _ => archived_archiveUpdates) hstart hrun
  have hdone := htriple w rfl
  rw [show applyArchivePolicyGlobal env w =
    (Except.ok ids, (applyArchivePolicyGlobal env w).2) from Prod.ext hok rfl] at hdone
  rcases hdone with ⟨archived, hfound, htag⟩
  exact foundWith_archived hfound htag

/-!
## Runs
-/

/-- A maintenance path removes only what it was told to delete, and what it was told to
archive stays and is found.  The decisions are those of the state {lit}`w1`. -/
structure RespectsDecisions (env : Env F) (w1 w w' : World F) : Prop where
  deleted : forall id, Stored id w -> ¬ Stored id w' -> Decided env w1 id ArchivalDecision.delete
  archived : forall id, Decided env w1 id ArchivalDecision.archive ->
    Stored id w' ∧ Retrievable w'.tables id

theorem Decided.stored {decision : ArchivalDecision} (h : Decided env w id decision) :
    Stored id w := by
  rcases h with ⟨node, hget, _⟩
  exact stored_of_getMemory hget

/-- There is one decision for a memory. -/
theorem Decided.unique {d d' : ArchivalDecision} (h : Decided env w id d)
    (h' : Decided env w id d') : d = d' := by
  rcases h with ⟨node, hget, hd⟩
  rcases h' with ⟨node', hget', hd'⟩
  rw [hget] at hget'
  cases hget'
  rw [← hd, ← hd']

/-- It is enough that whatever was not to be deleted is still stored. -/
theorem respectsDecisions_of_stored {w1 w' : World F}
    (hbefore : forall id, Stored id w -> Stored id w1)
    (hafter : forall id, Stored id w1 -> ¬ Decided env w1 id ArchivalDecision.delete ->
      Stored id w') : RespectsDecisions env w1 w w' where
  deleted id hstored hgone := by
    by_contra hdelete
    exact hgone (hafter id (hbefore id hstored) hdelete)
  archived id harchive := by
    have hstored : Stored id w' := by
      apply hafter id harchive.stored
      intro hdelete
      cases harchive.unique hdelete
    exact ⟨hstored, hstored.retrievable⟩

theorem archivePolicy_respects : RespectsDecisions env w w (applyArchivePolicyGlobal env w).2 :=
  respectsDecisions_of_stored (fun _ h => h)
    (fun id h _ => (writeClosed_stored id).keeps_applyArchivePolicyGlobal.state h)

theorem sleep_respects {resolve : String -> Option String} {config : SleepMaintenanceConfig F} :
    RespectsDecisions env (sleepEvaluation env config w) w
      (runSleepMaintenance env resolve config w).2 :=
  respectsDecisions_of_stored (fun _ h => stored_sleepEvaluation h)
    (fun _ h hdelete => stored_runSleepMaintenance h hdelete)

theorem turn_respects {turnId : UInt64}
    (hguard : turnId ≠ 0 -> turnId.toNat % 100 = 0 -> forall id,
      ¬ Decided env (turnEvaluation env turnId w) id ArchivalDecision.archive) :
    RespectsDecisions env (turnEvaluation env turnId w) w (maybeRunMaintenance env turnId w).2 :=
  respectsDecisions_of_stored (fun _ h => stored_turnEvaluation h)
    (fun id h hdelete => stored_maybeRunMaintenance h
      (fun hturn hperiod => ⟨hdelete, hguard hturn hperiod id⟩))

end Decisions

/-- A call of a maintenance path, or any other operation. -/
inductive MaintenanceCall (F : Type) where
  | turn (turnId : UInt64)
  | sleep (resolve : String -> Option String) (config : SleepMaintenanceConfig F)
  | archivePolicy
  | operate (op : Op F Unit)

namespace MaintenanceCall

variable [Scalar F]

def step (env : Env F) (w : World F) : MaintenanceCall F -> World F
  | turn turnId => (maybeRunMaintenance env turnId w).2
  | sleep resolve config => (runSleepMaintenance env resolve config w).2
  | archivePolicy => (applyArchivePolicyGlobal env w).2
  | operate op => (op w).2

/-- The call treats each memory as the pipeline decided. -/
def Respects (env : Env F) (w : World F) : MaintenanceCall F -> Prop
  | turn turnId =>
      RespectsDecisions env (turnEvaluation env turnId w) w (maybeRunMaintenance env turnId w).2
  | sleep resolve config =>
      RespectsDecisions env (sleepEvaluation env config w) w
        (runSleepMaintenance env resolve config w).2
  | archivePolicy =>
      RespectsDecisions env w w (applyArchivePolicyGlobal env w).2 ∧
        forall ids, (applyArchivePolicyGlobal env w).1 = Except.ok ids ->
          forall id, Decided env w id ArchivalDecision.archive ->
            FoundWith (some ["archived"]) (applyArchivePolicyGlobal env w).2.tables id
  | operate _ => True

/-- A turn whose archival pass is due finds nothing to archive. -/
def NothingToArchive (env : Env F) (w : World F) : MaintenanceCall F -> Prop
  | turn turnId =>
      turnId ≠ 0 -> turnId.toNat % 100 = 0 -> forall id,
        ¬ Decided env (turnEvaluation env turnId w) id ArchivalDecision.archive
  | sleep _ _ => True
  | archivePolicy => True
  | operate _ => True

theorem NothingToArchive.respects {env : Env F} {w : World F} {call : MaintenanceCall F}
    (h : call.NothingToArchive env w) : call.Respects env w := by
  cases call with
  | turn turnId => exact turn_respects h
  | sleep resolve config => exact sleep_respects
  | archivePolicy =>
      refine ⟨archivePolicy_respects, ?_⟩
      intro ids hok id harchive
      exact foundWith_applyArchivePolicyGlobal hok harchive
  | operate op => exact trivial

end MaintenanceCall

/-- In a run whose archival turns find nothing to archive, every maintenance path treats
every memory as decided. -/
theorem archiving_keeps_of_run [Scalar F] {env : Env F} {w0 w : World F}
    {calls : List (MaintenanceCall F)}
    (hrun : Run (MaintenanceCall.step env) (MaintenanceCall.NothingToArchive env) w0 calls w) :
    Run (MaintenanceCall.step env) (MaintenanceCall.Respects env) w0 calls w :=
  hrun.mono (fun _ _ h => h.respects)

section Examples

/-- Two half-lives after the memory of the example was accessed. -/
def weeksLaterEnv : Env Rat :=
  { calmEnv CognitiveConfig.default with clock := fun _ => 1209600001000 }

def fadedMemory : MemoryNode Rat :=
  { MemoryNode.new ⟨7⟩ 1000 AgentId.nil MemoryType.semantic "Turin" [3, 4] with
    salience := 8 / 100 }

def fadedWorld : World Rat := (store weeksLaterEnv fadedMemory emptyWorld).2

theorem decided_of_map {env : Env Rat} {w : World Rat} {id : MemoryId} {d : ArchivalDecision}
    (h : (w.tables.getMemory id).map (fun m => evaluate m (env.clock w.ticks)) = some d) :
    Decided env w id d := by
  rcases Option.map_eq_some_iff.mp h with ⟨node, hget, hd⟩
  exact ⟨node, hget, hd⟩

theorem archiving_keeps_of_run_faded :
    Decided weeksLaterEnv fadedWorld ⟨7⟩ ArchivalDecision.archive ∧
      Run (MaintenanceCall.step weeksLaterEnv) (MaintenanceCall.Respects weeksLaterEnv) fadedWorld
        [MaintenanceCall.sleep (fun _ => none) SleepMaintenanceConfig.default,
          MaintenanceCall.turn 150, MaintenanceCall.archivePolicy]
        ([MaintenanceCall.sleep (fun _ => none) SleepMaintenanceConfig.default,
          MaintenanceCall.turn 150, MaintenanceCall.archivePolicy].foldl
          (MaintenanceCall.step weeksLaterEnv) fadedWorld) := by
  refine ⟨decided_of_map (by decide +kernel), archiving_keeps_of_run ?_⟩
  have h0 : Run (MaintenanceCall.step weeksLaterEnv)
      (MaintenanceCall.NothingToArchive weeksLaterEnv) fadedWorld [] fadedWorld := Run.nil _
  have h1 := h0.snoc
    (i := MaintenanceCall.sleep (fun _ => none) SleepMaintenanceConfig.default) trivial
  have h2 := h1.snoc (i := MaintenanceCall.turn 150) (fun _ hperiod => absurd hperiod (by decide))
  exact h2.snoc (i := MaintenanceCall.archivePolicy) trivial

/-- At turn 100 the memory is to be archived, and it is deleted. -/
theorem archived_in_turn_is_deleted :
    Decided weeksLaterEnv (turnEvaluation weeksLaterEnv 100 fadedWorld) ⟨7⟩
        ArchivalDecision.archive ∧
      Stored ⟨7⟩ fadedWorld ∧ ¬ Stored ⟨7⟩ (maybeRunMaintenance weeksLaterEnv 100 fadedWorld).2 ∧
      ¬ (MaintenanceCall.turn 100).Respects weeksLaterEnv fadedWorld := by
  have hdecided : Decided weeksLaterEnv (turnEvaluation weeksLaterEnv 100 fadedWorld) ⟨7⟩
      ArchivalDecision.archive := decided_of_map (by decide +kernel)
  have hgone : ¬ Stored ⟨7⟩ (maybeRunMaintenance weeksLaterEnv 100 fadedWorld).2 := by
    unfold Stored
    decide +kernel
  refine ⟨hdecided, ?_, hgone, ?_⟩
  · unfold Stored
    decide +kernel
  · intro hrespects
    exact hgone (hrespects.archived ⟨7⟩ hdecided).1

end Examples

end Facade
end MenteDb
