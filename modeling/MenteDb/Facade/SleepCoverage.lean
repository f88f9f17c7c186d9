import MenteDb.Facade.Maintenance

/-!
# What sleep maintenance loads

A sleep run sorts the stored memories by id and loads as many as its budget allows.
Nothing is carried from one run to the next, so as long as no memory is stored or
deleted every run loads the same ones: those with the smallest ids.
-/

namespace MenteDb
namespace Facade

open Foundation
open Sqlite
open MenteDb.Graph
open Cognitive
open Consolidation

variable {F : Type}

/-!
## The smallest ids
-/

/-- The ids of the memories a run with this budget loads. -/
def smallestIds (t : Tables F) (maxMemories : Nat) : List MemoryId :=
  (orderBy idLe t.allMemoryIds).take maxMemories

theorem ids_loadSleepMaintenanceMemories (t : Tables F) (maxMemories : Nat) :
    (loadSleepMaintenanceMemories t maxMemories).map MemoryNode.id =
      smallestIds t maxMemories := by
  unfold loadSleepMaintenanceMemories smallestIds orderBy
  rw [List.map_take, ← Tables.map_id_allMemories]
  congr 1
  exact List.map_insertionSort _ _ _ _ (fun _ _ _ _ => Iff.rfl)

/-- Tables with the same memories have the same ids in order. -/
theorem orderBy_ids_congr {t t' : Tables F}
    (h : forall id, t'.memories.contains id = t.memories.contains id) :
    orderBy idLe t'.allMemoryIds = orderBy idLe t.allMemoryIds := by
  have hperm : t'.allMemoryIds.Perm t.allMemoryIds := by
    refine (List.perm_ext_iff_of_nodup t'.memories.rows.nodup t.memories.rows.nodup).mpr ?_
    intro id
    show id ∈ t'.memories.ids <-> id ∈ t.memories.ids
    rw [MemoryTable.mem_ids, MemoryTable.mem_ids, h]
  refine List.Perm.eq_of_pairwise ?_ (ordersBy_idLe.pairwise _) (ordersBy_idLe.pairwise _)
    ((List.perm_insertionSort _ _).trans (hperm.trans (List.perm_insertionSort _ _).symm))
  intro a b _ _ hab hba
  exact uuid_toNat_injective (Nat.le_antisymm hab hba)

theorem smallestIds_congr {t t' : Tables F}
    (h : forall id, t'.memories.contains id = t.memories.contains id) (maxMemories : Nat) :
    smallestIds t' maxMemories = smallestIds t maxMemories := by
  unfold smallestIds
  rw [orderBy_ids_congr h]

/-- The smallest ids are all of them exactly when the budget covers the store. -/
theorem forall_mem_smallestIds_iff (t : Tables F) (maxMemories : Nat) :
    (forall id, id ∈ t.allMemoryIds -> id ∈ smallestIds t maxMemories) <->
      t.allMemoryIds.length <= maxMemories := by
  have hperm : (orderBy idLe t.allMemoryIds).Perm t.allMemoryIds := List.perm_insertionSort _ _
  have hnodup : (orderBy idLe t.allMemoryIds).Nodup :=
    hperm.nodup_iff.mpr t.memories.rows.nodup
  have hlength : (orderBy idLe t.allMemoryIds).length = t.allMemoryIds.length := hperm.length_eq
  constructor
  · intro hall
    have hsub : orderBy idLe t.allMemoryIds ⊆ smallestIds t maxMemories :=
      fun id hid => hall id (hperm.mem_iff.mp hid)
    have hle := (List.subperm_of_subset hnodup hsub).length_le
    rw [hlength] at hle
    exact Nat.le_trans hle (List.length_take_le _ _)
  · intro hbudget id hid
    unfold smallestIds
    rw [List.take_of_length_le (hlength.symm ▸ hbudget)]
    exact hperm.mem_iff.mpr hid

/-!
## Runs
-/

section Runs

variable [Scalar F]

/-- One call, with the answers of the entity resolver at its time. -/
structure SleepCall (F : Type) where
  config : SleepMaintenanceConfig F
  resolve : String -> Option String

def SleepCall.step (env : Env F) (w : World F) (call : SleepCall F) : World F :=
  (runSleepMaintenance env call.resolve call.config w).2

/-- What is loaded once the decay stage has ended without an error. -/
def reloaded (maxMemories : Nat) : Except MenteError Unit × World F -> List (MemoryNode F)
  | (Except.ok _, w) => loadSleepMaintenanceMemories w.tables maxMemories
  | (Except.error _, _) => []

/-- The memories a call loads, before the decay stage and after it. -/
def SleepCall.loads (env : Env F) (w : World F) (call : SleepCall F) : List MemoryId :=
  (loadSleepMaintenanceMemories w.tables call.config.maxMemories ++
    reloaded call.config.maxMemories (whenOn call.config.applyDecay
      (applySleepDecay env call.config.maxMemories call.config.decayWriteEpsilon) w)).map
    MemoryNode.id

/-- What each of a number of consecutive calls loads. -/
def loadsOfCalls (env : Env F) : World F -> List (SleepCall F) -> List (List MemoryId)
  | _, [] => []
  | w, call :: rest => call.loads env w :: loadsOfCalls env (call.step env w) rest

/-- The same memories are stored. -/
def SameIds (w w' : World F) : Prop :=
  forall id, w'.tables.memories.contains id = w.tables.memories.contains id

/-- No call deletes or creates a memory. -/
def KeepStore (env : Env F) : World F -> List (SleepCall F) -> Prop
  | _, [] => True
  | w, call :: rest =>
      SameIds w (call.step env w) ∧ KeepStore env (call.step env w) rest

/-- Decay writes loaded memories back; it stores no new one. -/
theorem sameIds_applySleepDecay (env : Env F) (maxMemories : Nat) (decayWriteEpsilon : F)
    (w : World F) : SameIds w (applySleepDecay env maxMemories decayWriteEpsilon w).2 := by
  have hticks : IgnoresTicks (SameIds w) := fun _ _ _ hw => hw
  have hnow : Prog.Keeps (SameIds w) (currentTimeUs env) := keeps_currentTimeUs hticks
  have hwrites : forall now, Prog.Keeps (SameIds w)
      (Prog.forEach (decayUpdates env.config.decayConfig decayWriteEpsilon now
        (loadSleepMaintenanceMemories w.tables maxMemories)) (dbStoreMemory env)) := by
    intro now
    apply Prog.Keeps.forEach
    intro node hnode
    have hstored : w.tables.memories.contains node.id = true := by
      rcases mem_decayUpdates hnode with ⟨loaded, hloaded, salience, heq⟩
      have hmem := Tables.mem_allMemories (mem_orderBy.mp (List.mem_of_mem_take hloaded))
      rw [heq]
      exact Tables.contains_of_getMemory hmem
    apply Prog.Keeps.bind (Prog.keeps_gets _)
    intro dim
    apply keeps_transact hticks
    intro w' t hw' hrun id
    rw [Tables.contains_storeMemoryOn (Tables.storeMemory_ok hrun), hw' id]
    by_cases hid : id = node.id
    · rw [hid, hstored, Bool.or_true]
    · rw [decide_eq_false hid, Bool.false_or]
  exact (Prog.Keeps.bind hnow hwrites).state (fun _ => rfl)

/-- Both times a call loads the smallest ids. -/
theorem mem_loads_iff (env : Env F) (w : World F) (call : SleepCall F) (id : MemoryId) :
    id ∈ call.loads env w <-> id ∈ smallestIds w.tables call.config.maxMemories := by
  have hstage : SameIds w (whenOn call.config.applyDecay (applySleepDecay env
      call.config.maxMemories call.config.decayWriteEpsilon) w).2 := by
    unfold whenOn
    split
    · exact sameIds_applySleepDecay env _ _ w
    · exact fun _ => rfl
  unfold SleepCall.loads
  rw [List.map_append, List.mem_append, ids_loadSleepMaintenanceMemories]
  refine ⟨?_, Or.inl⟩
  rintro (hfirst | hagain)
  · exact hfirst
  · rcases hrun : whenOn call.config.applyDecay (applySleepDecay env call.config.maxMemories
      call.config.decayWriteEpsilon) w with ⟨result, w'⟩
    rw [hrun] at hagain hstage
    cases result with
    | ok _ =>
        rw [reloaded, ids_loadSleepMaintenanceMemories, smallestIds_congr hstage] at hagain
        exact hagain
    | error e => cases hagain

omit [Scalar F] in
theorem sameIds_of_ids {w w' : World F}
    (h : w'.tables.allMemoryIds = w.tables.allMemoryIds) : SameIds w w' := by
  intro id
  rw [Bool.eq_iff_iff, ← MemoryTable.mem_ids, ← MemoryTable.mem_ids]
  exact iff_of_eq (congrArg (fun ids => id ∈ ids) h)

/-- Every call of a sequence that keeps the store loads what the first one does. -/
theorem mem_loadsOfCalls_iff (env : Env F) {maxMemories : Nat} {calls : List (SleepCall F)}
    (hbudget : forall call, call ∈ calls -> call.config.maxMemories = maxMemories) {w : World F}
    (hkeep : KeepStore env w calls) {ids : List MemoryId} (hids : ids ∈ loadsOfCalls env w calls)
    (id : MemoryId) : id ∈ ids <-> id ∈ smallestIds w.tables maxMemories := by
  induction calls generalizing w with
  | nil => cases hids
  | cons call rest ih =>
      cases List.mem_cons.mp hids with
      | inl hfirst =>
          rw [hfirst, mem_loads_iff, hbudget call List.mem_cons_self]
      | inr hlater =>
          rw [ih (fun c hc => hbudget c (List.mem_cons_of_mem call hc)) hkeep.2 hlater,
            smallestIds_congr hkeep.1]

theorem length_loadsOfCalls (env : Env F) (w : World F) (calls : List (SleepCall F)) :
    (loadsOfCalls env w calls).length = calls.length := by
  induction calls generalizing w with
  | nil => rfl
  | cons call rest ih =>
      rw [loadsOfCalls, List.length_cons, List.length_cons, ih]

/-- Consecutive calls with one budget that neither delete nor create memories all load the
same memories, those with the smallest ids; as many calls as budgets fit into the store
load every memory exactly when one call does. -/
theorem sleep_covers_iff (env : Env F) {maxMemories : Nat} (hpositive : 0 < maxMemories)
    {w : World F} {calls : List (SleepCall F)}
    (hbudget : forall call, call ∈ calls -> call.config.maxMemories = maxMemories)
    (hkeep : KeepStore env w calls)
    (hcount : calls.length =
      (w.tables.allMemoryIds.length + maxMemories - 1) / maxMemories) :
    (forall ids, ids ∈ loadsOfCalls env w calls ->
      forall id, id ∈ ids <-> id ∈ smallestIds w.tables maxMemories) ∧
    ((forall id, id ∈ w.tables.allMemoryIds ->
        exists ids, ids ∈ loadsOfCalls env w calls ∧ id ∈ ids) <->
      w.tables.allMemoryIds.length <= maxMemories) := by
  have hsame := fun ids (hids : ids ∈ loadsOfCalls env w calls) =>
    mem_loadsOfCalls_iff env hbudget hkeep hids
  refine ⟨hsame, ?_⟩
  rw [← forall_mem_smallestIds_iff]
  constructor
  · intro hcovered id hid
    rcases hcovered id hid with ⟨ids, hids, hmem⟩
    exact (hsame ids hids id).mp hmem
  · intro hall id hid
    have hstored : 0 < w.tables.allMemoryIds.length := List.length_pos_of_mem hid
    have hcalls : 0 < (loadsOfCalls env w calls).length := by
      rw [length_loadsOfCalls, hcount]
      exact Nat.div_pos (by omega) hpositive
    have hfirst := List.getElem_mem hcalls
    exact ⟨_, hfirst, (hsame _ hfirst id).mpr (hall id hid)⟩

end Runs

/-!
### Two memories
-/

def pairOfMemories : World Rat :=
  let env := calmEnv CognitiveConfig.default
  let remember := fun id content =>
    store env (MemoryNode.new id 1000 AgentId.nil MemoryType.semantic content [])
  (remember ⟨2⟩ "second" (remember ⟨1⟩ "first" emptyWorld).2).2

def sleepCallOf (maxMemories : Nat) : SleepCall Rat where
  config := { SleepMaintenanceConfig.default with maxMemories := maxMemories }
  resolve := fun _ => none

/-- One call with room for both, and two calls that load the first one each. -/
theorem sleep_covers_iff_pair :
    (forall id, id ∈ pairOfMemories.tables.allMemoryIds ->
      exists ids, ids ∈ loadsOfCalls (calmEnv CognitiveConfig.default) pairOfMemories
        [sleepCallOf 2] ∧ id ∈ ids) ∧
    forall ids, ids ∈ loadsOfCalls (calmEnv CognitiveConfig.default) pairOfMemories
        [sleepCallOf 1, sleepCallOf 1] ->
      forall id, id ∈ ids <-> id ∈ smallestIds pairOfMemories.tables 1 := by
  have hsize : pairOfMemories.tables.allMemoryIds.length = 2 := by decide +kernel
  have hbudget : forall maxMemories call, call = sleepCallOf maxMemories ->
      call.config.maxMemories = maxMemories := by
    intro maxMemories call heq
    rw [heq]
    rfl
  constructor
  · have hcovers := sleep_covers_iff (calmEnv CognitiveConfig.default) (by decide)
      (fun call hcall => hbudget 2 call (List.mem_singleton.mp hcall))
      (w := pairOfMemories) ⟨sameIds_of_ids (by decide +kernel), trivial⟩ (by rw [hsize]; rfl)
    exact hcovers.2.mpr (Nat.le_of_eq hsize)
  · have htwice : forall call, call ∈ [sleepCallOf 1, sleepCallOf 1] -> call = sleepCallOf 1 := by
      intro call hcall
      simpa using hcall
    have hcovers := sleep_covers_iff (calmEnv CognitiveConfig.default) (by decide)
      (fun call hcall => hbudget 1 call (htwice call hcall))
      (w := pairOfMemories) ⟨sameIds_of_ids (by decide +kernel), sameIds_of_ids (by decide +kernel),
        trivial⟩ (by rw [hsize]; rfl)
    exact hcovers.1

/-- Two calls with a budget of one, and the second memory is loaded by neither. -/
theorem sleep_misses_memory :
    pairOfMemories.tables.allMemoryIds.length = 2 ∧ (2 + 1 - 1) / 1 = 2 ∧
      KeepStore (calmEnv CognitiveConfig.default) pairOfMemories [sleepCallOf 1, sleepCallOf 1] ∧
      ¬ forall id, id ∈ pairOfMemories.tables.allMemoryIds ->
        exists ids, ids ∈ loadsOfCalls (calmEnv CognitiveConfig.default) pairOfMemories
          [sleepCallOf 1, sleepCallOf 1] ∧ id ∈ ids := by
  refine ⟨by decide +kernel, rfl, ⟨sameIds_of_ids (by decide +kernel),
    sameIds_of_ids (by decide +kernel), trivial⟩, ?_⟩
  decide +kernel

end Facade
end MenteDb
