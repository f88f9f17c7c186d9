import MenteDb.Facade.Validity

/-!
# Soft-forgotten memories stay hidden

A soft forget closes the validity of a memory.  Later operations may rewrite the
whole row, but each of them either carries the end of validity over or sets it
to a clock reading it made itself.  As long as the clock does not go back, the
memory is not valid at the current instant.
-/

namespace MenteDb
namespace Facade

open Foundation
open Sqlite

variable {F : Type}

def NondecreasingClock (env : Env F) : Prop :=
  forall a b, a <= b -> env.clock a <= env.clock b

/-- The window has ended by the current reading of the clock. -/
def EndedByNow (env : Env F) (n : Nat) (x : Window) : Prop := x.EndedBy (env.clock n)

theorem windowLaw_endedByNow {env : Env F} (hclock : NondecreasingClock env) :
    WindowLaw env 0 (EndedByNow env) where
  later a b _ hle hx := hx.mono (hclock a b hle)
  closed k n x _ hlt _ := Window.endedBy_closeAt x (hclock k n (Nat.le_of_lt hlt))

theorem not_recalled_of_endedBy [Scalar F] {env : Env F} {w : World F} {m : MemoryId}
    {embedding : List F} {queryText : Option String} {k : Nat} {at_ : Timestamp}
    {tags : Option (List String)} {tagsOr : Bool} {timeRange : Option (Timestamp × Timestamp)}
    {recalled : List (MemoryId × F)} (h : RowMeets m (Window.EndedBy at_) w.tables)
    (hrecall : recallHybridAtMode env w embedding queryText k at_ tags tagsOr timeRange =
      Except.ok recalled) : m ∉ recalled.map Prod.fst := by
  intro hmem
  rcases List.mem_map.mp hmem with ⟨hit, hhit, heq⟩
  rcases visible_of_mem_recall
    (q := { at_ := at_, tags := tags, tagsOr := tagsOr, timeRange := timeRange })
    hrecall hhit with ⟨_, node, hget, hvalid, _⟩
  have hid : node.id = m := by
    rw [Tables.getMemory_id hget]
    exact heq
  have hinvalid := (h.copyMeets hget hid).not_valid (UInt64.le_refl at_)
  have hsame : (nodeWindow node).isValidAt at_ = node.isValidAt at_ := rfl
  rw [← hsame, hinvalid] at hvalid
  cases hvalid

/-- A memory that is hidden now is not compared with a new one. -/
theorem safeToStore_of_endedByNow [Scalar F] {env : Env F} {m : MemoryId} {n : Nat}
    {node : MemoryNode F} (hnode : node.id ≠ m) :
    SafeToStore env m (EndedByNow env) n node := by
  refine ⟨hnode, Or.inr ?_⟩
  intro w k hrow hmem
  rcases List.mem_map.mp hmem with ⟨candidate, hcandidate, hid⟩
  rcases List.mem_filterMap.mp hcandidate with ⟨hit, hhit, hget⟩
  have hrecalled := List.mem_map_of_mem (f := Prod.fst) (List.mem_of_mem_filter hhit)
  rw [← Tables.getMemory_id hget, hid] at hrecalled
  exact not_recalled_of_endedBy hrow (recallHybridAt_open ..) hrecalled

/-!
## Whole runs
-/

/-- What may happen after a soft forget. -/
inductive LaterCommand (F : Type) where
  | store (node : MemoryNode F)
  | storeBatch (nodes : List (MemoryNode F))
  | relate (edge : MemoryEdge F)
  | applyCorrectionPolicy (request : CorrectionRequest)
  | applyDecayPolicyGlobal
  | applyArchivePolicyGlobal
  | consolidateCluster (memoryIds : List MemoryId)

namespace LaterCommand

def step [Scalar F] (env : Env F) (w : World F) : LaterCommand F -> World F
  | LaterCommand.store node => (Facade.store env node w).2
  | LaterCommand.storeBatch nodes => (Facade.storeBatch env nodes w).2
  | LaterCommand.relate edge => (Facade.relate env edge w).2
  | LaterCommand.applyCorrectionPolicy request => (Facade.applyCorrectionPolicy env request w).2
  | LaterCommand.applyDecayPolicyGlobal => (Facade.applyDecayPolicyGlobal env w).2
  | LaterCommand.applyArchivePolicyGlobal => (Facade.applyArchivePolicyGlobal env w).2
  | LaterCommand.consolidateCluster ids => (Facade.consolidateCluster env ids w).2

/-- Stores are of other memories; a correction may even name this one. -/
def OfOthers (m : MemoryId) (_ : World F) : LaterCommand F -> Prop
  | LaterCommand.store node => node.id ≠ m
  | LaterCommand.storeBatch nodes => forall node, node ∈ nodes -> node.id ≠ m
  | _ => True

theorem step_endedByNow [Scalar F] {env : Env F} {m : MemoryId}
    (hclock : NondecreasingClock env) (hfresh : forall k, env.freshMemoryId k ≠ m)
    {w : World F} {c : LaterCommand F} (hw : Meets m (EndedByNow env) 0 w)
    (hothers : c.OfOthers m w) : Meets m (EndedByNow env) 0 (c.step env w) := by
  have law := windowLaw_endedByNow hclock
  cases c with
  | store node =>
      exact (keeps_store_meets law (Nat.le_refl 0) (safeToStore_of_endedByNow hothers)).state hw
  | storeBatch nodes => exact (keeps_storeBatch_meets law hothers).state hw
  | relate edge => exact (keeps_relate_meets law edge).state hw
  | applyCorrectionPolicy request =>
      exact (keeps_applyCorrectionPolicy_meets law (Nat.le_refl 0) request).state hw
  | applyDecayPolicyGlobal => exact (keeps_applyDecayPolicyGlobal_meets law).state hw
  | applyArchivePolicyGlobal => exact (keeps_applyArchivePolicyGlobal_meets law).state hw
  | consolidateCluster ids =>
      exact (keeps_consolidateCluster_meets law (Nat.le_refl 0) hfresh ids).state hw

end LaterCommand

theorem endedByNow_applyForgetPolicy [Scalar F] {env : Env F} {m : MemoryId}
    (hclock : NondecreasingClock env) {scope : ForgetScope} {w : World F}
    {affected : PolicyAffected}
    (hforget : (applyForgetPolicy env scope ForgetMode.soft w).1 = Except.ok affected)
    (hm : m ∈ affected.memoryIds) :
    Meets m (EndedByNow env) 0 (applyForgetPolicy env scope ForgetMode.soft w).2 := by
  rcases applyForgetPolicy_cases env scope ForgetMode.soft w with ⟨e, hfail⟩ | ⟨t, hrun, hdone⟩
  · rw [hfail] at hforget
    cases hforget
  · rw [hdone] at hforget
    cases hforget
    rw [hdone]
    refine ⟨?_, Nat.zero_le _⟩
    have hended : RowMeets m (Window.EndedBy (env.clock w.ticks)) t :=
      endedBy_softForgetOn hm hrun
    exact hended.mono (fun x hx => hx.mono (hclock _ _ (Nat.le_add_right _ _)))

/-- After a soft forget of a memory, no recall at the current instant returns it,
whatever is done to other memories in between. -/
theorem soft_forgotten_not_recalled [Scalar F] {env : Env F} {m : MemoryId}
    (hclock : NondecreasingClock env) (hfresh : forall k, env.freshMemoryId k ≠ m)
    {scope : ForgetScope} {w0 w : World F} {affected : PolicyAffected}
    (hforget : (applyForgetPolicy env scope ForgetMode.soft w0).1 = Except.ok affected)
    (hm : m ∈ affected.memoryIds) {commands : List (LaterCommand F)}
    (hrun : Run (LaterCommand.step env) (LaterCommand.OfOthers m)
      (applyForgetPolicy env scope ForgetMode.soft w0).2 commands w)
    (embedding : List F) (queryText : Option String) (k : Nat) (tags : Option (List String))
    (tagsOr : Bool) (timeRange : Option (Timestamp × Timestamp))
    {recalled : List (MemoryId × F)}
    (hrecall : recallHybridAtMode env w embedding queryText k (env.clock w.ticks) tags tagsOr
      timeRange = Except.ok recalled) : m ∉ recalled.map Prod.fst := by
  have hended : Meets m (EndedByNow env) 0 w :=
    hrun.invariant (fun _ _ hw hothers => LaterCommand.step_endedByNow hclock hfresh hw hothers)
      (endedByNow_applyForgetPolicy hclock hforget hm)
  exact not_recalled_of_endedBy hended.1 hrecall

section Example

theorem nondecreasingClock_calmEnv (config : CognitiveConfig Rat) :
    NondecreasingClock (calmEnv config) := by
  have hnat : forall n, ((calmEnv config).clock n).toNat = min (1000 + n) (2 ^ 64 - 1) := by
    intro n
    have hlt : min (1000 + n) (2 ^ 64 - 1) < UInt64.size := by
      rw [UInt64.size]
      omega
    exact UInt64.toNat_ofNat_of_lt' hlt
  intro a b hle
  rw [UInt64.le_iff_toNat_le, hnat, hnat]
  omega

theorem freshMemoryId_calmEnv_ne (config : CognitiveConfig Rat) (n : Nat) :
    (calmEnv config).freshMemoryId n ≠ ⟨7⟩ := by
  intro h
  have hnat := congrArg (fun id => id.uuid.toNat) h
  have hvalue : (BitVec.ofNat 128 (1000 + n % 2 ^ 64)).toNat = 1000 + n % 2 ^ 64 := by
    rw [BitVec.toNat_ofNat]
    apply Nat.mod_eq_of_lt
    omega
  have hseven : (BitVec.ofNat 128 (1000 + n % 2 ^ 64)).toNat = 7 := hnat
  omega

def oldPlan : MemoryNode Rat :=
  MemoryNode.new ⟨7⟩ 1000 AgentId.nil MemoryType.semantic "Turin" [3, 4]

def newPlan : MemoryNode Rat :=
  MemoryNode.new ⟨8⟩ 1000 AgentId.nil MemoryType.semantic "Milan" [3, 4]

def plannedWorld : World Rat := (store (calmEnv CognitiveConfig.default) oldPlan emptyWorld).2

/-- The old plan is soft-forgotten, a similar plan is stored, and decay runs. -/
def replannedWorld : World Rat :=
  [LaterCommand.store newPlan, LaterCommand.applyDecayPolicyGlobal].foldl
    (LaterCommand.step (calmEnv CognitiveConfig.default))
    (applyForgetPolicy (calmEnv CognitiveConfig.default) (ForgetScope.memory ⟨7⟩)
      ForgetMode.soft plannedWorld).2

theorem soft_forgotten_not_recalled_replanned :
    exists recalled, recallHybridAtMode (calmEnv CognitiveConfig.default) replannedWorld [3, 4]
        none 5 ((calmEnv CognitiveConfig.default).clock replannedWorld.ticks) none false none =
          Except.ok recalled ∧
      recalled.map Prod.fst = [⟨8⟩] ∧ (⟨7⟩ : MemoryId) ∉ recalled.map Prod.fst := by
  have hhits : (recallHybridAtMode (calmEnv CognitiveConfig.default) replannedWorld [3, 4]
      none 5 ((calmEnv CognitiveConfig.default).clock replannedWorld.ticks) none false none).map
        (List.map Prod.fst) = Except.ok [⟨8⟩] := by decide +kernel
  rcases except_map_ok hhits with ⟨recalled, hrecall, hids⟩
  have hok : (applyForgetPolicy (calmEnv CognitiveConfig.default) (ForgetScope.memory ⟨7⟩)
      ForgetMode.soft plannedWorld).1 =
      Except.ok (buildForgetPlan plannedWorld.tables (ForgetScope.memory ⟨7⟩)) := by
    decide +kernel
  have hmem : (⟨7⟩ : MemoryId) ∈
      (buildForgetPlan plannedWorld.tables (ForgetScope.memory ⟨7⟩)).memoryIds := by
    decide +kernel
  have hrun : Run (LaterCommand.step (calmEnv CognitiveConfig.default))
      (LaterCommand.OfOthers ⟨7⟩)
      (applyForgetPolicy (calmEnv CognitiveConfig.default) (ForgetScope.memory ⟨7⟩)
        ForgetMode.soft plannedWorld).2
      [LaterCommand.store newPlan, LaterCommand.applyDecayPolicyGlobal] replannedWorld := by
    have hother : forall w, LaterCommand.OfOthers ⟨7⟩ w (LaterCommand.store newPlan) := by
      intro w
      unfold LaterCommand.OfOthers
      decide
    exact ((Run.nil _).snoc (i := LaterCommand.store newPlan) (hother _)).snoc
      (i := LaterCommand.applyDecayPolicyGlobal) trivial
  exact ⟨recalled, hrecall, hids, soft_forgotten_not_recalled
    (nondecreasingClock_calmEnv CognitiveConfig.default)
    (freshMemoryId_calmEnv_ne CognitiveConfig.default) hok hmem hrun [3, 4] none 5 none false
    none hrecall⟩

end Example

end Facade
end MenteDb
