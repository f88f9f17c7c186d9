import MenteDb.Core.Types
import MenteDb.Foundation.Tally

/-!
# Resource limits

Writes and deletions are counted, in total and for each agent.  A write is checked against the
limit of the total, the limit of the bytes and the limit of its agent.  Integers of 64 bits wrap
where the code does not saturate, as in a build without overflow checks.
-/

namespace MenteDb
namespace Core

open Foundation

structure ResourceLimits where
  maxMemories : Option Nat
  maxMemoryBytes : Option UInt64
  maxMemoriesPerAgent : Option Nat

structure ResourceTracker where
  limits : ResourceLimits
  currentMemoryCount : UInt64
  currentBytes : UInt64
  agentCounts : Assoc AgentId UInt64

/-- {lit}`a.saturating_sub(b)`. -/
def saturatingSub (a b : UInt64) : UInt64 := if b <= a then a - b else 0

/-- {lit}`a.min(b)`. -/
def lesser (a b : UInt64) : UInt64 := if a <= b then a else b

namespace ResourceTracker

def new (limits : ResourceLimits) : ResourceTracker where
  limits := limits
  currentMemoryCount := 0
  currentBytes := 0
  agentCounts := Assoc.empty

def agentCount (t : ResourceTracker) (agentId : AgentId) : UInt64 :=
  (t.agentCounts.find? agentId).getD 0

def checkTotal (t : ResourceTracker) : Except MenteError Unit :=
  match t.limits.maxMemories with
  | none => Except.ok ()
  | some max =>
      if max <= t.currentMemoryCount.toNat then
        Except.error (MenteError.resourceExhausted
          ("memory limit reached: " ++ toString t.currentMemoryCount ++ "/" ++ toString max))
      else Except.ok ()

def checkBytes (t : ResourceTracker) (estimatedBytes : UInt64) : Except MenteError Unit :=
  match t.limits.maxMemoryBytes with
  | none => Except.ok ()
  | some maxBytes =>
      if maxBytes < t.currentBytes + estimatedBytes then
        Except.error (MenteError.resourceExhausted
          ("byte limit would be exceeded: " ++ toString t.currentBytes ++ " + "
            ++ toString estimatedBytes ++ " > " ++ toString maxBytes))
      else Except.ok ()

def checkAgent (t : ResourceTracker) (agentId : AgentId) : Except MenteError Unit :=
  match t.limits.maxMemoriesPerAgent with
  | none => Except.ok ()
  | some perAgent =>
      if perAgent <= (t.agentCount agentId).toNat then
        Except.error (MenteError.resourceExhausted
          ("per-agent limit reached for " ++ uuidText agentId.uuid ++ ": "
            ++ toString (t.agentCount agentId) ++ "/" ++ toString perAgent))
      else Except.ok ()

def checkCanWrite (t : ResourceTracker) (agentId : AgentId) (estimatedBytes : UInt64) :
    Except MenteError Unit := do
  t.checkTotal
  t.checkBytes estimatedBytes
  t.checkAgent agentId

def recordWrite (t : ResourceTracker) (agentId : AgentId) (bytes : UInt64) : ResourceTracker :=
  { t with
    currentMemoryCount := t.currentMemoryCount + 1
    currentBytes := t.currentBytes + bytes
    agentCounts := t.agentCounts.upsert agentId (fun count => count.getD 0 + 1) }

def recordDelete (t : ResourceTracker) (agentId : AgentId) (bytes : UInt64) : ResourceTracker :=
  { t with
    currentMemoryCount := t.currentMemoryCount - lesser 1 t.currentMemoryCount
    currentBytes := t.currentBytes - lesser bytes t.currentBytes
    agentCounts := t.agentCounts.update (fun agent _ => decide (agent = agentId))
      (fun _ count => saturatingSub count 1) }

end ResourceTracker

inductive ResourceCall where
  | recordWrite (agentId : AgentId) (bytes : UInt64)
  | recordDelete (agentId : AgentId) (bytes : UInt64)

def ResourceCall.step (t : ResourceTracker) : ResourceCall -> ResourceTracker
  | recordWrite agentId bytes => t.recordWrite agentId bytes
  | recordDelete agentId bytes => t.recordDelete agentId bytes

namespace ResourceTracker

def runCalls (limits : ResourceLimits) (calls : List ResourceCall) : ResourceTracker :=
  calls.foldl ResourceCall.step (new limits)

/-- The total is the sum of the counts of the agents. -/
def Consistent (t : ResourceTracker) : Prop :=
  t.currentMemoryCount.toNat = t.agentCounts.sumOf UInt64.toNat

/-- A write does not overflow the total, unless it overflows its agent's count as well; a deletion
is for an agent with memories, unless there are none at all. -/
def InStep (t : ResourceTracker) : ResourceCall -> Prop
  | ResourceCall.recordWrite agentId _ =>
      t.currentMemoryCount.toNat + 1 < 2 ^ 64 ∨ (t.agentCount agentId).toNat + 1 = 2 ^ 64
  | ResourceCall.recordDelete agentId _ =>
      0 < (t.agentCount agentId).toNat ∨ t.currentMemoryCount.toNat = 0

/-- The memories of the other agents. -/
def others (t : ResourceTracker) (agentId : AgentId) : Nat :=
  (t.agentCounts.erase agentId).sumOf UInt64.toNat

theorem sumOf_agentCounts (t : ResourceTracker) (agentId : AgentId) :
    t.agentCounts.sumOf UInt64.toNat = t.others agentId + (t.agentCount agentId).toNat := by
  unfold others agentCount
  cases hfind : t.agentCounts.find? agentId with
  | none => exact Assoc.sumOf_of_not_contains UInt64.toNat hfind
  | some count => exact Assoc.sumOf_of_find? UInt64.toNat hfind

theorem toNat_saturatingSub_one (a : UInt64) : (saturatingSub a 1).toNat = a.toNat - 1 := by
  unfold saturatingSub
  split
  · rename_i hle
    exact UInt64.toNat_sub_of_le a 1 hle
  · rename_i hlt
    have hzero : a.toNat < 1 := UInt64.lt_iff_toNat_lt.mp (UInt64.not_le.mp hlt)
    show 0 = a.toNat - 1
    omega

theorem sub_lesser_one (a : UInt64) : a - lesser 1 a = saturatingSub a 1 := by
  unfold lesser saturatingSub
  by_cases h : (1 : UInt64) <= a
  · rw [if_pos h, if_pos h]
  · rw [if_neg h, if_neg h, UInt64.sub_self]

theorem others_recordWrite (t : ResourceTracker) (agentId : AgentId) (bytes : UInt64) :
    (t.recordWrite agentId bytes).agentCounts.sumOf UInt64.toNat =
      t.others agentId + (t.agentCount agentId + 1).toNat :=
  Assoc.sumOf_upsert UInt64.toNat t.agentCounts agentId (fun count => count.getD 0 + 1)

theorem others_recordDelete (t : ResourceTracker) (agentId : AgentId) (bytes : UInt64) :
    (t.recordDelete agentId bytes).agentCounts.sumOf UInt64.toNat =
      t.others agentId + ((t.agentCount agentId).toNat - 1) := by
  have hothers : (t.recordDelete agentId bytes).others agentId = t.others agentId := by
    unfold others
    apply Assoc.sumOf_congr
    intro agent
    unfold recordDelete
    rw [Assoc.find?_erase, Assoc.find?_erase, Assoc.find?_update]
    by_cases h : agent = agentId
    · rw [if_pos h, if_pos h]
    · rw [if_neg h, if_neg h]
      simp [h]
  have hcount : ((t.recordDelete agentId bytes).agentCount agentId).toNat =
      (t.agentCount agentId).toNat - 1 := by
    unfold agentCount recordDelete
    rw [Assoc.find?_update]
    cases t.agentCounts.find? agentId with
    | none => rfl
    | some count =>
        rw [Option.map_some, if_pos (by simp), Option.getD_some, Option.getD_some,
          toNat_saturatingSub_one]
  rw [sumOf_agentCounts _ agentId, hothers, hcount]

/-- A call keeps the counts together exactly if it is in step. -/
theorem consistent_step_iff {t : ResourceTracker} (h : t.Consistent) (call : ResourceCall) :
    (call.step t).Consistent <-> t.InStep call := by
  unfold Consistent at h
  cases call with
  | recordWrite agentId bytes =>
      rw [sumOf_agentCounts t agentId] at h
      have htotal := t.currentMemoryCount.toNat_lt
      show (t.currentMemoryCount + 1).toNat =
        (t.recordWrite agentId bytes).agentCounts.sumOf UInt64.toNat <-> _ ∨ _
      rw [others_recordWrite, UInt64.toNat_add, UInt64.toNat_add]
      show (t.currentMemoryCount.toNat + 1) % 2 ^ 64 =
        t.others agentId + ((t.agentCount agentId).toNat + 1) % 2 ^ 64 <-> _
      omega
  | recordDelete agentId bytes =>
      rw [sumOf_agentCounts t agentId] at h
      show (t.currentMemoryCount - lesser 1 t.currentMemoryCount).toNat =
        (t.recordDelete agentId bytes).agentCounts.sumOf UInt64.toNat <-> _ ∨ _
      rw [others_recordDelete, sub_lesser_one, toNat_saturatingSub_one]
      omega

theorem runCalls_append_singleton (limits : ResourceLimits) (past : List ResourceCall)
    (call : ResourceCall) :
    runCalls limits (past ++ [call]) = call.step (runCalls limits past) := by
  unfold runCalls
  rw [List.foldl_append]
  rfl

/-- In a run the total is the sum of the counts in every state if and only if every call of the
run is in step. -/
theorem consistent_throughout_iff (limits : ResourceLimits) (calls : List ResourceCall) :
    (forall past, past <+: calls -> (runCalls limits past).Consistent) <->
      forall past call, past ++ [call] <+: calls -> (runCalls limits past).InStep call := by
  constructor
  · intro h past call hpast
    have hbefore := h past ((List.prefix_append past [call]).trans hpast)
    have hafter := h (past ++ [call]) hpast
    rw [runCalls_append_singleton] at hafter
    exact (consistent_step_iff hbefore call).mp hafter
  · intro h past
    induction past using List.reverseRecOn with
    | nil => exact fun _ => rfl
    | append_singleton past call ih =>
        intro hpast
        have hbefore := ih ((List.prefix_append past [call]).trans hpast)
        rw [runCalls_append_singleton]
        exact (consistent_step_iff hbefore call).mpr (h past call hpast)

/-- An agent writes its one memory and another deletes one that it does not have. -/
def foreignDeletion : ResourceTracker :=
  runCalls { maxMemories := some 1, maxMemoryBytes := none, maxMemoriesPerAgent := none }
    [ResourceCall.recordWrite ⟨1⟩ 50, ResourceCall.recordDelete ⟨2⟩ 50]

/-- The memory is no longer counted in the total, and a write is let through that is one too
many. -/
theorem not_consistent_throughout :
    foreignDeletion.currentMemoryCount = 0 ∧ foreignDeletion.agentCount ⟨1⟩ = 1 ∧
      ¬ foreignDeletion.Consistent ∧ foreignDeletion.checkCanWrite ⟨1⟩ 50 = Except.ok () := by
  refine ⟨rfl, rfl, ?_, rfl⟩
  intro h
  have hcounts : (0 : Nat) = 1 := h
  cases hcounts

end ResourceTracker

end Core
end MenteDb
