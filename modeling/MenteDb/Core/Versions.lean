import Mathlib.Data.List.TakeWhile
import MenteDb.Core.Types
import MenteDb.Foundation.Assoc

/-!
# Versions

Writes of memories are numbered and kept, each memory with its own history, so that a memory can
be read as it was at some time.
-/

namespace MenteDb
namespace Core

open Foundation

structure Version where
  versionId : UInt64
  memoryId : MemoryId
  agentId : AgentId
  timestamp : Timestamp
  dataHash : UInt64
deriving DecidableEq, Repr

structure VersionStore where
  versions : Assoc MemoryId (List Version)
  nextVersion : UInt64

/-- A write and the time on the clock. -/
structure VersionedWrite where
  memoryId : MemoryId
  agentId : AgentId
  dataHash : UInt64
  now : Timestamp
deriving DecidableEq, Repr

namespace VersionStore

def new : VersionStore where
  versions := Assoc.empty
  nextVersion := 1

/-- The number of the version goes around after {lit}`2^64` writes. -/
def recordWrite (s : VersionStore) (w : VersionedWrite) : UInt64 × VersionStore :=
  let version : Version :=
    { versionId := s.nextVersion
      memoryId := w.memoryId
      agentId := w.agentId
      timestamp := w.now
      dataHash := w.dataHash }
  (s.nextVersion,
    { versions := s.versions.upsert w.memoryId (fun old => old.getD [] ++ [version])
      nextVersion := s.nextVersion + 1 })

def getLatest (s : VersionStore) (id : MemoryId) : Option Version :=
  (s.versions.find? id).bind List.getLast?

def getHistory (s : VersionStore) (id : MemoryId) : List Version :=
  (s.versions.find? id).getD []

def getVersionAt (s : VersionStore) (id : MemoryId) (t : Timestamp) : Option Version :=
  (s.versions.find? id).bind (fun versions =>
    versions.reverse.find? (fun v => decide (v.timestamp <= t)))

def run (writes : List VersionedWrite) : VersionStore :=
  writes.foldl (fun s w => (s.recordWrite w).2) new

/-!
## Histories
-/

def versionOf (w : VersionedWrite) (n : Nat) : Version where
  versionId := UInt64.ofNat n
  memoryId := w.memoryId
  agentId := w.agentId
  timestamp := w.now
  dataHash := w.dataHash

/-- The versions of a memory among the first writes. -/
def historyOf (writes : List VersionedWrite) (id : MemoryId) : List Version :=
  ((writes.zipIdx 1).filter (fun w => decide (w.1.memoryId = id))).map
    (fun w => versionOf w.1 w.2)

theorem run_append_singleton (past : List VersionedWrite) (w : VersionedWrite) :
    run (past ++ [w]) = ((run past).recordWrite w).2 := by
  unfold run
  rw [List.foldl_append]
  rfl

theorem nextVersion_run (writes : List VersionedWrite) :
    (run writes).nextVersion = UInt64.ofNat (writes.length + 1) := by
  induction writes using List.reverseRecOn with
  | nil => rfl
  | append_singleton past w ih =>
      rw [run_append_singleton, List.length_append, List.length_singleton]
      show (run past).nextVersion + 1 = _
      rw [ih]
      exact (UInt64.ofNat_add _ _).symm

theorem historyOf_append_singleton (past : List VersionedWrite) (w : VersionedWrite)
    (id : MemoryId) :
    historyOf (past ++ [w]) id = historyOf past id ++
      if w.memoryId = id then [versionOf w (past.length + 1)] else [] := by
  unfold historyOf
  rw [List.zipIdx_append, List.filter_append, List.map_append, List.zipIdx_singleton,
    List.filter_cons, List.filter_nil, Nat.add_comm 1]
  congr 1
  by_cases h : w.memoryId = id
  · rw [if_pos h, if_pos (decide_eq_true h)]
    rfl
  · rw [if_neg h, if_neg (fun htrue => h (of_decide_eq_true htrue))]
    rfl

theorem find?_recordWrite (s : VersionStore) (w : VersionedWrite) (id : MemoryId) :
    (s.recordWrite w).2.versions.find? id =
      if id = w.memoryId then
        some ((s.versions.find? w.memoryId).getD [] ++ [versionOf w s.nextVersion.toNat])
      else s.versions.find? id := by
  unfold recordWrite versionOf
  rw [Assoc.find?_upsert, UInt64.ofNat_toNat]

theorem versionOf_congr (w : VersionedWrite) (n : Nat) :
    versionOf w (UInt64.ofNat n).toNat = versionOf w n := by
  unfold versionOf
  rw [UInt64.ofNat_toNat]

/-- A memory without writes has no entry. -/
theorem find?_run (writes : List VersionedWrite) (id : MemoryId) :
    (run writes).versions.find? id =
      if historyOf writes id = [] then none else some (historyOf writes id) := by
  induction writes using List.reverseRecOn with
  | nil => rfl
  | append_singleton past w ih =>
      rw [run_append_singleton, find?_recordWrite, historyOf_append_singleton, nextVersion_run,
        versionOf_congr]
      by_cases h : id = w.memoryId
      · rw [← h, if_pos rfl, if_pos rfl, ih, if_neg (List.append_ne_nil_of_right_ne_nil _
          (List.cons_ne_nil _ _))]
        congr 2
        split
        · rename_i hnil
          rw [hnil]
          rfl
        · rfl
      · rw [if_neg h, if_neg (fun heq : w.memoryId = id => h heq.symm), List.append_nil, ih]

theorem getHistory_run (writes : List VersionedWrite) (id : MemoryId) :
    (run writes).getHistory id = historyOf writes id := by
  unfold getHistory
  rw [find?_run]
  split
  · rename_i h
    rw [h]
    rfl
  · rfl

theorem getLatest_run (writes : List VersionedWrite) (id : MemoryId) :
    (run writes).getLatest id = (historyOf writes id).getLast? := by
  unfold getLatest
  rw [find?_run]
  split
  · rename_i h
    rw [h]
    rfl
  · rfl

theorem getVersionAt_run (writes : List VersionedWrite) (id : MemoryId) (t : Timestamp) :
    (run writes).getVersionAt id t =
      ((historyOf writes id).filter (fun v => decide (v.timestamp <= t))).getLast? := by
  unfold getVersionAt
  rw [find?_run]
  split
  · rename_i h
    rw [h]
    rfl
  · exact List.getLast?_filter.symm

/-- The versions up to some time, in an order of writes in which the clock does not go back. -/
theorem filter_historyOf {writes : List VersionedWrite}
    (hclock : writes.Pairwise (fun a b => a.now <= b.now)) (id : MemoryId) (t : Timestamp) :
    (historyOf writes id).filter (fun v => decide (v.timestamp <= t)) =
      historyOf (writes.takeWhile (fun w => decide (w.now <= t))) id := by
  induction writes using List.reverseRecOn with
  | nil => rfl
  | append_singleton past w ih =>
      rw [List.pairwise_append] at hclock
      rw [historyOf_append_singleton, List.filter_append, ih hclock.1]
      by_cases ht : w.now <= t
      · -- everything before is as old
        have hall : forall x, x ∈ past -> decide (x.now <= t) = true := fun x hx =>
          decide_eq_true (UInt64.le_trans (hclock.2.2 x hx w (List.mem_singleton_self w)) ht)
        have hpast : past.takeWhile (fun w => decide (w.now <= t)) = past :=
          List.takeWhile_eq_self_iff.mpr hall
        have hone : [w].takeWhile (fun w => decide (w.now <= t)) = [w] :=
          List.takeWhile_cons_of_pos (decide_eq_true ht)
        rw [List.takeWhile_append_of_pos hall, hpast, hone, historyOf_append_singleton]
        congr 1
        rw [List.filter_eq_self]
        intro v hv
        split at hv
        · rw [List.mem_singleton.mp hv]
          exact decide_eq_true ht
        · cases hv
      · have hnone : (if w.memoryId = id then [versionOf w (past.length + 1)] else []).filter
            (fun v => decide (v.timestamp <= t)) = [] := by
          rw [List.filter_eq_nil_iff]
          intro v hv htrue
          split at hv
          · rw [List.mem_singleton.mp hv] at htrue
            exact ht (of_decide_eq_true htrue)
          · cases hv
        rw [hnone, List.append_nil]
        congr 1
        rw [List.takeWhile_append]
        split
        · rename_i hlength
          have hzero : [w].takeWhile (fun w => decide (w.now <= t)) = [] :=
            List.takeWhile_cons_of_neg (fun htrue => ht (of_decide_eq_true htrue))
          rw [hzero, List.append_nil]
          exact (List.takeWhile_prefix _).eq_of_length hlength
        · rfl

theorem historyOf_append (past later : List VersionedWrite) (id : MemoryId) :
    exists more, historyOf (past ++ later) id = historyOf past id ++ more ∧
      forall v, v ∈ more -> exists w, w ∈ later ∧ v.timestamp = w.now := by
  unfold historyOf
  rw [List.zipIdx_append, List.filter_append, List.map_append]
  refine ⟨_, rfl, ?_⟩
  intro v hv
  rcases List.mem_map.mp hv with ⟨x, hx, rfl⟩
  exact ⟨x.1, List.fst_mem_of_mem_zipIdx (List.mem_filter.mp hx).1, rfl⟩

/-- The history of a memory is its writes, each with the number it has among all writes.  Writes
after some time do not change what is read as of that time; if the clock never goes back, this is
what was the latest version before the first of them. -/
theorem versions_as_of (writes : List VersionedWrite) (id : MemoryId) (t : Timestamp) :
    (run writes).getHistory id = historyOf writes id ∧
      (run writes).getLatest id = (historyOf writes id).getLast? ∧
      (forall later, (forall w, w ∈ later -> t < w.now) ->
        (run (writes ++ later)).getVersionAt id t = (run writes).getVersionAt id t) ∧
      (writes.Pairwise (fun a b => a.now <= b.now) ->
        (run writes).getVersionAt id t =
          (run (writes.takeWhile (fun w => decide (w.now <= t)))).getLatest id) := by
  refine ⟨getHistory_run writes id, getLatest_run writes id, ?_, ?_⟩
  · intro later hlater
    rcases historyOf_append writes later id with ⟨more, hmore, htimes⟩
    have hnone : more.filter (fun v => decide (v.timestamp <= t)) = [] := by
      rw [List.filter_eq_nil_iff]
      intro v hv htrue
      rcases htimes v hv with ⟨w, hw, heq⟩
      rw [heq] at htrue
      exact UInt64.not_le.mpr (hlater w hw) (of_decide_eq_true htrue)
    rw [getVersionAt_run, getVersionAt_run, hmore, List.filter_append, hnone, List.append_nil]
  · intro hclock
    rw [getVersionAt_run, getLatest_run, filter_historyOf hclock]

def twoWrites : List VersionedWrite :=
  [{ memoryId := ⟨1⟩, agentId := ⟨7⟩, dataHash := 111, now := 10 },
    { memoryId := ⟨1⟩, agentId := ⟨7⟩, dataHash := 222, now := 20 }]

theorem versions_as_of_twice :
    (run twoWrites).getVersionAt ⟨1⟩ 15 = (run (twoWrites.take 1)).getLatest ⟨1⟩ ∧
      (run (twoWrites.take 1 ++ twoWrites.drop 1)).getVersionAt ⟨1⟩ 15 =
        (run (twoWrites.take 1)).getVersionAt ⟨1⟩ 15 :=
  ⟨(versions_as_of twoWrites ⟨1⟩ 15).2.2.2 (by decide),
    (versions_as_of (twoWrites.take 1) ⟨1⟩ 15).2.2.1 (twoWrites.drop 1) (by decide)⟩

end VersionStore

end Core
end MenteDb
