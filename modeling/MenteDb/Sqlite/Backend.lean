import MenteDb.Sqlite.Forget
import MenteDb.Sqlite.Artifacts

/-!
# The backend's write operations

Each public write of the backend is one transaction.  The vector dimension the
backend was opened with, or was given later, is a parameter of those that write
embeddings; zero means that no index exists yet.
-/

namespace MenteDb
namespace Sqlite

open Foundation

variable {F : Type}

structure CorrectionPolicyMutation (F : Type) where
  memoryInvalidations : List (MemoryId × Timestamp)
  correctedClaimIds : List String
  correctedRelationshipIds : List String
  edges : List (MemoryEdge F)
  appliedAt : Timestamp

namespace Tables

/-- An embedding the index cannot take. -/
def dimensionMismatch (dim : Nat) (node : MemoryNode F) : Bool :=
  decide (0 < dim) && !node.embedding.isEmpty && decide (node.embedding.length ≠ dim)

def mismatchError (dim : Nat) (node : MemoryNode F) : MenteError :=
  MenteError.embeddingDimensionMismatch node.embedding.length dim

def applyCorrectionPolicy (mutation : CorrectionPolicyMutation F) : Tx F :=
  Atomic.andThen
    (Atomic.forEach mutation.memoryInvalidations (fun m => invalidateMemoryOn m.1 m.2))
    (Atomic.andThen
      (Atomic.forEach mutation.correctedClaimIds
        (fun c => markClaimStatusOn c "corrected" mutation.appliedAt))
      (Atomic.andThen
        (Atomic.forEach mutation.correctedRelationshipIds
          (fun r => markRelationshipStatusOn r "corrected" mutation.appliedAt))
        (Atomic.forEach mutation.edges addEdgeOn)))

/-- Rows with an embedding of the given length, normalized, by rowid. -/
def backfill [Scalar F] (t : Tables F) (dim : Nat) : List (Nat × List F) :=
  t.memories.rows.entries.filterMap (fun e =>
    match e.2.embedding with
    | none => none
    | some v => if v.length = dim then some (e.2.rowid, normalize v) else none)

/-- Create the vector table anew and fill it from the stored embeddings. -/
def ensureVectorIndex [Scalar F] (dim : Nat) : Tx F := fun t =>
  Except.ok { t with
    memoryVec := some { dim := dim, rows := t.backfill dim }
    metaEmbeddingDim := some dim }

section Store

variable [Scalar F]

def storeMemory (dim : Nat) (node : MemoryNode F) : Tx F := fun t =>
  if dimensionMismatch dim node then Except.error (mismatchError dim node)
  else storeMemoryOn node dim t

/-- A memory and where it came from, in one transaction. -/
def storeMemoryWithSource (dim : Nat) (node : MemoryNode F) (source : MemorySource) : Tx F :=
  fun t =>
    if source.2.memoryId ≠ node.id then
      Except.error (MenteError.storage ("memory source " ++ source.1 ++ " points at "
        ++ uuidText source.2.memoryId.uuid ++ ", expected " ++ uuidText node.id.uuid))
    else if dimensionMismatch dim node then Except.error (mismatchError dim node)
    else Atomic.andThen (storeMemoryOn node dim) (insertMemorySourceOn source) t

/-- All dimensions are checked before anything is written. -/
def storeMemoryBatch (dim : Nat) (nodes : List (MemoryNode F)) : Tx F := fun t =>
  match nodes.find? (dimensionMismatch dim) with
  | some node => Except.error (mismatchError dim node)
  | none => Atomic.forEach nodes (fun node => storeMemoryOn node dim) t

def applyLifecyclePolicy (dim : Nat) (memoryUpdates : List (MemoryNode F)) : Tx F :=
  Atomic.forEach memoryUpdates (fun node => storeMemoryOn node dim)

end Store

/-!
## Opening

The stored dimension wins over the one asked for.  The full-text mirror is
rebuilt from the memories it already mirrors.
-/

def effectiveDim (t : Tables F) (hintDim : Nat) : Nat :=
  (t.metaEmbeddingDim.filter (fun d => decide (0 < d))).getD hintDim

def init (t : Tables F) (hintDim : Nat) : Tables F :=
  let dim := t.effectiveDim hintDim
  { t with
    memoryVec :=
      if 0 < dim then some (t.memoryVec.getD { dim := dim, rows := [] }) else t.memoryVec
    metaEmbeddingDim := some dim }

/-!
## Effects on one memory

Lemmas for callers that follow a single memory through a transaction.
-/

section Effects

variable [Scalar F]

theorem storeMemoryOn_find? {t t' : Tables F} {node : MemoryNode F} {dim : Nat}
    (h : storeMemoryOn node dim t = Except.ok t') (id : MemoryId) :
    t'.memories.find? id =
      if id = node.id then
        some (match t.memories.find? node.id with
          | none => { rowOfNode node node.createdAt with rowid := t.memories.nextRowid }
          | some old => { rowOfNode node old.createdAt with rowid := old.rowid })
      else t.memories.find? id := by
  rcases storeMemoryOn_ok h with ⟨v, hv⟩
  rw [hv]
  exact find?_upsertMemoryRow t node id

theorem storeMemoryOn_tags {t t' : Tables F} {node : MemoryNode F} {dim : Nat}
    (h : storeMemoryOn node dim t = Except.ok t') (id : MemoryId) (tag : String) :
    t'.memoryTags.contains (id, tag) = true <->
      (id = node.id ∧ tag ∈ node.tags) ∨
        (id ≠ node.id ∧ t.memoryTags.contains (id, tag) = true) := by
  rcases storeMemoryOn_ok h with ⟨v, hv⟩
  rw [hv]
  exact contains_replaceTags (t.upsertMemoryRow node) node.id node.tags id tag

theorem storeMemoryOn_edges {t t' : Tables F} {node : MemoryNode F} {dim : Nat}
    (h : storeMemoryOn node dim t = Except.ok t') : t'.edges = t.edges := by
  rcases storeMemoryOn_ok h with ⟨v, hv⟩
  rw [hv]
  rfl

theorem contains_storeMemoryOn {t t' : Tables F} {node : MemoryNode F} {dim : Nat}
    (h : storeMemoryOn node dim t = Except.ok t') (id : MemoryId) :
    t'.memories.contains id = (decide (id = node.id) || t.memories.contains id) := by
  rw [MemoryTable.contains_eq, storeMemoryOn_find? h]
  by_cases hid : id = node.id
  · simp [hid]
  · simp [hid, MemoryTable.contains_eq]

theorem storeMemory_ok {t t' : Tables F} {node : MemoryNode F} {dim : Nat}
    (h : storeMemory dim node t = Except.ok t') : storeMemoryOn node dim t = Except.ok t' := by
  unfold storeMemory at h
  split at h
  · cases h
  · exact h

theorem storeMemoryWithSource_ok {t t' : Tables F} {node : MemoryNode F} {source : MemorySource}
    {dim : Nat} (h : storeMemoryWithSource dim node source t = Except.ok t') :
    Atomic.andThen (storeMemoryOn node dim) (insertMemorySourceOn source) t = Except.ok t' := by
  unfold storeMemoryWithSource at h
  split at h
  · cases h
  · split at h
    · cases h
    · exact h

theorem storeMemoryBatch_ok {t t' : Tables F} {nodes : List (MemoryNode F)} {dim : Nat}
    (h : storeMemoryBatch dim nodes t = Except.ok t') :
    Atomic.forEach nodes (fun node => storeMemoryOn node dim) t = Except.ok t' := by
  unfold storeMemoryBatch at h
  split at h
  · cases h
  · exact h

end Effects

end Tables
end Sqlite
end MenteDb
