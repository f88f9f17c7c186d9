import MenteDb.Sqlite.Schema
import MenteDb.Foundation.Prog
import Mathlib.Data.List.Sort

/-!
# Storing and loading memories

A write transaction is a function from tables to tables that may fail; a failed
transaction is rolled back, so its error carries no tables.
-/

namespace MenteDb
namespace Sqlite

open Foundation

variable {F : Type}

/-- A transaction body. -/
abbrev Tx (F : Type) := Atomic (Tables F) MenteError

/-!
## Limits
-/

/-- What the database refuses to prepare: the terms of a compound select and the variables
of a statement are limited. -/
structure Limits where
  compoundSelect : Nat
  variableNumber : Nat
  refusal : String

/-- The limits of a build that sets none. -/
def Limits.default : Limits where
  compoundSelect := 500
  variableNumber := 32766
  refusal := "too many terms in compound SELECT"

/-- The rows of a statement with so many variables. -/
def Limits.query {α : Type} (limits : Limits) (count : Nat) (rows : α) :
    Except MenteError α :=
  if count <= limits.variableNumber then Except.ok rows
  else Except.error (MenteError.storage limits.refusal)

theorem Limits.query_eq_ok {α : Type} {limits : Limits} {n : Nat} {rows answer : α}
    (h : limits.query n rows = Except.ok answer) :
    n <= limits.variableNumber ∧ answer = rows := by
  unfold Limits.query at h
  split at h
  · rename_i hle
    cases h
    exact ⟨hle, rfl⟩
  · cases h

/-!
## Vectors
-/

section Vectors

variable [Arith F]

/-- {lit}`Iterator::sum`, from the first on. -/
def iterSum (xs : List F) : F := xs.foldl (fun sum x => sum + x) 0

def norm (v : List F) : F := Arith.sqrt (iterSum (v.map (fun x => x * x)))

def normalize (v : List F) : List F :=
  if norm v <= 0 then v else v.map (fun x => x / norm v)

/-- Dot product over the common prefix. -/
def dot (a b : List F) : F := iterSum ((a.zip b).map (fun p => p.1 * p.2))

end Vectors

namespace Tables

/-- {lit}`DELETE FROM memory_vec WHERE rowid = ?`; ignored when there is no table. -/
def deleteVec (t : Tables F) (rowid : Nat) : Tables F :=
  { t with memoryVec := t.memoryVec.map (fun v =>
      { v with rows := v.rows.filter (fun r => decide (r.1 ≠ rowid)) }) }

/-- {lit}`INSERT INTO memory_vec`: fails without a table or with another dimension. -/
def insertVec (t : Tables F) (rowid : Nat) (embedding : List F) :
    Except MenteError (Tables F) :=
  match t.memoryVec with
  | none => Except.error (MenteError.storage "no such table: memory_vec")
  | some v =>
      if embedding.length = v.dim then
        Except.ok { t with memoryVec := some { v with rows := v.rows ++ [(rowid, embedding)] } }
      else Except.error (MenteError.storage "Dimension mismatch for inserted vector")

/-!
## Memory rows

The rowid of a new row is chosen by the table; the value written here is a
placeholder.
-/

def rowOfNode (node : MemoryNode F) (createdAt : Timestamp) : MemoryRow F where
  rowid := 0
  agentId := node.agentId
  spaceId := node.spaceId
  memoryType := memoryTypeStr node.memoryType
  content := node.content
  embedding := if node.embedding.isEmpty then none else some node.embedding
  createdAt := createdAt
  accessedAt := node.accessedAt
  accessCount := node.accessCount
  salience := node.salience
  confidence := node.confidence
  attributes := node.attributes
  validFrom := node.validFrom
  validUntil := node.validUntil

/-- {lit}`INSERT ... ON CONFLICT(id) DO UPDATE`: an existing row keeps its
creation time. -/
def upsertMemoryRow (t : Tables F) (node : MemoryNode F) : Tables F :=
  { t with
    memories :=
      match hfind : t.memories.rows.find? node.id with
      | none => t.memories.insert node.id (rowOfNode node node.createdAt) hfind
      | some old => t.memories.modify node.id (fun _ => rowOfNode node old.createdAt) }

/-- Delete the tags of a memory and insert the given ones, ignoring repeats. -/
def replaceTags (t : Tables F) (id : MemoryId) (tags : List String) : Tables F :=
  { t with
    memoryTags :=
      tags.foldl (fun table tag => table.insert (id, tag) ())
        (t.memoryTags.deleteWhere (fun k _ => decide (k.1 = id))) }

/-- Replace the derived vector row; without an index there is nothing to insert. -/
def refreshVec [Arith F] (t : Tables F) (rowid : Nat) (embedding : List F)
    (dim : Nat) : Except MenteError (Tables F) :=
  if 0 < dim ∧ embedding ≠ [] then
    (t.deleteVec rowid).insertVec rowid (normalize embedding)
  else Except.ok (t.deleteVec rowid)

def storeMemoryOn [Arith F] (node : MemoryNode F) (dim : Nat) : Tx F := fun t =>
  match (t.upsertMemoryRow node).memories.rowidOf node.id with
  | none => Except.error (MenteError.storage "Query returned no rows")
  | some rowid =>
      match (t.upsertMemoryRow node).refreshVec rowid node.embedding dim with
      | Except.error e => Except.error e
      | Except.ok t => Except.ok (t.replaceTags node.id node.tags)

/-!
## Reads
-/

def tagsOf (t : Tables F) (id : MemoryId) : List String :=
  ((t.memoryTags.keys.filter (fun k => decide (k.1 = id))).map Prod.snd).insertionSort
    (fun a b => a <= b)

def nodeOfRow (id : MemoryId) (row : MemoryRow F) (tags : List String) :
    MemoryNode F where
  id := id
  agentId := row.agentId
  memoryType := parseMemoryType row.memoryType
  embedding := row.embedding.getD []
  content := row.content
  createdAt := row.createdAt
  accessedAt := row.accessedAt
  accessCount := row.accessCount
  salience := row.salience
  confidence := row.confidence
  spaceId := row.spaceId
  attributes := row.attributes
  tags := tags
  validFrom := row.validFrom
  validUntil := row.validUntil

def getMemory (t : Tables F) (id : MemoryId) : Option (MemoryNode F) :=
  (t.memories.find? id).map (fun row => nodeOfRow id row (t.tagsOf id))

def allMemoryIds (t : Tables F) : List MemoryId := t.memories.ids

def allMemories (t : Tables F) : List (MemoryNode F) :=
  t.allMemoryIds.filterMap t.getMemory

def salienceOf (t : Tables F) (id : MemoryId) : Option F :=
  (t.memories.find? id).map MemoryRow.salience

/-!
## Edges
-/

def rowOfEdge (edge : MemoryEdge F) : EdgeRow F where
  source := edge.source
  target := edge.target
  edgeType := edgeTypeStr edge.edgeType
  weight := edge.weight
  createdAt := edge.createdAt
  validFrom := edge.validFrom
  validUntil := edge.validUntil
  label := edge.label

def edgeOfRow (row : EdgeRow F) : MemoryEdge F where
  source := row.source
  target := row.target
  edgeType := parseEdgeType row.edgeType
  weight := row.weight
  createdAt := row.createdAt
  validFrom := row.validFrom
  validUntil := row.validUntil
  label := row.label

@[simp] theorem edgeOfRow_rowOfEdge (edge : MemoryEdge F) :
    edgeOfRow (rowOfEdge edge) = edge := by
  simp [edgeOfRow, rowOfEdge]

def addEdgeOn (edge : MemoryEdge F) : Tx F := fun t =>
  Except.ok { t with edges := t.edges ++ [rowOfEdge edge] }

def allEdges (t : Tables F) : List (MemoryEdge F) := t.edges.map edgeOfRow

/-!
## Invalidation

The three statements overwrite the end of validity with the given instant.
-/

def invalidateMemoryOn (id : MemoryId) (validUntil : Timestamp) : Tx F := fun t =>
  Except.ok { t with
    memories := t.memories.modify id
      (fun row => { row with validUntil := some validUntil }) }

def markClaimStatusOn (claimId : String) (status : String) (validUntil : Timestamp) :
    Tx F := fun t =>
  Except.ok { t with
    claims := t.claims.update (fun k _ => decide (k = claimId))
      (fun _ row => { row with
        status := status, validUntil := some validUntil, updatedAt := validUntil }) }

def markRelationshipStatusOn (relationshipId : String) (status : String)
    (validUntil : Timestamp) : Tx F := fun t =>
  Except.ok { t with
    entityRelationships :=
      t.entityRelationships.update (fun k _ => decide (k = relationshipId))
        (fun _ row => { row with
          status := status, validUntil := some validUntil, updatedAt := validUntil }) }

/-!
## What a store changes

A successful store rewrites the memory's row, its tags and its mirror rows in
the two virtual tables; every other relation is left alone.
-/

theorem find?_upsertMemoryRow (t : Tables F) (node : MemoryNode F) (j : MemoryId) :
    (t.upsertMemoryRow node).memories.find? j =
      if j = node.id then
        some (match t.memories.find? node.id with
          | none => { rowOfNode node node.createdAt with rowid := t.memories.nextRowid }
          | some old => { rowOfNode node old.createdAt with rowid := old.rowid })
      else t.memories.find? j := by
  unfold upsertMemoryRow
  simp only
  split
  · rename_i hfind
    have hnone : t.memories.find? node.id = none := hfind
    rw [MemoryTable.find?_insert, hnone]
  · rename_i old hfind
    have hsome : t.memories.find? node.id = some old := hfind
    rw [MemoryTable.find?_modify, hsome]
    by_cases hj : j = node.id
    · rw [hj, hsome]
      simp
    · cases t.memories.find? j <;> simp [hj]

theorem insertVec_ok {t t' : Tables F} {rowid : Nat} {embedding : List F}
    (h : t.insertVec rowid embedding = Except.ok t') :
    exists v, t' = { t with memoryVec := v } := by
  unfold insertVec at h
  split at h
  · cases h
  · split at h
    · cases h
      exact ⟨_, rfl⟩
    · cases h

theorem refreshVec_ok [Scalar F] {t t' : Tables F} {rowid dim : Nat}
    {embedding : List F} (h : t.refreshVec rowid embedding dim = Except.ok t') :
    exists v, t' = { t with memoryVec := v } := by
  unfold refreshVec at h
  split at h
  · rcases insertVec_ok h with ⟨v, hv⟩
    exact ⟨v, hv⟩
  · cases h
    exact ⟨_, rfl⟩

theorem storeMemoryOn_ok [Scalar F] {t t' : Tables F} {node : MemoryNode F} {dim : Nat}
    (h : storeMemoryOn node dim t = Except.ok t') :
    exists v, t' =
      { (t.upsertMemoryRow node).replaceTags node.id node.tags with memoryVec := v } := by
  unfold storeMemoryOn at h
  split at h
  · cases h
  · split at h
    · cases h
    · rename_i mid hmid
      rcases refreshVec_ok hmid with ⟨v, hv⟩
      cases h
      subst hv
      exact ⟨v, rfl⟩

theorem contains_replaceTags (t : Tables F) (id : MemoryId) (tags : List String)
    (j : MemoryId) (tag : String) :
    (t.replaceTags id tags).memoryTags.contains (j, tag) = true <->
      (j = id ∧ tag ∈ tags) ∨ (j ≠ id ∧ t.memoryTags.contains (j, tag) = true) := by
  unfold replaceTags
  rw [Assoc.contains_foldl_insert (fun tag => (id, tag)), Assoc.contains, Assoc.find?_deleteWhere]
  by_cases hj : j = id
  · simp [hj]
  · cases hfind : t.memoryTags.find? (j, tag) with
    | none => simp [hj, hfind, Assoc.contains]
    | some v => simp [hj, hfind, Assoc.contains]

/-- The tags under a key of a tag table, in order. -/
def sortedTags {κ : Type} [DecidableEq κ] (table : Assoc (κ × String) Unit) (key : κ) :
    List String :=
  ((table.keys.filter (fun k => decide (k.1 = key))).map Prod.snd).insertionSort
    (fun a b => a <= b)

section SortedTags

variable {κ : Type} [DecidableEq κ] {table : Assoc (κ × String) Unit} {key : κ}

theorem mem_sortedTags {tag : String} :
    tag ∈ sortedTags table key <-> table.contains (key, tag) = true := by
  unfold sortedTags
  rw [List.mem_insertionSort, List.mem_map, Assoc.contains_iff_mem_keys]
  constructor
  · intro h
    rcases h with ⟨k, hk, htag⟩
    have hparts := List.mem_filter.mp hk
    have hkey : k.1 = key := by simpa using hparts.2
    rw [← hkey, ← htag]
    exact hparts.1
  · intro h
    exact ⟨(key, tag), by simpa using h, rfl⟩

theorem nodup_sortedTags : (sortedTags table key).Nodup := by
  refine (List.perm_insertionSort _ _).nodup_iff.mpr ?_
  refine List.Nodup.map_on ?_ (List.Nodup.filter _ table.nodup)
  intro a ha b hb hab
  have hkeya : a.1 = key := by simpa using (List.mem_filter.mp ha).2
  have hkeyb : b.1 = key := by simpa using (List.mem_filter.mp hb).2
  exact Prod.ext (hkeya.trans hkeyb.symm) hab

end SortedTags

theorem mem_tagsOf {t : Tables F} {id : MemoryId} {tag : String} :
    tag ∈ t.tagsOf id <-> t.memoryTags.contains (id, tag) = true := mem_sortedTags

/-- Two ordered lists without repeats and with the same members are equal. -/
theorem eq_of_ordered {a b : List String} (ha : a.Pairwise (fun x y => x <= y))
    (hb : b.Pairwise (fun x y => x <= y)) (hna : a.Nodup) (hnb : b.Nodup)
    (h : forall tag, tag ∈ a <-> tag ∈ b) : a = b :=
  ((List.perm_ext_iff_of_nodup hna hnb).mpr h).eq_of_pairwise' ha hb

/-- The tags of a memory are listed in order, so they depend on its tag rows only. -/
theorem tagsOf_congr {t t' : Tables F} {id : MemoryId}
    (h : forall tag, t'.memoryTags.contains (id, tag) = true <->
      t.memoryTags.contains (id, tag) = true) : t'.tagsOf id = t.tagsOf id := by
  refine eq_of_ordered (List.pairwise_insertionSort _ _) (List.pairwise_insertionSort _ _)
    nodup_sortedTags nodup_sortedTags ?_
  intro tag
  rw [mem_tagsOf, mem_tagsOf]
  exact h tag

theorem getMemory_congr {t t' : Tables F} {id : MemoryId}
    (hrow : t'.memories.find? id = t.memories.find? id)
    (htags : forall tag, t'.memoryTags.contains (id, tag) = true <->
      t.memoryTags.contains (id, tag) = true) : t'.getMemory id = t.getMemory id := by
  unfold getMemory
  rw [hrow, tagsOf_congr htags]

theorem getMemory_id {t : Tables F} {id : MemoryId} {node : MemoryNode F}
    (h : t.getMemory id = some node) : node.id = id := by
  rcases Option.map_eq_some_iff.mp h with ⟨row, _, hnode⟩
  rw [← hnode]
  rfl

theorem mem_tags_of_getMemory {t : Tables F} {id : MemoryId} {node : MemoryNode F}
    (h : t.getMemory id = some node) {tag : String} :
    tag ∈ node.tags <-> t.memoryTags.contains (id, tag) = true := by
  rcases Option.map_eq_some_iff.mp h with ⟨row, _, hnode⟩
  rw [← hnode]
  exact mem_tagsOf

theorem contains_of_getMemory {t : Tables F} {id : MemoryId} {node : MemoryNode F}
    (h : t.getMemory id = some node) : t.memories.contains id = true := by
  rcases Option.map_eq_some_iff.mp h with ⟨row, hrow, _⟩
  rw [MemoryTable.contains_eq, hrow]
  rfl

theorem map_id_allMemories (t : Tables F) : t.allMemories.map MemoryNode.id = t.allMemoryIds := by
  have hloaded : forall ids : List MemoryId, (forall id, id ∈ ids -> id ∈ t.memories.ids) ->
      (ids.filterMap t.getMemory).map MemoryNode.id = ids := by
    intro ids hids
    induction ids with
    | nil => rfl
    | cons id rest ih =>
        have hstored := MemoryTable.mem_ids.mp (hids id List.mem_cons_self)
        rw [MemoryTable.contains_eq] at hstored
        rcases Option.isSome_iff_exists.mp hstored with ⟨row, hrow⟩
        have hget : t.getMemory id = some (nodeOfRow id row (t.tagsOf id)) := by
          unfold getMemory
          rw [hrow]
          rfl
        rw [List.filterMap_cons_some hget, List.map_cons,
          ih (fun j hj => hids j (List.mem_cons_of_mem id hj)), getMemory_id hget]
  exact hloaded t.allMemoryIds (fun _ hid => hid)

theorem nodup_id_allMemories (t : Tables F) : (t.allMemories.map MemoryNode.id).Nodup := by
  rw [map_id_allMemories]
  exact t.memories.rows.nodup

theorem mem_allMemories {t : Tables F} {node : MemoryNode F}
    (h : node ∈ t.allMemories) : t.getMemory node.id = some node := by
  rcases List.mem_filterMap.mp h with ⟨id, _, hget⟩
  rw [getMemory_id hget]
  exact hget

theorem mem_allMemories_of_getMemory {t : Tables F} {id : MemoryId} {node : MemoryNode F}
    (h : t.getMemory id = some node) : node ∈ t.allMemories :=
  List.mem_filterMap.mpr ⟨id, MemoryTable.mem_ids.mpr (contains_of_getMemory h), h⟩

end Tables
end Sqlite
end MenteDb
