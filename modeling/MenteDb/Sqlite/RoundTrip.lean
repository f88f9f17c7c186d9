import MenteDb.Sqlite.Backend
import Mathlib.Data.List.Dedup

/-!
# Reading back what was stored

A store rewrites one row and its tags.  Loading the memory afterwards gives the
stored node with its tags in order and without repeats, and with the creation
time the row already had.  A list of stores is followed memory by memory.
-/

namespace MenteDb
namespace Sqlite

open Foundation

variable {F : Type}

/-- The tags of a node as they are listed when it is loaded. -/
def loadedTags (tags : List String) : List String :=
  tags.dedup.insertionSort (fun a b => a <= b)

namespace Tables

/-- What loading a node gives after it has been stored over the given tables. -/
def asStored (t : Tables F) (node : MemoryNode F) : MemoryNode F :=
  { node with
    createdAt := ((t.memories.find? node.id).map MemoryRow.createdAt).getD node.createdAt
    tags := loadedTags node.tags }

/-!
## Tags
-/

theorem nodup_loadedTags (tags : List String) : (loadedTags tags).Nodup :=
  (List.perm_insertionSort _ _).nodup_iff.mpr tags.nodup_dedup

theorem sortedTags_eq_loadedTags {κ : Type} [DecidableEq κ] {table : Assoc (κ × String) Unit}
    {key : κ} {tags : List String}
    (h : forall tag, table.contains (key, tag) = true <-> tag ∈ tags) :
    sortedTags table key = loadedTags tags := by
  refine eq_of_ordered (List.pairwise_insertionSort _ _) (List.pairwise_insertionSort _ _)
    nodup_sortedTags (nodup_loadedTags tags) ?_
  intro tag
  rw [mem_sortedTags, h]
  unfold loadedTags
  rw [List.mem_insertionSort, List.mem_dedup]

/-- Loaded tags are listed the same way when they are stored again. -/
theorem loadedTags_tagsOf (t : Tables F) (id : MemoryId) :
    loadedTags (t.tagsOf id) = t.tagsOf id :=
  (sortedTags_eq_loadedTags (fun _ => mem_tagsOf.symm)).symm

theorem salienceOf_of_getMemory {t : Tables F} {id : MemoryId} {node : MemoryNode F}
    (h : t.getMemory id = some node) : t.salienceOf id = some node.salience := by
  rcases Option.map_eq_some_iff.mp h with ⟨row, hrow, hnode⟩
  unfold salienceOf
  rw [hrow, ← hnode]
  rfl

/-!
## One store
-/

section Store

variable [Scalar F]

theorem getMemory_storeMemoryOn {t t' : Tables F} {node : MemoryNode F} {dim : Nat}
    (h : storeMemoryOn node dim t = Except.ok t') (id : MemoryId) :
    t'.getMemory id = if id = node.id then some (t.asStored node) else t.getMemory id := by
  by_cases hid : id = node.id
  · rw [if_pos hid, hid]
    have htags : t'.tagsOf node.id = loadedTags node.tags := by
      apply sortedTags_eq_loadedTags
      intro tag
      rw [storeMemoryOn_tags h]
      simp
    unfold getMemory asStored
    rw [storeMemoryOn_find? h, if_pos rfl, htags]
    cases hfind : t.memories.find? node.id with
    | none => cases hemb : node.embedding <;> simp [nodeOfRow, rowOfNode, hemb]
    | some old => cases hemb : node.embedding <;> simp [nodeOfRow, rowOfNode, hemb]
  · rw [if_neg hid]
    apply getMemory_congr
    · rw [storeMemoryOn_find? h, if_neg hid]
    · intro tag
      rw [storeMemoryOn_tags h]
      simp [hid]

omit [Scalar F] in
/-- A loaded memory that is stored again with another salience reads as it was stored. -/
theorem asStored_of_loaded {t : Tables F} {u node : MemoryNode F}
    (hget : t.getMemory u.id = some node) (htags : u.tags = node.tags)
    (hcreated : u.createdAt = node.createdAt) : t.asStored u = u := by
  rcases Option.map_eq_some_iff.mp hget with ⟨row, hrow, hnode⟩
  have hlisted : loadedTags u.tags = u.tags := by
    rw [htags, ← hnode]
    exact loadedTags_tagsOf t u.id
  have hsame : row.createdAt = u.createdAt := by
    rw [hcreated, ← hnode]
    rfl
  unfold asStored
  rw [hrow, hlisted]
  simp [hsame]

/-!
## Writing loaded memories back
-/

/-- Every update is a loaded memory of the tables with its tags and creation time. -/
def Loaded (t : Tables F) (updates : List (MemoryNode F)) : Prop :=
  forall u, u ∈ updates -> exists node, t.getMemory u.id = some node ∧
    u.tags = node.tags ∧ u.createdAt = node.createdAt

/-- Updates of distinct loaded memories are read back as they are; other memories
are left alone. -/
theorem getMemory_forEach_loaded {dim : Nat} {updates : List (MemoryNode F)} {t t' : Tables F}
    (hnodup : (updates.map MemoryNode.id).Nodup) (hloaded : Loaded t updates)
    (hrun : Atomic.forEach updates (fun u => storeMemoryOn u dim) t = Except.ok t') :
    (forall u, u ∈ updates -> t'.getMemory u.id = some u) ∧
      forall id, id ∉ updates.map MemoryNode.id -> t'.getMemory id = t.getMemory id := by
  induction updates generalizing t with
  | nil =>
      cases hrun
      exact ⟨fun _ hu => absurd hu List.not_mem_nil, fun _ _ => rfl⟩
  | cons head rest ih =>
      rcases Atomic.andThen_eq_ok.mp hrun with ⟨mid, hstore, hrest⟩
      rw [List.map_cons, List.nodup_cons] at hnodup
      have hother : forall id, id ≠ head.id -> mid.getMemory id = t.getMemory id := by
        intro id hne
        rw [getMemory_storeMemoryOn hstore, if_neg hne]
      have hne : forall u, u ∈ rest -> u.id ≠ head.id := by
        intro u hu heq
        exact hnodup.1 (heq ▸ List.mem_map_of_mem hu)
      have hmid : Loaded mid rest := by
        intro u hu
        rcases hloaded u (List.mem_cons_of_mem head hu) with ⟨node, hget, hsame⟩
        exact ⟨node, (hother u.id (hne u hu)).trans hget, hsame⟩
      rcases ih hnodup.2 hmid hrest with ⟨hread, hframe⟩
      constructor
      · intro u hu
        cases List.mem_cons.mp hu with
        | inr htail => exact hread u htail
        | inl heq =>
            rcases hloaded head List.mem_cons_self with ⟨node, hget, htags, hcreated⟩
            rw [heq, hframe head.id hnodup.1, getMemory_storeMemoryOn hstore, if_pos rfl,
              asStored_of_loaded hget htags hcreated]
      · intro id hid
        rw [List.map_cons, List.mem_cons, not_or] at hid
        rw [hframe id hid.2, hother id hid.1]

theorem ids_storeMemoryOn_of_stored {t t' : Tables F} {node : MemoryNode F} {dim : Nat}
    (h : storeMemoryOn node dim t = Except.ok t') (hstored : t.memories.contains node.id = true) :
    t'.memories.ids = t.memories.ids := by
  rcases storeMemoryOn_ok h with ⟨v, hv⟩
  rw [hv]
  show (t.upsertMemoryRow node).memories.rows.keys = t.memories.rows.keys
  unfold upsertMemoryRow
  simp only
  split
  · rename_i hfind
    have hnone : t.memories.find? node.id = none := hfind
    rw [MemoryTable.contains_eq, hnone] at hstored
    cases hstored
  · exact Assoc.keys_update _ _ _

/-- Writing loaded memories back stores no further memory. -/
theorem allMemoryIds_forEach_loaded {dim : Nat} {updates : List (MemoryNode F)} {t t' : Tables F}
    (hloaded : Loaded t updates)
    (hrun : Atomic.forEach updates (fun u => storeMemoryOn u dim) t = Except.ok t') :
    t'.allMemoryIds = t.allMemoryIds := by
  refine Atomic.Keeps.forEach (P := fun t1 => t1.memories.ids = t.memories.ids) ?_ t t' rfl hrun
  intro u hu t1 t2 ht1 hstore
  rcases hloaded u hu with ⟨node, hget, _⟩
  have hstored := MemoryTable.mem_ids.mpr (contains_of_getMemory hget)
  rw [← ht1] at hstored
  exact (ids_storeMemoryOn_of_stored hstore (MemoryTable.mem_ids.mp hstored)).trans ht1

end Store

end Tables
end Sqlite
end MenteDb
