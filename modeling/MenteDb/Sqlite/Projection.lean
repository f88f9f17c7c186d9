import MenteDb.Sqlite.Search

/-!
# The vector projection

{lit}`memory_vec` is derived from {lit}`memories`: under the rowid of a memory it
holds the normalized copy of an embedding of the index dimension.  Every write
deletes and inserts the row of the memory it touches.  The table is created in
two places, and only one of them looks at the memories already stored.
-/

namespace MenteDb
namespace Sqlite

open Foundation

variable {F : Type} [Scalar F]

theorem length_normalize (v : List F) : (normalize v).length = v.length := by
  unfold normalize
  split
  · rfl
  · rw [List.length_map]

namespace Tables

/-!
## What the index should hold
-/

/-- The vector of the memory under a rowid, when its embedding has the given length. -/
def Indexable (t : Tables F) (dim : Nat) (rowid : Nat) (vector : List F) : Prop :=
  exists id row embedding, t.memories.find? id = some row ∧ row.rowid = rowid ∧
    row.embedding = some embedding ∧ embedding.length = dim ∧ vector = normalize embedding

/-- There is an index of this dimension with exactly the rows it should hold. -/
structure Projected (t : Tables F) (dim : Nat) : Prop where
  exists_index : exists v, t.memoryVec = some v ∧ v.dim = dim ∧ (v.rows.map Prod.fst).Nodup ∧
    forall rowid vector, (rowid, vector) ∈ v.rows <-> t.Indexable dim rowid vector

/-- The nearest neighbours are chosen among rows that include the one of this
memory, and its rowid leads back to it. -/
def IsCandidate (t : Tables F) (id : MemoryId) : Prop :=
  exists v row, t.memoryVec = some v ∧ t.memories.find? id = some row ∧
    row.rowid ∈ v.rows.map Prod.fst ∧ t.memories.idOfRowid row.rowid = some id

omit [Scalar F] in
theorem idOfRowid_rowid {t : Tables F} {id : MemoryId} {row : MemoryRow F}
    (h : t.memories.find? id = some row) : t.memories.idOfRowid row.rowid = some id := by
  have hmem : (id, row) ∈ t.memories.rows.entries := Assoc.find?_eq_some_iff.mp h
  unfold MemoryTable.idOfRowid
  cases hfound : t.memories.rows.entries.find? (fun e => decide (e.2.rowid = row.rowid)) with
  | none =>
      have hnone := List.find?_eq_none.mp hfound (id, row) hmem
      simp at hnone
  | some e =>
      have hrowid : e.2.rowid = row.rowid := by simpa using List.find?_some hfound
      have hfind : t.memories.rows.find? e.1 = some e.2 :=
        Assoc.find?_eq_some_iff.mpr (List.mem_of_find?_eq_some hfound)
      have hid : e.1 = id := t.memories.rowid_inj e.1 id e.2 row hfind h hrowid
      rw [Option.map_some, hid]

theorem isCandidate_of_projected {t : Tables F} {dim : Nat} (h : t.Projected dim)
    {id : MemoryId} {row : MemoryRow F} {embedding : List F}
    (hrow : t.memories.find? id = some row) (hembedding : row.embedding = some embedding)
    (hlength : embedding.length = dim) : t.IsCandidate id := by
  rcases h.exists_index with ⟨v, hv, _, _, hrows⟩
  have hmem : (row.rowid, normalize embedding) ∈ v.rows :=
    (hrows _ _).mpr ⟨id, row, embedding, hrow, rfl, hembedding, hlength, rfl⟩
  exact ⟨v, row, hv, hrow, List.mem_map_of_mem hmem, idOfRowid_rowid hrow⟩

/-!
## A store refreshes one row
-/

/-- The index after the row of one memory was deleted and perhaps inserted again. -/
def refreshed (v : Vec0 F) (rowid : Nat) (embedding : List F) (dim : Nat) : Vec0 F :=
  { v with
    rows := v.rows.filter (fun r => decide (r.1 ≠ rowid)) ++
      if 0 < dim ∧ embedding ≠ [] then [(rowid, normalize embedding)] else [] }

/-- What a store needs of the index: nothing when it inserts nothing. -/
def Accepts (t : Tables F) (dim : Nat) (embedding : List F) : Prop :=
  0 < dim -> embedding ≠ [] -> exists v, t.memoryVec = some v ∧ embedding.length = v.dim

theorem refreshVec_cases (t : Tables F) (rowid dim : Nat) (embedding : List F) :
    (t.Accepts dim embedding ∧ t.refreshVec rowid embedding dim = Except.ok
        { t with memoryVec := t.memoryVec.map (fun v => refreshed v rowid embedding dim) }) ∨
      (¬ t.Accepts dim embedding ∧
        exists e, t.refreshVec rowid embedding dim = Except.error e) := by
  unfold refreshVec Accepts
  by_cases hinsert : 0 < dim ∧ embedding ≠ []
  · rw [if_pos hinsert]
    unfold insertVec deleteVec
    cases hv : t.memoryVec with
    | none =>
        refine Or.inr ⟨?_, _, rfl⟩
        intro h
        rcases h hinsert.1 hinsert.2 with ⟨v, hnone, _⟩
        cases hnone
    | some v =>
        simp only [Option.map_some, length_normalize]
        by_cases hlength : embedding.length = v.dim
        · left
          refine ⟨fun _ _ => ⟨v, rfl, hlength⟩, ?_⟩
          rw [if_pos hlength]
          simp only [refreshed, if_pos hinsert]
        · right
          refine ⟨?_, ?_⟩
          · intro h
            rcases h hinsert.1 hinsert.2 with ⟨v', hsome, heq⟩
            cases hsome
            exact hlength heq
          · rw [if_neg hlength]
            exact ⟨_, rfl⟩
  · left
    refine ⟨fun hdim hne => absurd ⟨hdim, hne⟩ hinsert, ?_⟩
    rw [if_neg hinsert]
    unfold deleteVec
    simp only [refreshed, if_neg hinsert, List.append_nil]

/-- The rowid of a memory after it is stored: the old one, or a fresh one. -/
def storedRowid (t : Tables F) (id : MemoryId) : Nat :=
  match t.memories.find? id with
  | none => t.memories.nextRowid
  | some old => old.rowid

omit [Scalar F] in
theorem rowidOf_upsertMemoryRow (t : Tables F) (node : MemoryNode F) :
    (t.upsertMemoryRow node).memories.rowidOf node.id = some (t.storedRowid node.id) := by
  unfold MemoryTable.rowidOf storedRowid
  rw [find?_upsertMemoryRow, if_pos rfl]
  cases t.memories.find? node.id <;> rfl

/-- A store either succeeds, with one row of the index refreshed, or is refused by
the index. -/
theorem storeMemoryOn_cases (t : Tables F) (node : MemoryNode F) (dim : Nat) :
    (t.Accepts dim node.embedding ∧ storeMemoryOn node dim t = Except.ok
        { (t.upsertMemoryRow node).replaceTags node.id node.tags with
          memoryVec := t.memoryVec.map
            (fun v => refreshed v (t.storedRowid node.id) node.embedding dim) }) ∨
      (¬ t.Accepts dim node.embedding ∧ exists e, storeMemoryOn node dim t = Except.error e) := by
  unfold storeMemoryOn
  rw [rowidOf_upsertMemoryRow]
  simp only
  rcases refreshVec_cases (t.upsertMemoryRow node) (t.storedRowid node.id) dim node.embedding with
    ⟨haccepts, hrun⟩ | ⟨hrefuses, e, hrun⟩
  · refine Or.inl ⟨haccepts, ?_⟩
    rw [hrun]
    rfl
  · refine Or.inr ⟨hrefuses, e, ?_⟩
    rw [hrun]

theorem storeMemoryOn_vec {t t' : Tables F} {node : MemoryNode F} {dim : Nat}
    (h : storeMemoryOn node dim t = Except.ok t') :
    t.Accepts dim node.embedding ∧ t'.memoryVec = t.memoryVec.map
      (fun v => refreshed v (t.storedRowid node.id) node.embedding dim) := by
  rcases storeMemoryOn_cases t node dim with ⟨haccepts, hrun⟩ | ⟨_, e, hrun⟩
  · rw [hrun] at h
    cases h
    exact ⟨haccepts, rfl⟩
  · rw [hrun] at h
    cases h

omit [Scalar F] in
theorem find?_stored {t t' : Tables F} {node : MemoryNode F} {id : MemoryId}
    {row : MemoryRow F}
    (hfind : forall j, t'.memories.find? j = (t.upsertMemoryRow node).memories.find? j)
    (h : t'.memories.find? id = some row) :
    (id = node.id ∧ row.rowid = t.storedRowid node.id ∧
      row.embedding = if node.embedding.isEmpty then none else some node.embedding) ∨
    (id ≠ node.id ∧ t.memories.find? id = some row ∧ row.rowid ≠ t.storedRowid node.id) := by
  have hrowid := rowidOf_upsertMemoryRow t node
  rw [hfind] at h
  by_cases hid : id = node.id
  · left
    refine ⟨hid, ?_, ?_⟩
    · rw [← hid] at hrowid ⊢
      unfold MemoryTable.rowidOf at hrowid
      rw [h] at hrowid
      exact Option.some.inj hrowid
    · rw [find?_upsertMemoryRow, if_pos hid] at h
      cases hold : t.memories.find? node.id with
      | none =>
          rw [hold] at h
          cases h
          rfl
      | some old =>
          rw [hold] at h
          cases h
          rfl
  · right
    refine ⟨hid, ?_, ?_⟩
    · rw [find?_upsertMemoryRow, if_neg hid] at h
      exact h
    · intro heq
      rcases Option.map_eq_some_iff.mp hrowid with ⟨stored, hstored, hsame⟩
      exact hid ((t.upsertMemoryRow node).memories.rowid_inj id node.id row stored h hstored
        (heq.trans hsame.symm))

/-- Every memory but the stored one keeps its vector. -/
theorem indexable_stored {t t' : Tables F} {node : MemoryNode F} {dim rowid : Nat}
    {vector : List F} (hdim : 0 < dim)
    (hfind : forall j, t'.memories.find? j = (t.upsertMemoryRow node).memories.find? j) :
    t'.Indexable dim rowid vector <->
      (rowid ≠ t.storedRowid node.id ∧ t.Indexable dim rowid vector) ∨
      (rowid = t.storedRowid node.id ∧ node.embedding.length = dim ∧
        vector = normalize node.embedding) := by
  constructor
  · intro h
    rcases h with ⟨id, row, embedding, hrow, hrowid, hembedding, hlength, hvector⟩
    rcases find?_stored hfind hrow with ⟨_, hstored, hnew⟩ | ⟨_, hold, hother⟩
    · right
      rw [hembedding] at hnew
      split at hnew
      · cases hnew
      · cases hnew
        exact ⟨hrowid.symm.trans hstored, hlength, hvector⟩
    · left
      refine ⟨?_, id, row, embedding, hold, hrowid, hembedding, hlength, hvector⟩
      rw [← hrowid]
      exact hother
  · intro h
    rcases h with ⟨hne, id, row, embedding, hrow, hrowid, hembedding, hlength, hvector⟩ |
      ⟨hstored, hlength, hvector⟩
    · have hid : id ≠ node.id := by
        intro heq
        rw [heq] at hrow
        apply hne
        rw [← hrowid]
        unfold storedRowid
        rw [hrow]
      refine ⟨id, row, embedding, ?_, hrowid, hembedding, hlength, hvector⟩
      rw [hfind, find?_upsertMemoryRow, if_neg hid]
      exact hrow
    · have hrowidOf := rowidOf_upsertMemoryRow t node
      rcases Option.map_eq_some_iff.mp hrowidOf with ⟨row, hrow, hrowid⟩
      have hrow' : t'.memories.find? node.id = some row := by
        rw [hfind]
        exact hrow
      have hne : node.embedding.isEmpty = false := by
        rw [List.isEmpty_eq_false_iff]
        intro hnil
        rw [hnil] at hlength
        exact absurd hlength (Nat.ne_of_lt hdim)
      rcases find?_stored hfind hrow' with ⟨_, _, hembedding⟩ | ⟨hother, _⟩
      · rw [hne] at hembedding
        exact ⟨node.id, row, node.embedding, hrow', hrowid.trans hstored.symm, hembedding,
          hlength, hvector⟩
      · exact absurd rfl hother

omit [Scalar F] in
theorem mem_rows_filter {v : Vec0 F} {deleted rowid : Nat} {vector : List F} :
    (rowid, vector) ∈ v.rows.filter (fun r => decide (r.1 ≠ deleted)) <->
      rowid ≠ deleted ∧ (rowid, vector) ∈ v.rows := by
  rw [List.mem_filter, decide_eq_true_eq, and_comm]

omit [Scalar F] in
theorem nodup_rows_filter {v : Vec0 F} (h : (v.rows.map Prod.fst).Nodup) (deleted : Nat) :
    ((v.rows.filter (fun r => decide (r.1 ≠ deleted))).map Prod.fst).Nodup :=
  h.sublist (List.filter_sublist.map Prod.fst)

theorem nodup_refreshed {v : Vec0 F} (h : (v.rows.map Prod.fst).Nodup) (rowid : Nat)
    (embedding : List F) (dim : Nat) :
    ((refreshed v rowid embedding dim).rows.map Prod.fst).Nodup := by
  unfold refreshed
  simp only [List.map_append]
  rw [List.nodup_append]
  refine ⟨nodup_rows_filter h rowid, ?_, ?_⟩
  · split <;> simp
  · intro a ha b hb hab
    rcases List.mem_map.mp ha with ⟨r, hr, hra⟩
    have hne : r.1 ≠ rowid := by simpa using (List.mem_filter.mp hr).2
    split at hb
    · have hb' : b = rowid := by simpa using hb
      exact hne (hra.trans (hab.trans hb'))
    · cases hb

/-- A store with a dimension at hand keeps the projection; a store that believes
there is no index loses a vector that belongs in it. -/
theorem projected_storeMemoryOn_iff {t t' : Tables F} {node : MemoryNode F} {dim loaded : Nat}
    (hdim : 0 < dim) (h : t.Projected dim) (hrun : storeMemoryOn node loaded t = Except.ok t') :
    t'.Projected dim <-> 0 < loaded ∨ node.embedding.length ≠ dim := by
  rcases h.exists_index with ⟨v, hv, hvdim, hnodup, hrows⟩
  rcases storeMemoryOn_vec hrun with ⟨haccepts, hvec⟩
  rw [hv, Option.map_some] at hvec
  have hfind : forall j, t'.memories.find? j = (t.upsertMemoryRow node).memories.find? j := by
    intro j
    rcases storeMemoryOn_ok hrun with ⟨_, hafter⟩
    rw [hafter]
    rfl
  constructor
  · intro hprojected
    by_contra hnot
    push Not at hnot
    have hunloaded : loaded = 0 := Nat.eq_zero_of_le_zero hnot.1
    rcases hprojected.exists_index with ⟨v', hv', _, _, hrows'⟩
    rw [hvec] at hv'
    cases hv'
    have hshould : t'.Indexable dim (t.storedRowid node.id) (normalize node.embedding) :=
      (indexable_stored hdim hfind).mpr (Or.inr ⟨rfl, hnot.2, rfl⟩)
    have hmem := (hrows' _ _).mpr hshould
    simp only [refreshed, hunloaded, Nat.lt_irrefl, false_and, if_false, List.append_nil,
      mem_rows_filter] at hmem
    exact hmem.1 rfl
  · intro hloaded
    refine ⟨_, hvec, hvdim, nodup_refreshed hnodup _ _ _, ?_⟩
    intro rowid vector
    rw [indexable_stored hdim hfind, refreshed, List.mem_append, mem_rows_filter, hrows]
    refine or_congr Iff.rfl ?_
    by_cases hinsert : 0 < loaded ∧ node.embedding ≠ []
    · have hlength : node.embedding.length = dim := by
        rcases haccepts hinsert.1 hinsert.2 with ⟨v', hv', hlength⟩
        rw [hv] at hv'
        cases hv'
        exact hlength.trans hvdim
      rw [if_pos hinsert, List.mem_singleton, Prod.mk.injEq]
      exact ⟨fun hpair => ⟨hpair.1, hlength, hpair.2⟩, fun hpair => ⟨hpair.1, hpair.2.2⟩⟩
    · rw [if_neg hinsert]
      constructor
      · intro hmem
        cases hmem
      · intro hpair
        refine absurd ?_ hinsert
        refine ⟨?_, ?_⟩
        · rcases hloaded with hpos | hne
          · exact hpos
          · exact absurd hpair.2.1 hne
        · intro hnil
          rw [hnil] at hpair
          exact absurd hpair.2.1 (Nat.ne_of_lt hdim)

/-!
## Deleting and rebuilding
-/

theorem indexable_deleteMemory {t : Tables F} {id : MemoryId} {dim rowid deleted : Nat}
    {vector : List F} (hdeleted : t.memories.rowidOf id = some deleted) :
    (t.deleteMemory id).Indexable dim rowid vector <->
      rowid ≠ deleted ∧ t.Indexable dim rowid vector := by
  rcases Option.map_eq_some_iff.mp hdeleted with ⟨gone, hgone, hrowid⟩
  have hfind : forall j, (t.deleteMemory id).memories.find? j =
      if j = id then none else t.memories.find? j := by
    intro j
    unfold deleteMemory
    rw [hdeleted]
    exact MemoryTable.find?_delete t.memories id j
  constructor
  · intro h
    rcases h with ⟨j, row, embedding, hrow, hrow', hrest⟩
    rw [hfind] at hrow
    split at hrow
    · cases hrow
    · rename_i hj
      refine ⟨?_, j, row, embedding, hrow, hrow', hrest⟩
      intro heq
      exact hj (t.memories.rowid_inj j id row gone hrow hgone
        (hrow'.trans (heq.trans hrowid.symm)))
  · intro h
    rcases h with ⟨hne, j, row, embedding, hrow, hrow', hrest⟩
    have hj : j ≠ id := by
      intro heq
      rw [heq] at hrow
      rw [hrow] at hgone
      cases hgone
      exact hne (hrow'.symm.trans hrowid)
    refine ⟨j, row, embedding, ?_, hrow', hrest⟩
    rw [hfind, if_neg hj]
    exact hrow

theorem projected_deleteMemory {t : Tables F} {dim : Nat} (h : t.Projected dim)
    (id : MemoryId) : (t.deleteMemory id).Projected dim := by
  rcases h.exists_index with ⟨v, hv, hvdim, hnodup, hrows⟩
  cases hdeleted : t.memories.rowidOf id with
  | none =>
      unfold deleteMemory
      rw [hdeleted]
      exact h
  | some deleted =>
      have hvec : (t.deleteMemory id).memoryVec =
          some { v with rows := v.rows.filter (fun r => decide (r.1 ≠ deleted)) } := by
        unfold deleteMemory
        rw [hdeleted]
        simp only [deleteMemoryRow, deleteVec, hv, Option.map_some]
      refine ⟨_, hvec, hvdim, nodup_rows_filter hnodup deleted, ?_⟩
      intro rowid vector
      rw [indexable_deleteMemory hdeleted, mem_rows_filter, hrows]

theorem mem_backfill {t : Tables F} {dim rowid : Nat} {vector : List F} :
    (rowid, vector) ∈ t.backfill dim <-> t.Indexable dim rowid vector := by
  unfold backfill Indexable
  rw [List.mem_filterMap]
  constructor
  · intro h
    rcases h with ⟨e, he, hsome⟩
    split at hsome
    · cases hsome
    · rename_i embedding hembedding
      split at hsome
      · rename_i hlength
        cases hsome
        exact ⟨e.1, e.2, embedding, Assoc.find?_eq_some_iff.mpr he, rfl, hembedding, hlength, rfl⟩
      · cases hsome
  · intro h
    rcases h with ⟨id, row, embedding, hrow, hrowid, hembedding, hlength, hvector⟩
    refine ⟨(id, row), Assoc.find?_eq_some_iff.mp hrow, ?_⟩
    simp only [hembedding, hlength, if_true, hrowid, hvector]

theorem nodup_backfill (t : Tables F) (dim : Nat) : ((t.backfill dim).map Prod.fst).Nodup := by
  have hkeys : t.memories.rows.entries.Pairwise (fun a b => a.1 ≠ b.1) :=
    List.pairwise_map.mp t.memories.rows.nodup
  have hrowids : t.memories.rows.entries.Pairwise (fun a b => a.2.rowid ≠ b.2.rowid) := by
    refine hkeys.imp_of_mem ?_
    intro a b ha hb hne heq
    exact hne (t.memories.rowid_inj a.1 b.1 a.2 b.2 (Assoc.find?_eq_some_iff.mpr ha)
      (Assoc.find?_eq_some_iff.mpr hb) heq)
  unfold backfill
  refine List.pairwise_map.mpr (List.pairwise_filterMap.mpr (hrowids.imp ?_))
  intro a b hne r hr r' hr'
  -- a row without an embedding of the dimension contributes nothing
  split at hr
  · cases hr
  split at hr
  · split at hr'
    · cases hr'
    split at hr'
    · cases hr
      cases hr'
      exact hne
    · cases hr'
  · cases hr

/-- A rebuild reads all memories. -/
theorem projected_ensureVectorIndex {t t' : Tables F} {dim : Nat}
    (h : ensureVectorIndex dim t = Except.ok t') : t'.Projected dim := by
  cases h
  exact ⟨_, rfl, rfl, nodup_backfill t dim, fun _ _ => mem_backfill⟩

end Tables

/-!
## A backend and its calls
-/

/-- An open database file, and the dimension the process works with. -/
structure Backend (F : Type) where
  tables : Tables F
  embeddingDim : Nat

inductive BackendCall (F : Type) where
  | reopen (hintDim : Nat)
  | storeMemory (node : MemoryNode F)
  | storeMemoryBatch (nodes : List (MemoryNode F))
  | applyLifecyclePolicy (memoryUpdates : List (MemoryNode F))
  | deleteMemory (id : MemoryId)
  | ensureVectorIndex (dim : Nat)

namespace Backend

omit [Scalar F] in
def opened (t : Tables F) (hintDim : Nat) : Backend F where
  tables := t.init hintDim
  embeddingDim := t.effectiveDim hintDim

omit [Scalar F] in
/-- A transaction that fails is rolled back. -/
def commit (b : Backend F) (tx : Tx F) : Backend F :=
  match tx b.tables with
  | Except.ok t => { b with tables := t }
  | Except.error _ => b

def step (b : Backend F) : BackendCall F -> Backend F
  | BackendCall.reopen hintDim => opened b.tables hintDim
  | BackendCall.storeMemory node => b.commit (Tables.storeMemory b.embeddingDim node)
  | BackendCall.storeMemoryBatch nodes => b.commit (Tables.storeMemoryBatch b.embeddingDim nodes)
  | BackendCall.applyLifecyclePolicy memoryUpdates =>
      b.commit (Tables.applyLifecyclePolicy b.embeddingDim memoryUpdates)
  | BackendCall.deleteMemory id => b.commit (Tables.deleteMemoryOn id)
  | BackendCall.ensureVectorIndex dim =>
      if dim = 0 ∨ dim = b.embeddingDim then b
      else
        match Tables.ensureVectorIndex dim b.tables with
        | Except.ok t => { tables := t, embeddingDim := dim }
        | Except.error _ => b

/-- With a dimension, the index holds exactly the memories of that dimension, and
each of them can be found. -/
def Exact (b : Backend F) : Prop :=
  0 < b.embeddingDim -> b.tables.Projected b.embeddingDim ∧
    forall id row embedding, b.tables.memories.find? id = some row ->
      row.embedding = some embedding -> embedding.length = b.embeddingDim ->
      b.tables.IsCandidate id

/-- An open that gives the database its first dimension finds no embedding of
that length. -/
def Unseen (b : Backend F) : BackendCall F -> Prop
  | BackendCall.reopen hintDim => b.embeddingDim = 0 -> 0 < hintDim ->
      forall id row embedding, b.tables.memories.find? id = some row ->
        row.embedding = some embedding -> embedding.length ≠ hintDim
  | _ => True

/-- What holds between two calls: the dimension is the stored one, and a table
exists exactly when it is positive. -/
structure Sound (b : Backend F) : Prop where
  stored : b.tables.metaEmbeddingDim = some b.embeddingDim
  deferred : b.embeddingDim = 0 -> b.tables.memoryVec = none
  projected : 0 < b.embeddingDim -> b.tables.Projected b.embeddingDim

theorem exact_iff {b : Backend F} :
    b.Exact <-> (0 < b.embeddingDim -> b.tables.Projected b.embeddingDim) := by
  constructor
  · intro h hdim
    exact (h hdim).1
  · intro h hdim
    exact ⟨h hdim, fun _ _ _ hrow hembedding hlength =>
      Tables.isCandidate_of_projected (h hdim) hrow hembedding hlength⟩

/-!
## Each call keeps the projection
-/

theorem sound_commit {b : Backend F} {tx : Tx F} (hb : b.Sound)
    (h : Atomic.Keeps (fun t => Sound { b with tables := t }) tx) : (b.commit tx).Sound := by
  unfold commit
  cases hrun : tx b.tables with
  | ok t => exact h b.tables t hb hrun
  | error e => exact hb

theorem keeps_storeMemoryOn (dim : Nat) (node : MemoryNode F) :
    Atomic.Keeps (fun t => Sound { tables := t, embeddingDim := dim })
      (Tables.storeMemoryOn node dim) := by
  intro t t' ht hrun
  have hvec := (Tables.storeMemoryOn_vec hrun).2
  refine ⟨?_, ?_, ?_⟩
  · rcases Tables.storeMemoryOn_ok hrun with ⟨_, hafter⟩
    rw [hafter]
    exact ht.stored
  · intro hdim
    have hnone : t.memoryVec = none := ht.deferred hdim
    show t'.memoryVec = none
    rw [hvec, hnone]
    rfl
  · intro hdim
    exact (Tables.projected_storeMemoryOn_iff hdim (ht.projected hdim) hrun).mpr (Or.inl hdim)

theorem keeps_deleteMemoryOn (dim : Nat) (id : MemoryId) :
    Atomic.Keeps (fun t => Sound (F := F) { tables := t, embeddingDim := dim })
      (Tables.deleteMemoryOn id) := by
  intro t t' ht hrun
  cases hrun
  refine ⟨?_, ?_, ?_⟩
  · show (t.deleteMemory id).metaEmbeddingDim = some dim
    unfold Tables.deleteMemory
    split <;> exact ht.stored
  · intro hdim
    have hnone : t.memoryVec = none := ht.deferred hdim
    show (t.deleteMemory id).memoryVec = none
    unfold Tables.deleteMemory
    split
    · exact hnone
    · simp only [Tables.deleteMemoryRow, Tables.deleteVec, hnone, Option.map_none]
  · intro hdim
    exact Tables.projected_deleteMemory (ht.projected hdim) id

/-- The stored dimension wins, so a later open changes nothing that matters. -/
theorem sound_reopen {b : Backend F} (hb : b.Sound) {hintDim : Nat}
    (h : b.Unseen (BackendCall.reopen hintDim)) : (opened b.tables hintDim).Sound := by
  have heffective : b.tables.effectiveDim hintDim =
      if 0 < b.embeddingDim then b.embeddingDim else hintDim := by
    unfold Tables.effectiveDim
    rw [hb.stored]
    by_cases hdim : 0 < b.embeddingDim
    · simp [Option.filter, hdim]
    · simp [Option.filter, hdim]
  refine ⟨rfl, ?_, ?_⟩
  · intro hzero
    have heff : b.tables.effectiveDim hintDim = 0 := hzero
    show (if 0 < b.tables.effectiveDim hintDim then _ else b.tables.memoryVec) = none
    rw [heff, if_neg (Nat.lt_irrefl 0)]
    rw [heffective] at heff
    split at heff
    · rename_i hdim
      exact absurd heff (Nat.ne_of_gt hdim)
    · rename_i hdim
      exact hb.deferred (Nat.eq_zero_of_not_pos hdim)
  · intro hpos
    have heff : 0 < b.tables.effectiveDim hintDim := hpos
    have hvec : (opened b.tables hintDim).tables.memoryVec = some (b.tables.memoryVec.getD
        { dim := b.tables.effectiveDim hintDim, rows := [] }) := if_pos heff
    show Tables.Projected _ (b.tables.effectiveDim hintDim)
    by_cases hdim : 0 < b.embeddingDim
    · rcases (hb.projected hdim).exists_index with ⟨v, hv, hrest⟩
      rw [heffective, if_pos hdim]
      refine ⟨v, ?_, hrest⟩
      rw [hvec, hv]
      rfl
    · have hzero := Nat.eq_zero_of_not_pos hdim
      rw [hb.deferred hzero] at hvec
      refine ⟨_, hvec, rfl, List.nodup_nil, ?_⟩
      intro rowid vector
      constructor
      · intro hmem
        cases hmem
      · intro hshould
        rcases hshould with ⟨id, row, embedding, hrow, _, hembedding, hlength, _⟩
        rw [heffective, if_neg hdim] at hlength heff
        exact absurd hlength (h hzero heff id row embedding hrow hembedding)

theorem sound_step {b : Backend F} (hb : b.Sound) {call : BackendCall F} (h : b.Unseen call) :
    (b.step call).Sound := by
  cases call with
  | reopen hintDim => exact sound_reopen hb h
  | storeMemory node =>
      refine sound_commit hb ?_
      intro t t' ht hrun
      exact keeps_storeMemoryOn b.embeddingDim node t t' ht (Tables.storeMemory_ok hrun)
  | storeMemoryBatch nodes =>
      refine sound_commit hb ?_
      intro t t' ht hrun
      exact Atomic.Keeps.forEach (fun node _ => keeps_storeMemoryOn b.embeddingDim node) t t' ht
        (Tables.storeMemoryBatch_ok hrun)
  | applyLifecyclePolicy memoryUpdates =>
      exact sound_commit hb (Atomic.Keeps.forEach
        (fun node _ => keeps_storeMemoryOn b.embeddingDim node))
  | deleteMemory id => exact sound_commit hb (keeps_deleteMemoryOn b.embeddingDim id)
  | ensureVectorIndex dim =>
      by_cases hdim : dim = 0 ∨ dim = b.embeddingDim
      · rw [step, if_pos hdim]
        exact hb
      · rw [step, if_neg hdim]
        refine ⟨rfl, ?_, ?_⟩
        · intro hzero
          exact absurd (Or.inl hzero) hdim
        · intro _
          exact Tables.projected_ensureVectorIndex (t := b.tables) rfl

/-- Where the condition fails, the open leaves a memory out. -/
theorem unseen_of_exact {b : Backend F} (hb : b.Sound) {call : BackendCall F}
    (h : (b.step call).Exact) : b.Unseen call := by
  cases call with
  | reopen hintDim =>
      intro hzero hpos id row embedding hrow hembedding hlength
      have heff : b.tables.effectiveDim hintDim = hintDim := by
        unfold Tables.effectiveDim
        rw [hb.stored, hzero]
        rfl
      have hdim : (b.step (BackendCall.reopen hintDim)).embeddingDim = hintDim := heff
      rw [Exact, hdim] at h
      rcases (h hpos).2 id row embedding hrow hembedding hlength with ⟨v, row', hv, _, hmem, _⟩
      have hempty : v.rows = [] := by
        have hvec : (b.step (BackendCall.reopen hintDim)).tables.memoryVec =
            some (b.tables.memoryVec.getD
              { dim := b.tables.effectiveDim hintDim, rows := [] }) :=
          if_pos (by rw [heff]; exact hpos)
        rw [hvec, hb.deferred hzero] at hv
        cases hv
        rfl
      rw [hempty] at hmem
      cases hmem
  | storeMemory node => trivial
  | storeMemoryBatch nodes => trivial
  | applyLifecyclePolicy memoryUpdates => trivial
  | deleteMemory id => trivial
  | ensureVectorIndex dim => trivial

theorem sound_opened_empty (hintDim : Nat) : (opened (Tables.empty : Tables F) hintDim).Sound := by
  refine ⟨rfl, ?_, ?_⟩
  · intro hzero
    exact if_neg (Nat.not_lt.mpr (Nat.le_of_eq hzero))
  · intro hpos
    refine ⟨_, if_pos hpos, rfl, List.nodup_nil, ?_⟩
    intro rowid vector
    constructor
    · intro hmem
      cases hmem
    · intro hshould
      rcases hshould with ⟨id, row, _, hrow, _⟩
      cases hrow

theorem sound_of_run {hintDim : Nat} {calls : List (BackendCall F)} {b : Backend F}
    (hrun : Run step Unseen (opened Tables.empty hintDim) calls b) : b.Sound :=
  hrun.invariant (fun _ _ hs hguard => sound_step hs hguard) (sound_opened_empty hintDim)

/-- In a run whose opens meet the condition every state is exact, and a further
call leads to an exact state exactly when it meets the condition too. -/
theorem exact_of_run {hintDim : Nat} {calls : List (BackendCall F)} {b : Backend F}
    (hrun : Run step Unseen (opened Tables.empty hintDim) calls b) :
    b.Exact ∧ forall call, (b.step call).Exact <-> b.Unseen call := by
  have hsound := sound_of_run hrun
  refine ⟨exact_iff.mpr hsound.projected, ?_⟩
  intro call
  constructor
  · exact unseen_of_exact hsound
  · intro hunseen
    exact exact_iff.mpr (sound_step hsound hunseen).projected

/-!
### Concrete runs
-/

def pythagoras : MemoryNode Rat :=
  MemoryNode.new ⟨7⟩ 1000 AgentId.nil MemoryType.semantic "three and four" [3, 4]

theorem exact_of_run_pythagoras :
    (List.foldl step (opened Tables.empty 2)
      [BackendCall.storeMemory pythagoras, BackendCall.reopen 2]).Exact ∧
    (List.foldl step (opened Tables.empty 2)
      [BackendCall.storeMemory pythagoras, BackendCall.reopen 2]).tables.memoryVec =
        some { dim := 2, rows := [(1, [3 / 5, 4 / 5])] } := by
  have h0 : Run step Unseen (opened (Tables.empty : Tables Rat) 2) [] (opened Tables.empty 2) :=
    Run.nil _
  have h1 := h0.snoc (i := BackendCall.storeMemory pythagoras) trivial
  have h2 := h1.snoc (i := BackendCall.reopen 2) (by
    intro hzero
    exact absurd hzero (by decide +kernel))
  exact ⟨(exact_of_run h2).1, by decide +kernel⟩

/-- A memory stored without an index is not in the one that the next open creates. -/
theorem reopen_misses_stored_memory :
    ¬ (List.foldl step (opened Tables.empty 0)
      [BackendCall.storeMemory pythagoras, BackendCall.reopen 2]).Exact := by
  intro h
  have hdim : (List.foldl step (opened Tables.empty 0)
      [BackendCall.storeMemory pythagoras, BackendCall.reopen 2]).embeddingDim = 2 := by
    decide +kernel
  have hrow : exists row, (List.foldl step (opened Tables.empty 0)
      [BackendCall.storeMemory pythagoras, BackendCall.reopen 2]).tables.memories.find? ⟨7⟩ =
        some row ∧ row.embedding = some [3, 4] :=
    ⟨{ Tables.rowOfNode pythagoras 1000 with rowid := 1 }, by decide +kernel, rfl⟩
  have hvec : (List.foldl step (opened Tables.empty 0)
      [BackendCall.storeMemory pythagoras, BackendCall.reopen 2]).tables.memoryVec =
        some { dim := 2, rows := [] } := by decide +kernel
  rcases hrow with ⟨row, hrow, hembedding⟩
  rw [Exact, hdim] at h
  rcases (h (by decide)).2 ⟨7⟩ row [3, 4] hrow hembedding rfl with ⟨v, _, hv, _, hmem, _⟩
  rw [hvec] at hv
  cases hv
  cases hmem

end Backend
end Sqlite
end MenteDb
