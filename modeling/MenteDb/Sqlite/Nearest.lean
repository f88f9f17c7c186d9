import MenteDb.Sqlite.Projection
import Mathlib.Algebra.Order.BigOperators.Group.List
import Mathlib.Tactic.Ring
import Mathlib.Tactic.Linarith

/-!
# Two ways to the nearest memories

Without a filter, a search asks the vector index for the rows at the least
distance.  With one it compares the query with every candidate itself, by the
dot product.  On unit vectors of one length the two orders are the same.
-/

namespace MenteDb
namespace Sqlite

open Foundation

variable {F : Type}

/-!
## Distances and dot products
-/

section Distances

variable [Scalar F]

def sumSquares (v : List F) : F := (v.map (fun x => x * x)).sum

/-- The square of the distance that {lit}`vec0` orders by. -/
def l2Squared (a b : List F) : F := ((a.zip b).map (fun p => (p.1 - p.2) * (p.1 - p.2))).sum

def Nonzero (v : List F) : Prop := exists x, x ∈ v ∧ x ≠ 0

/-- The norm of this vector is computed without error. -/
def ExactNorm (v : List F) : Prop := 0 <= norm v ∧ norm v * norm v = sumSquares v

theorem sumSquares_pos {v : List F} (h : Nonzero v) : 0 < sumSquares v := by
  rcases h with ⟨x, hx, hne⟩
  have hsquare : 0 < x * x := mul_self_pos.mpr hne
  have hmem : x * x ∈ v.map (fun y => y * y) := List.mem_map_of_mem hx
  have hle : x * x <= sumSquares v := by
    apply List.single_le_sum _ _ hmem
    intro y hy
    rcases List.mem_map.mp hy with ⟨z, _, heq⟩
    rw [← heq]
    exact mul_self_nonneg z
  exact lt_of_lt_of_le hsquare hle

theorem norm_pos {v : List F} (hexact : ExactNorm v) (h : Nonzero v) : 0 < norm v := by
  rcases lt_or_eq_of_le hexact.1 with hpos | hzero
  · exact hpos
  · have hsum := hexact.2
    rw [← hzero, mul_zero] at hsum
    exact absurd hsum (ne_of_lt (sumSquares_pos h))

theorem sumSquares_map_div (v : List F) (c : F) :
    sumSquares (v.map (fun x => x / c)) = sumSquares v / (c * c) := by
  unfold sumSquares
  induction v with
  | nil => simp
  | cons x rest ih =>
      simp only [List.map_cons, List.sum_cons, ih, add_div, div_mul_div_comm]

theorem sumSquares_normalize {v : List F} (hexact : ExactNorm v) (h : Nonzero v) :
    sumSquares (normalize v) = 1 := by
  have hpos := norm_pos hexact h
  unfold normalize
  rw [if_neg (not_le.mpr hpos), sumSquares_map_div, hexact.2]
  exact div_self (ne_of_gt (sumSquares_pos h))

/-- Exact sums do not depend on the order. -/
theorem iterSum_eq_sum (xs : List F) : iterSum xs = xs.sum := List.sum_eq_foldl.symm

/-- The law of cosines. -/
theorem l2Squared_eq (a b : List F) (h : a.length = b.length) :
    l2Squared a b = sumSquares a + sumSquares b - 2 * dot a b := by
  unfold l2Squared sumSquares dot
  rw [iterSum_eq_sum]
  induction a generalizing b with
  | nil =>
      cases b with
      | nil => simp
      | cons y rest => cases h
  | cons x xs ih =>
      cases b with
      | nil => cases h
      | cons y ys =>
          have htail := ih ys (Nat.succ.inj h)
          simp only [List.zip_cons_cons, List.map_cons, List.sum_cons, htail]
          ring

/-- On unit vectors the nearest is the one with the greatest dot product. -/
theorem dot_le_of_l2Squared_le {q a b : List F} (hq : sumSquares q = 1) (ha : sumSquares a = 1)
    (hb : sumSquares b = 1) (hla : q.length = a.length) (hlb : q.length = b.length)
    (h : l2Squared q a <= l2Squared q b) : dot q b <= dot q a := by
  rw [l2Squared_eq q a hla, l2Squared_eq q b hlb, hq, ha, hb] at h
  linarith

end Distances

/-!
## The two candidate lists
-/

/-- The neighbours are found exactly: the rows at the least distance, nearest
first. -/
def ExactNeighbours [Scalar F] (rankers : Rankers F) : Prop :=
  forall v q k, exists sorted : List (Nat × List F), sorted.Perm v.rows ∧
    sorted.Pairwise (fun a b => l2Squared q a.2 <= l2Squared q b.2) ∧
    rankers.vecMatch v q k = (sorted.take k).map Prod.fst

namespace Tables

section Ranked

variable [Arith F]

/-- Every memory with an embedding, and its similarity to the query. -/
def similarities (t : Tables F) (query : List F) : List (MemoryId × F) :=
  t.memories.rows.entries.filterMap (fun e =>
    e.2.embedding.map (fun v => (e.1, dot (normalize query) (normalize v))))

theorem mem_similarities {t : Tables F} {query : List F} {hit : MemoryId × F} :
    hit ∈ t.similarities query <-> exists row v, t.memories.find? hit.1 = some row ∧
      row.embedding = some v ∧ hit.2 = dot (normalize query) (normalize v) := by
  unfold similarities
  rw [List.mem_filterMap]
  constructor
  · intro h
    rcases h with ⟨e, he, hsome⟩
    rcases Option.map_eq_some_iff.mp hsome with ⟨v, hv, hhit⟩
    rw [← hhit]
    exact ⟨e.2, v, Assoc.find?_eq_some_iff.mpr he, hv, rfl⟩
  · intro h
    rcases h with ⟨row, v, hrow, hv, hscore⟩
    refine ⟨(hit.1, row), Assoc.find?_eq_some_iff.mp hrow, ?_⟩
    rw [hv, Option.map_some, ← hscore]

theorem nodup_similarities (t : Tables F) (query : List F) :
    ((t.similarities query).map Prod.fst).Nodup := by
  have hkeys : (t.similarities query).map Prod.fst =
      (t.memories.rows.entries.filter (fun e => e.2.embedding.isSome)).map Prod.fst := by
    unfold similarities
    induction t.memories.rows.entries with
    | nil => rfl
    | cons e rest ih =>
        cases hv : e.2.embedding with
        | none => simp [hv, ih]
        | some v => simp [hv, ih]
  rw [hkeys]
  exact t.memories.rows.nodup.sublist (List.filter_sublist.map Prod.fst)

/-- The filtered search ranks the similarities of the candidates. -/
theorem topOf_nearestAmong (o : HashOrder) (t : Tables F) (query : List F)
    (candidates : List MemoryId) (k : Nat) :
    exists top, TopOf k ((t.similarities query).filter (fun s => decide (s.1 ∈ candidates))) top ∧
      t.nearestAmong o query candidates k = top.map Prod.fst := by
  have hscored : t.nearestAmong o query candidates k = ((rank (o.order
      ((t.similarities query).filter (fun s => decide (s.1 ∈ candidates))))).take k).map
        Prod.fst := by
    unfold similarities
    rw [List.filter_filterMap]
    refine congrArg (fun scored => ((rank (o.order scored)).take k).map Prod.fst)
      (List.filterMap_congr ?_)
    intro e _
    cases e.2.embedding with
    | none => rfl
    | some v =>
        by_cases hin : e.1 ∈ candidates
        · simp [Option.filter, hin]
        · simp [Option.filter, hin]
  exact ⟨_, (topOf_rank k _).perm (o.perm _), hscored⟩

/-- With all memories allowed, the filtered search ranks all similarities. -/
theorem topOf_nearestAmong_all (o : HashOrder) (t : Tables F) (query : List F)
    {candidates : List MemoryId} (hall : forall id, t.memories.contains id = true ->
      id ∈ candidates) (k : Nat) :
    exists top, TopOf k (t.similarities query) top ∧
      t.nearestAmong o query candidates k = top.map Prod.fst := by
  have hself : (t.similarities query).filter (fun s => decide (s.1 ∈ candidates)) =
      t.similarities query := by
    apply List.filter_eq_self.mpr
    intro hit hhit
    rcases mem_similarities.mp hhit with ⟨row, v, hrow, _⟩
    exact decide_eq_true (hall hit.1 (Assoc.contains_iff_exists.mpr ⟨row, hrow⟩))
  have htop := topOf_nearestAmong o t query candidates k
  rw [hself] at htop
  exact htop

theorem scoreFused_perm {config : RetrievalConfig F} {t : Tables F}
    {candidates : Option (List MemoryId)} {xs ys : List (MemoryId × F)} (h : xs.Perm ys) :
    (scoreFused config t candidates xs).Perm (scoreFused config t candidates ys) :=
  h.filterMap _

/-- The order of the hash table only matters for equal scores. -/
theorem sameUpToTies_finishSearch (o o' : HashOrder) (config : RetrievalConfig F) (t : Tables F)
    (candidates : Option (List MemoryId)) (k : Nat) (vector bm25 : List MemoryId) :
    SameUpToTies (finishSearch o config t candidates k vector bm25)
      (finishSearch o' config t candidates k vector bm25) := by
  unfold finishSearch
  split
  · exact ⟨rfl, fun x y hx _ => by cases hx⟩
  · have htop : forall o : HashOrder, TopOf k (scoreFused config t candidates
        (fuse config.rrfK (fuse config.rrfK Assoc.empty vector) bm25).entries)
        ((rank (scoreFused config t candidates (o.order
          (fuse config.rrfK (fuse config.rrfK Assoc.empty vector) bm25).entries))).take k) :=
      fun o => (topOf_rank k _).perm (scoreFused_perm (o.perm _))
    exact (htop o).sameUpToTies (htop o')

end Ranked

variable [Scalar F]

/-- The index is exact, and every stored embedding is a nonzero vector of its
dimension, as the query is. -/
structure Comparable (t : Tables F) (dim : Nat) (query : List F) : Prop where
  indexed : t.Projected dim
  embedded : forall id row v, t.memories.find? id = some row -> row.embedding = some v ->
    v.length = dim ∧ Nonzero v
  length_query : query.length = dim
  nonzero_query : Nonzero query

/-- No rounding in the norms that a search computes. -/
def ExactNorms (t : Tables F) (query : List F) : Prop :=
  ExactNorm query ∧ forall id row v, t.memories.find? id = some row ->
    row.embedding = some v -> ExactNorm v

/-- The memory and the similarity that a row of the index stands for. -/
def hitOfRow (t : Tables F) (query : List F) (r : Nat × List F) : MemoryId × F :=
  ((t.memories.idOfRowid r.1).getD MemoryId.nil, dot (normalize query) r.2)

theorem hitOfRow_eq {t : Tables F} {query : List F} {id : MemoryId} {row : MemoryRow F}
    {vector : List F} (hrow : t.memories.find? id = some row) :
    t.hitOfRow query (row.rowid, vector) = (id, dot (normalize query) vector) := by
  unfold hitOfRow
  rw [idOfRowid_rowid hrow]
  rfl

/-- Different rows stand for different memories. -/
theorem nodup_hitOfRow {t : Tables F} {dim : Nat} (query : List F) {v : Vec0 F}
    (hnodup : (v.rows.map Prod.fst).Nodup)
    (hrows : forall rowid vector, (rowid, vector) ∈ v.rows -> t.Indexable dim rowid vector) :
    ((v.rows.map (t.hitOfRow query)).map Prod.fst).Nodup := by
  rw [List.map_map]
  refine List.Nodup.map_on ?_ (List.Nodup.of_map _ hnodup)
  intro a ha b hb heq
  rcases hrows a.1 a.2 ha with ⟨i, ri, _, hi, hia, _⟩
  rcases hrows b.1 b.2 hb with ⟨j, rj, _, hj, hjb, _⟩
  have hids : i = j := by
    simp only [Function.comp_apply, hitOfRow, ← hia, ← hjb, idOfRowid_rowid hi,
      idOfRowid_rowid hj, Option.getD_some] at heq
    exact heq
  have hrowids : a.1 = b.1 := by
    rw [hids, hj] at hi
    cases hi
    exact hia.symm.trans hjb
  exact List.inj_on_of_nodup_map hnodup ha hb hrowids

/-- The rows of an exact index stand for all memories with an embedding. -/
theorem perm_similarities {t : Tables F} {dim : Nat} {query : List F}
    (h : t.Comparable dim query) {v : Vec0 F} (hnodup : (v.rows.map Prod.fst).Nodup)
    (hrows : forall rowid vector, (rowid, vector) ∈ v.rows <-> t.Indexable dim rowid vector) :
    (v.rows.map (t.hitOfRow query)).Perm (t.similarities query) := by
  have hleft : (v.rows.map (t.hitOfRow query)).Nodup :=
    List.Nodup.of_map _ (nodup_hitOfRow query hnodup (fun r w => (hrows r w).mp))
  have hright : (t.similarities query).Nodup :=
    List.Nodup.of_map _ (nodup_similarities t query)
  rw [List.perm_ext_iff_of_nodup hleft hright]
  intro hit
  rw [List.mem_map, mem_similarities]
  constructor
  · intro hmem
    rcases hmem with ⟨r, hr, hhit⟩
    rcases (hrows r.1 r.2).mp hr with ⟨id, row, w, hrow, hrowid, hw, _, hvector⟩
    have heq : t.hitOfRow query (row.rowid, r.2) = (id, dot (normalize query) r.2) :=
      hitOfRow_eq hrow
    rw [hrowid, hhit] at heq
    rw [heq]
    exact ⟨row, w, hrow, hw, by rw [hvector]⟩
  · intro hmem
    rcases hmem with ⟨row, w, hrow, hw, hscore⟩
    refine ⟨(row.rowid, normalize w), (hrows _ _).mpr ⟨hit.1, row, w, hrow, rfl, hw,
      (h.embedded hit.1 row w hrow hw).1, rfl⟩, ?_⟩
    rw [hitOfRow_eq hrow, ← hscore]

/-- Exact neighbours are rows of the index in the order of their distance. -/
theorem knn_eq {rankers : Rankers F} (hrankers : ExactNeighbours rankers) {t : Tables F}
    {dim : Nat} {query : List F} {v : Vec0 F} (hv : t.memoryVec = some v)
    (hrows : forall rowid vector, (rowid, vector) ∈ v.rows -> t.Indexable dim rowid vector)
    {k : Nat} (hk : k ≠ 0) (hquery : query ≠ []) (hdim : dim ≠ 0) :
    exists sorted : List (Nat × List F), sorted.Perm v.rows ∧
      sorted.Pairwise (fun a b => l2Squared (normalize query) a.2 <=
        l2Squared (normalize query) b.2) ∧
      t.knn rankers dim query k =
        ((sorted.map (t.hitOfRow query)).take k).map Prod.fst := by
  rcases hrankers v (normalize query) k with ⟨sorted, hperm, hsorted, hmatch⟩
  refine ⟨sorted, hperm, hsorted, ?_⟩
  unfold knn
  rw [if_neg (by simp [hk, hquery, hdim]), hv]
  simp only
  rw [hmatch, ← List.map_take, List.map_map, List.filterMap_map]
  have hsome : forall r, r ∈ sorted.take k ->
      (t.memories.idOfRowid ∘ Prod.fst) r = some ((Prod.fst ∘ t.hitOfRow query) r) := by
    intro r hr
    have hmem := hperm.mem_iff.mp (List.mem_of_mem_take hr)
    rcases hrows r.1 r.2 hmem with ⟨id, row, _, hrow, hrowid, _⟩
    simp only [Function.comp_apply, hitOfRow, ← hrowid, idOfRowid_rowid hrow, Option.getD_some]
  rw [List.filterMap_congr hsome, List.filterMap_eq_map']

/-- Exact neighbours are the most similar memories. -/
theorem topOf_knn {rankers : Rankers F} (hrankers : ExactNeighbours rankers) {t : Tables F}
    {dim : Nat} {query : List F} (h : t.Comparable dim query) (hnorms : t.ExactNorms query)
    {k : Nat} (hk : k ≠ 0) :
    exists top, TopOf k (t.similarities query) top ∧
      t.knn rankers dim query k = top.map Prod.fst := by
  rcases h.indexed.exists_index with ⟨v, hv, _, hnodup, hrows⟩
  have hne : query ≠ [] := by
    intro hnil
    rcases h.nonzero_query with ⟨x, hx, _⟩
    rw [hnil] at hx
    cases hx
  have hdim : dim ≠ 0 := by
    intro hzero
    rw [← h.length_query] at hzero
    exact hne (List.length_eq_zero_iff.mp hzero)
  rcases knn_eq hrankers hv (fun r w => (hrows r w).mp) hk hne hdim with
    ⟨sorted, hperm, hsorted, hknn⟩
  have hunit : forall r, r ∈ sorted ->
      sumSquares r.2 = 1 ∧ (normalize query).length = r.2.length := by
    intro r hr
    rcases (hrows r.1 r.2).mp (hperm.mem_iff.mp hr) with ⟨id, row, w, hrow, _, hw, hlength, hvec⟩
    rw [hvec, length_normalize, length_normalize, h.length_query, hlength]
    exact ⟨sumSquares_normalize (hnorms.2 id row w hrow hw) (h.embedded id row w hrow hw).2, rfl⟩
  have hquery : sumSquares (normalize query) = 1 :=
    sumSquares_normalize hnorms.1 h.nonzero_query
  refine ⟨_, ⟨sorted.map (t.hitOfRow query), ?_, ?_, rfl⟩, hknn⟩
  · exact (hperm.map _).trans (perm_similarities h hnodup hrows)
  · refine List.pairwise_map.mpr (hsorted.imp_of_mem ?_)
    intro a b ha hb hle
    exact dot_le_of_l2Squared_le hquery (hunit a ha).1 (hunit b hb).1 (hunit a ha).2
      (hunit b hb).2 hle

/-!
## The two searches
-/

theorem hybridSearch_eq {rankers : Rankers F} {o : HashOrder} {config : RetrievalConfig F}
    {t : Tables F} {dim : Nat} {query : List F} {k : Nat} (hk : k ≠ 0) (hquery : query ≠ []) :
    t.hybridSearch rankers o config dim query none none k =
      Except.ok (finishSearch o config t none k (t.knn rankers dim query (fetchK config k))
        []) := by
  unfold hybridSearch
  rw [hybridSearchWithQueryMode_open, openSearch, if_neg (by simp [hk, hquery])]
  rfl

/-- Once the candidates are found the filter leaves nothing out. -/
theorem hybridSearch_filtered_eq {rankers : Rankers F} {o : HashOrder}
    {config : RetrievalConfig F} {t : Tables F} {dim : Nat} {query : List F} {k : Nat}
    (hk : k ≠ 0) (hquery : query ≠ []) {start stop : Timestamp}
    (hfew : (t.idsMatchingTime start stop).length <= rankers.limits.variableNumber) :
    t.hybridSearch rankers o config dim query none (some (start, stop)) k =
      Except.ok (finishSearch o config t none k
        (t.nearestAmong o query (t.idsMatchingTime start stop) (fetchK config k)) []) := by
  have hscore : finishSearch o config t (some (t.idsMatchingTime start stop)) k
      (t.nearestAmong o query (t.idsMatchingTime start stop) (fetchK config k)) [] =
        finishSearch o config t none k
          (t.nearestAmong o query (t.idsMatchingTime start stop) (fetchK config k)) [] := by
    unfold finishSearch
    split
    · rfl
    · refine congrArg (fun scored => (rank scored).take k) (List.filterMap_congr ?_)
      intro e he
      rw [HashOrder.mem_order] at he
      have hin : e.1 ∈ t.idsMatchingTime start stop := by
        rcases mem_keys_fuse (List.mem_map_of_mem he) with hvector | hbm25
        · rcases mem_keys_fuse hvector with hempty | hhit
          · cases hempty
          · exact (mem_nearestAmong hhit).2
        · cases hbm25
      simp [hin]
  unfold hybridSearch hybridSearchWithQueryMode
  rw [if_neg (by simp [hk, hquery])]
  show (if some (t.idsMatchingTime start stop) = some [] then _ else _) = _
  by_cases hempty : t.idsMatchingTime start stop = []
  · have hnone : t.nearestAmong o query (t.idsMatchingTime start stop) (fetchK config k) = [] := by
      apply List.eq_nil_iff_forall_not_mem.mpr
      intro id hid
      have hin := (mem_nearestAmong hid).2
      rw [hempty] at hin
      cases hin
    rw [if_pos (congrArg some hempty), hnone]
    rfl
  · rw [if_neg (fun heq => hempty (Option.some.inj heq)), vectorHits,
      vectorSearchFiltered_of_le hfew, ← hscore]
    rfl

omit [Scalar F] in
/-- Bounds on one side of {lit}`2^63` that contain every creation time let every
memory pass. -/
theorem idsMatchingTime_all {t : Tables F} {start stop : Timestamp}
    (hside : start.toNat < 2 ^ 63 <-> stop.toNat < 2 ^ 63)
    (hrange : forall id row, t.memories.find? id = some row ->
      start <= row.createdAt ∧ row.createdAt <= stop) {id : MemoryId}
    (h : t.memories.contains id = true) : id ∈ t.idsMatchingTime start stop := by
  rcases Option.isSome_iff_exists.mp h with ⟨row, hrow⟩
  have hbounds := hrange id row hrow
  have hcreated := row.createdAt.toNat_lt
  have hstop := stop.toNat_lt
  rw [UInt64.le_iff_toNat_le, UInt64.le_iff_toNat_le] at hbounds
  have hlow : sqlLe start row.createdAt = true := by
    rw [sqlLe_iff]
    split <;> split <;> omega
  have hhigh : sqlLe row.createdAt stop = true := by
    rw [sqlLe_iff]
    split <;> split <;> omega
  refine List.mem_map.mpr
    ⟨(id, row), List.mem_filter.mpr ⟨Assoc.find?_eq_some_iff.mp hrow, ?_⟩, rfl⟩
  rw [hlow, hhigh]
  rfl

/-- Both searches start from the most similar memories, which are the same up to
ties; without ties they return the same memories up to the order of equal scores. -/
theorem filtered_search_agrees {rankers : Rankers F} (hrankers : ExactNeighbours rankers)
    {t : Tables F} {dim : Nat} {query : List F} (h : t.Comparable dim query)
    (hnorms : t.ExactNorms query)
    (hfew : t.memories.rows.entries.length <= rankers.limits.variableNumber)
    {start stop : Timestamp} (hside : start.toNat < 2 ^ 63 <-> stop.toNat < 2 ^ 63)
    (hrange : forall id row, t.memories.find? id = some row ->
      start <= row.createdAt ∧ row.createdAt <= stop)
    (o o' : HashOrder) (config : RetrievalConfig F) (k : Nat) :
    (exists near near',
      TopOf (fetchK config k) (t.similarities query) near ∧
      TopOf (fetchK config k) (t.similarities query) near' ∧ SameUpToTies near near' ∧
      t.vectorSearchFiltered rankers.limits o query (t.idsMatchingTime start stop)
        (fetchK config k) = Except.ok (near.map Prod.fst) ∧
      t.knn rankers dim query (fetchK config k) = near'.map Prod.fst) ∧
    ((forall x y, x ∈ t.similarities query -> y ∈ t.similarities query -> x.2 = y.2 -> x = y) ->
      exists hits hits',
        t.hybridSearch rankers o config dim query none (some (start, stop)) k = Except.ok hits ∧
        t.hybridSearch rankers o' config dim query none none k = Except.ok hits' ∧
        SameUpToTies hits hits') := by
  have hall : forall id, t.memories.contains id = true -> id ∈ t.idsMatchingTime start stop :=
    fun id hid => idsMatchingTime_all hside hrange hid
  have hids : (t.idsMatchingTime start stop).length <= rankers.limits.variableNumber := by
    unfold idsMatchingTime
    rw [List.length_map]
    exact Nat.le_trans (List.length_filter_le _ _) hfew
  rcases topOf_nearestAmong_all o t query hall (fetchK config k) with ⟨near, hnear, hfiltered⟩
  have hsearched : t.vectorSearchFiltered rankers.limits o query (t.idsMatchingTime start stop)
      (fetchK config k) = Except.ok (near.map Prod.fst) := by
    rw [vectorSearchFiltered_of_le hids, hfiltered]
  by_cases hk : k = 0
  · have hfetch : fetchK config k = 0 := by
      unfold fetchK
      rw [hk]
      simp
    have hknn : t.knn rankers dim query (fetchK config k) =
        ([] : List (MemoryId × F)).map Prod.fst := by
      unfold knn
      rw [if_pos (Or.inl hfetch)]
      rfl
    have hnone : TopOf (fetchK config k) (t.similarities query) [] := by
      rw [hfetch]
      exact (topOf_rank 0 (t.similarities query))
    refine ⟨⟨near, [], hnear, hnone, hnear.sameUpToTies hnone, hsearched, hknn⟩, ?_⟩
    intro _
    unfold hybridSearch hybridSearchWithQueryMode
    rw [if_pos (Or.inl hk), if_pos (Or.inl hk)]
    exact ⟨[], [], rfl, rfl, rfl, fun x y hx _ => by cases hx⟩
  · have hfetch : fetchK config k ≠ 0 := by
      unfold fetchK
      omega
    have hquery : query ≠ [] := by
      intro hnil
      rcases h.nonzero_query with ⟨x, hx, _⟩
      rw [hnil] at hx
      cases hx
    rcases topOf_knn hrankers h hnorms hfetch with ⟨near', hnear', hknn⟩
    refine ⟨⟨near, near', hnear, hnear', hnear.sameUpToTies hnear', hsearched, hknn⟩, ?_⟩
    intro hdistinct
    have hsame : near = near' := hnear.eq_of_distinct hnear' hdistinct
    refine ⟨_, _, hybridSearch_filtered_eq hk hquery hids, hybridSearch_eq hk hquery, ?_⟩
    rw [hfiltered, hknn, hsame]
    exact sameUpToTies_finishSearch o o' config t none k _ []

/-!
### Concrete searches
-/

/-- Neighbours by the distance itself. -/
def l2Rankers : Rankers Rat where
  limits := Limits.default
  ftsMatch _ _ _ := []
  vecMatch v query k :=
    ((rank (v.rows.map (fun r => (r, -l2Squared query r.2)))).take k).map (fun r => r.1.1)

theorem exactNeighbours_l2Rankers : ExactNeighbours l2Rankers := by
  intro v q k
  have hsorted := pairwise_rank (v.rows.map (fun r => (r, -l2Squared q r.2)))
  have hperm : (rank (v.rows.map (fun r => (r, -l2Squared q r.2)))).Perm
      (v.rows.map (fun r => (r, -l2Squared q r.2))) := List.perm_insertionSort _ _
  refine ⟨(rank (v.rows.map (fun r => (r, -l2Squared q r.2)))).map Prod.fst, ?_, ?_, ?_⟩
  · have hfst := hperm.map Prod.fst
    rw [List.map_map] at hfst
    have hid : (Prod.fst ∘ fun r : Nat × List Rat => (r, -l2Squared q r.2)) = id := rfl
    rw [hid, List.map_id] at hfst
    exact hfst
  · refine List.pairwise_map.mpr (hsorted.imp_of_mem ?_)
    intro a b ha hb hle
    rcases List.mem_map.mp (hperm.mem_iff.mp ha) with ⟨r, _, hr⟩
    rcases List.mem_map.mp (hperm.mem_iff.mp hb) with ⟨r', _, hr'⟩
    rw [← hr, ← hr'] at hle ⊢
    exact neg_le_neg_iff.mp hle
  · show _ = List.map Prod.fst (List.take k (List.map Prod.fst _))
    rw [← List.map_take, List.map_map]
    rfl

def embedded (id : BitVec 128) (embedding : List Rat) : BackendCall Rat :=
  BackendCall.storeMemory
    (MemoryNode.new ⟨id⟩ 1000 AgentId.nil MemoryType.semantic "embedded" embedding)

/-- The tables after some calls on a new file without an index. -/
def tablesAfter (calls : List (BackendCall Rat)) : Tables Rat :=
  (calls.foldl Backend.step (Backend.opened Tables.empty 0)).tables

/-- Two nonzero memories of the index dimension. -/
def planeTables : Tables Rat :=
  tablesAfter [BackendCall.ensureVectorIndex 2, embedded 1 [3, 4], embedded 2 [5, 12]]

/-- What the unfiltered and the filtered search return. -/
def searchBoth (calls : List (BackendCall Rat)) (query : List Rat) (stop : Timestamp) (k : Nat) :
    Except MenteError (List MemoryId) × Except MenteError (List MemoryId) :=
  (((tablesAfter calls).hybridSearch l2Rankers HashOrder.insertion RetrievalConfig.default 2
      query none none k).map (List.map Prod.fst),
    ((tablesAfter calls).hybridSearch l2Rankers HashOrder.insertion RetrievalConfig.default 2
      query none (some (0, stop)) k).map (List.map Prod.fst))

theorem planeTables_rows : forall id row, planeTables.memories.find? id = some row ->
    row.createdAt = 1000 ∧ (row.embedding = some [3, 4] ∨ row.embedding = some [5, 12]) := by
  have hall : forall e, e ∈ planeTables.memories.rows.entries ->
      e.2.createdAt = 1000 ∧ (e.2.embedding = some [3, 4] ∨ e.2.embedding = some [5, 12]) := by
    decide +kernel
  intro id row hrow
  exact hall (id, row) (Assoc.find?_eq_some_iff.mp hrow)

theorem planeTables_projected : planeTables.Projected 2 := by
  have h0 : Run Backend.step Backend.Unseen (Backend.opened (Tables.empty : Tables Rat) 0) []
      (Backend.opened Tables.empty 0) := Run.nil _
  have h1 := h0.snoc (i := BackendCall.ensureVectorIndex 2) trivial
  have h2 := h1.snoc (i := embedded 1 [3, 4]) trivial
  have h3 := h2.snoc (i := embedded 2 [5, 12]) trivial
  have hdim : ((((Backend.opened (Tables.empty : Tables Rat) 0).step
      (BackendCall.ensureVectorIndex 2)).step (embedded 1 [3, 4])).step
        (embedded 2 [5, 12])).embeddingDim = 2 := by decide +kernel
  have hprojected := (Backend.sound_of_run h3).projected
  rw [hdim] at hprojected
  exact hprojected (by decide)

theorem filtered_search_agrees_plane :
    planeTables.Comparable 2 [1, 0] ∧ exists hits hits',
      planeTables.hybridSearch l2Rankers HashOrder.insertion RetrievalConfig.default 2 [1, 0]
          none (some (0, 2000)) 5 = Except.ok hits ∧
        planeTables.hybridSearch l2Rankers HashOrder.insertion RetrievalConfig.default 2 [1, 0]
          none none 5 = Except.ok hits' ∧
        SameUpToTies hits hits' := by
  have hcomparable : planeTables.Comparable 2 [1, 0] := by
    refine ⟨planeTables_projected, ?_, rfl, 1, by decide, by decide⟩
    intro id row v hrow hv
    rcases (planeTables_rows id row hrow).2 with hfirst | hsecond
    · rw [hfirst] at hv
      cases hv
      exact ⟨rfl, 3, by decide, by decide⟩
    · rw [hsecond] at hv
      cases hv
      exact ⟨rfl, 5, by decide, by decide⟩
  have hnorms : planeTables.ExactNorms [1, 0] := by
    refine ⟨by unfold ExactNorm; decide +kernel, ?_⟩
    intro id row v hrow hv
    rcases (planeTables_rows id row hrow).2 with hfirst | hsecond
    · rw [hfirst] at hv
      cases hv
      unfold ExactNorm
      decide +kernel
    · rw [hsecond] at hv
      cases hv
      unfold ExactNorm
      decide +kernel
  have hrange : forall id row, planeTables.memories.find? id = some row ->
      (0 : Timestamp) <= row.createdAt ∧ row.createdAt <= 2000 := by
    intro id row hrow
    rw [(planeTables_rows id row hrow).1]
    decide
  have hside : (0 : Timestamp).toNat < 2 ^ 63 <-> (2000 : Timestamp).toNat < 2 ^ 63 := by decide
  have hagree := filtered_search_agrees exactNeighbours_l2Rankers hcomparable hnorms
    (by decide +kernel) hside hrange HashOrder.insertion HashOrder.insertion
    RetrievalConfig.default 5
  refine ⟨hcomparable, hagree.2 ?_⟩
  have hdistinct : forall x, x ∈ planeTables.similarities [1, 0] -> forall y,
      y ∈ planeTables.similarities [1, 0] -> x.2 = y.2 -> x = y := by decide +kernel
  exact fun x y hx hy => hdistinct x hx y hy

/-- Three ways to disagree: an embedding of another length, the zero vector, and a
range without an end. -/
theorem filtered_search_disagrees :
    searchBoth [embedded 1 [2, 3, 6], BackendCall.ensureVectorIndex 2, embedded 2 [3, 4]]
        [3, 4] 2000 5 = (Except.ok [⟨2⟩], Except.ok [⟨2⟩, ⟨1⟩]) ∧
      searchBoth [BackendCall.ensureVectorIndex 2, embedded 1 [0, 0], embedded 2 [5, 12]]
        [1, 0] 2000 1 = (Except.ok [⟨1⟩], Except.ok [⟨2⟩]) ∧
      searchBoth [BackendCall.ensureVectorIndex 2, embedded 2 [3, 4]]
        [3, 4] 18446744073709551615 5 = (Except.ok [⟨2⟩], Except.ok []) := by
  decide +kernel

end Tables
end Sqlite
end MenteDb
