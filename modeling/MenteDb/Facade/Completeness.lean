import MenteDb.Facade.Embedder
import MenteDb.Sqlite.Nearest

/-!
# How many memories a recall finds

A recall searches for three times as many memories as it was asked for and then
drops the hidden ones.  It returns as many as asked for while at most two thirds of what it
fetches can be hidden; beyond that it may return fewer, although enough visible ones are
stored.
-/

namespace MenteDb

namespace Sqlite
namespace Tables

open Foundation

variable {F : Type}

/-!
## How many hits a search has
-/

/-- Memories with an embedding of the given length. -/
def indexedIds (t : Tables F) (dim : Nat) : List MemoryId :=
  (t.memories.rows.entries.filter (fun e =>
    decide (e.2.embedding.map List.length = some dim))).map Prod.fst

theorem mem_indexedIds {t : Tables F} {dim : Nat} {id : MemoryId} :
    id ∈ t.indexedIds dim <-> exists row v, t.memories.find? id = some row ∧
      row.embedding = some v ∧ v.length = dim := by
  unfold indexedIds
  rw [List.mem_map]
  constructor
  · intro h
    rcases h with ⟨e, he, hid⟩
    have hparts := List.mem_filter.mp he
    rcases Option.map_eq_some_iff.mp (of_decide_eq_true hparts.2) with ⟨v, hv, hlength⟩
    rw [← hid]
    exact ⟨e.2, v, Assoc.find?_eq_some_iff.mpr hparts.1, hv, hlength⟩
  · intro h
    rcases h with ⟨row, v, hrow, hv, hlength⟩
    refine ⟨(id, row), List.mem_filter.mpr ⟨Assoc.find?_eq_some_iff.mp hrow, ?_⟩, rfl⟩
    rw [hv, Option.map_some, hlength, decide_eq_true rfl]

theorem nodup_indexedIds (t : Tables F) (dim : Nat) : (t.indexedIds dim).Nodup :=
  t.memories.rows.nodup.sublist (List.filter_sublist.map Prod.fst)

variable [Scalar F]

/-- The nearest neighbours are a selection of the indexed memories, as many as
asked for. -/
theorem knn_take {rankers : Rankers F} (hrankers : ExactNeighbours rankers) {t : Tables F}
    {dim : Nat} (h : t.Projected dim) {query : List F} {k : Nat} (hk : k ≠ 0)
    (hquery : query ≠ []) (hdim : dim ≠ 0) :
    exists order : List MemoryId, order.Perm (t.indexedIds dim) ∧
      t.knn rankers dim query k = order.take k := by
  rcases h.exists_index with ⟨v, hv, _, hnodup, hrows⟩
  rcases knn_eq hrankers hv (fun r w => (hrows r w).mp) hk hquery hdim with
    ⟨sorted, hperm, _, hknn⟩
  refine ⟨(sorted.map (t.hitOfRow query)).map Prod.fst, ?_, ?_⟩
  · refine ((hperm.map _).map _).trans ?_
    rw [List.perm_ext_iff_of_nodup (nodup_hitOfRow query hnodup (fun r w => (hrows r w).mp))
      (nodup_indexedIds t dim)]
    intro id
    rw [mem_indexedIds, List.map_map, List.mem_map]
    constructor
    · intro hmem
      rcases hmem with ⟨r, hr, hid⟩
      rcases (hrows r.1 r.2).mp hr with ⟨j, row, w, hrow, hrowid, hw, hlength, _⟩
      have hj : j = id := by
        simpa only [Function.comp_apply, hitOfRow, ← hrowid, idOfRowid_rowid hrow,
          Option.getD_some] using hid
      rw [← hj]
      exact ⟨row, w, hrow, hw, hlength⟩
    · intro hmem
      rcases hmem with ⟨row, w, hrow, hw, hlength⟩
      refine ⟨(row.rowid, normalize w),
        (hrows _ _).mpr ⟨id, row, w, hrow, rfl, hw, hlength, rfl⟩, ?_⟩
      rw [Function.comp_apply, hitOfRow_eq hrow]
  · rw [hknn, List.map_take]

/-- Every hit gets a score of its own. -/
theorem keys_fuse_of_nodup {rrfK : F} {hits : List MemoryId} (h : hits.Nodup) :
    (fuse rrfK Assoc.empty hits).keys = hits := by
  have hfst : hits.zipIdx.map Prod.fst = hits := by simp
  have hentries := Assoc.entries_foldl_upsert Prod.fst
    (fun (hit : MemoryId × Nat) (old : Option F) => old.getD 0 + 1 / (rrfK + (hit.2 : F)))
    hits.zipIdx Assoc.empty (by rw [hfst]; exact h) (fun _ _ hmem => by cases hmem)
  have hkeys := congrArg (List.map Prod.fst) hentries
  rw [List.map_append, List.map_map] at hkeys
  exact hkeys.trans hfst

theorem scoreFused_none (config : RetrievalConfig F) (t : Tables F)
    (fused : List (MemoryId × F)) :
    scoreFused config t none fused =
      fused.map (fun e => (e.1, combinedScore config t e.1 e.2)) := by
  unfold scoreFused
  simp only [Option.any_none, Bool.false_eq_true, if_false]
  rw [List.filterMap_eq_map']

/-- The ids an unfiltered search returns: some of its candidates, each once, as
many as asked for. -/
theorem ids_finishSearch (o : HashOrder) (config : RetrievalConfig F) (t : Tables F) (k : Nat)
    {hits : List MemoryId} (h : hits.Nodup) :
    exists order : List MemoryId, order.Perm hits ∧
      (finishSearch o config t none k hits []).map Prod.fst = order.take k := by
  unfold finishSearch
  by_cases hempty : hits = []
  · rw [if_pos ⟨hempty, rfl⟩, hempty]
    exact ⟨[], List.Perm.nil, by simp⟩
  · rw [if_neg (fun hnone => hempty hnone.1)]
    simp only [scoreFused_none, List.map_take]
    refine ⟨_, ?_, rfl⟩
    have hranked := (List.perm_insertionSort (fun a b : MemoryId × F => b.2 <= a.2)
      ((o.order (fuse config.rrfK Assoc.empty hits).entries).map
        (fun e => (e.1, combinedScore config t e.1 e.2)))).map Prod.fst
    refine hranked.trans ?_
    rw [List.map_map]
    have horder := (o.perm (fuse config.rrfK Assoc.empty hits).entries).map Prod.fst
    have hkeys : (fuse config.rrfK Assoc.empty hits).entries.map Prod.fst = hits :=
      keys_fuse_of_nodup h
    rw [hkeys] at horder
    exact horder

end Tables
end Sqlite

namespace Facade

open Foundation
open Sqlite

variable {F : Type}

/-!
## Recall by similarity
-/

def recallSimilarAt [Scalar F] (env : Env F) (w : World F) (embedding : List F) (k : Nat)
    (at_ : Timestamp) : Except MenteError (List (MemoryId × F)) :=
  recallHybridAt env w embedding none k at_ none none

/-- Valid at the instant, not archived, and without an incoming edge that hides it. -/
def visibleAt (w : World F) (at_ : Timestamp) (id : MemoryId) : Bool :=
  !hasActiveSupersede w.graph id at_ &&
    currentlyVisible w.tables { at_ := at_, tags := none, tagsOr := false, timeRange := none } id

section Counting

variable [Scalar F] {env : Env F} {w : World F}

/-- What a recall of {lit}`k` memories fetches before it drops the hidden ones. -/
def fetched (env : Env F) (w : World F) (embedding : List F) (k : Nat) : List (MemoryId × F) :=
  w.tables.openSearch env.rankers env.hashOrder w.retrievalConfig w.embeddingDim embedding none
    (k * 3 % usizeSize)

omit [Scalar F] in
theorem entries_foldl_insert (hits : List (MemoryId × F)) (h : (hits.map Prod.fst).Nodup) :
    (hits.foldl (fun scored hit => scored.insert hit.1 hit.2) Assoc.empty).entries = hits := by
  have hentries := Assoc.entries_foldl_upsert Prod.fst (fun hit _ => hit.2) hits Assoc.empty h
    (fun _ _ hmem => by cases hmem)
  have hsame : hits.map (fun hit => (hit.1, hit.2)) = hits := List.map_id _
  rw [hsame] at hentries
  exact hentries

/-- A recall returns the visible ones among the fetched, as far as it was asked
for. -/
theorem length_openRecall (env : Env F) (w : World F) (embedding : List F) (k : Nat)
    (at_ : Timestamp) (hnodup : ((fetched env w embedding k).map Prod.fst).Nodup) :
    (openRecall env w embedding none k at_).length =
      min k ((fetched env w embedding k).filter (fun hit => visibleAt w at_ hit.1)).length := by
  have hscored : (recallScored env w none
      { at_ := at_, tags := none, tagsOr := false, timeRange := none }
      (fetched env w embedding k)).Perm (fetched env w embedding k) :=
    (env.hashOrder.perm _).trans (List.Perm.of_eq (entries_foldl_insert _ hnodup))
  have hperm := ((List.perm_insertionSort (fun a b : MemoryId × F => b.2 <= a.2) _).trans
    hscored).filter (fun hit => visibleAt w at_ hit.1)
  unfold openRecall recallHits
  rw [List.length_take, List.filter_filter]
  congr 1
  rw [← hperm.length_eq]
  refine congrArg List.length (List.filter_congr ?_)
  intro hit _
  unfold visibleAt
  rw [Bool.and_comm]

omit [Scalar F] in
theorem length_filter_le_of_subset {xs ys : List MemoryId} (hnodup : xs.Nodup)
    (hsub : forall x, x ∈ xs -> x ∈ ys) (p : MemoryId -> Bool) :
    (xs.filter p).length <= (ys.filter p).length :=
  ((List.subperm_of_subset hnodup hsub).filter p).length_le

/-- The fetched memories are indexed ones, each once; all of them, or three times
as many as asked for. -/
theorem fetched_indexed (hrankers : ExactNeighbours env.rankers)
    (hindex : w.tables.Projected w.embeddingDim) {embedding : List F}
    (hembedding : embedding.length = w.embeddingDim) (hdim : w.embeddingDim ≠ 0) {k : Nat}
    (hk : k ≠ 0) (hroom : k * 3 < usizeSize) :
    ((fetched env w embedding k).map Prod.fst).Nodup ∧
      (forall id, id ∈ (fetched env w embedding k).map Prod.fst ->
        id ∈ w.tables.indexedIds w.embeddingDim) ∧
      (fetched env w embedding k).length =
        min (k * 3) (w.tables.indexedIds w.embeddingDim).length := by
  have hquery : embedding ≠ [] := by
    intro hnil
    rw [hnil] at hembedding
    exact hdim hembedding.symm
  have hk3 : k * 3 % usizeSize = k * 3 := Nat.mod_eq_of_lt hroom
  have hk3ne : k * 3 ≠ 0 := by omega
  have hle : k * 3 <= fetchK w.retrievalConfig (k * 3) := Nat.le_max_right _ _
  have hfetch : fetchK w.retrievalConfig (k * 3) ≠ 0 := by omega
  rcases Tables.knn_take hrankers hindex hfetch hquery hdim with ⟨order, hperm, hknn⟩
  have hnodup : (order.take (fetchK w.retrievalConfig (k * 3))).Nodup :=
    (hperm.nodup_iff.mpr (Tables.nodup_indexedIds _ _)).sublist (List.take_sublist _ _)
  rcases Tables.ids_finishSearch env.hashOrder w.retrievalConfig w.tables (k * 3) hnodup with
    ⟨chosen, hchosen, hids⟩
  have hfetched : (fetched env w embedding k).map Prod.fst = chosen.take (k * 3) := by
    unfold fetched Tables.openSearch
    rw [hk3, if_neg (by simp [hk3ne, hquery]), hknn]
    exact hids
  refine ⟨?_, ?_, ?_⟩
  · rw [hfetched]
    exact (hchosen.nodup_iff.mpr hnodup).sublist (List.take_sublist _ _)
  · intro id hid
    rw [hfetched] at hid
    exact hperm.mem_iff.mp (List.mem_of_mem_take (hchosen.mem_iff.mp (List.mem_of_mem_take hid)))
  · have hlength := congrArg List.length hfetched
    rw [List.length_map, List.length_take, hchosen.length_eq, List.length_take,
      hperm.length_eq] at hlength
    omega

/-- With an exact index, a recall finds as many memories as asked for when as many of the
indexed ones are visible and at most twice as many are hidden. -/
theorem recall_complete_of_few_hidden (hrankers : ExactNeighbours env.rankers)
    (hindex : w.tables.Projected w.embeddingDim) {embedding : List F}
    (hembedding : embedding.length = w.embeddingDim) (hdim : 0 < w.embeddingDim) {k : Nat}
    (hroom : k * 3 < usizeSize) {at_ : Timestamp}
    (hvisible : k <= ((w.tables.indexedIds w.embeddingDim).filter (visibleAt w at_)).length)
    (hhidden : ((w.tables.indexedIds w.embeddingDim).filter
      (fun id => !visibleAt w at_ id)).length <= 2 * k) :
    exists results, recallSimilarAt env w embedding k at_ = Except.ok results ∧
      results.length = k := by
  refine ⟨_, recallHybridAt_open env w embedding none k at_, ?_⟩
  by_cases hk : k = 0
  · rw [hk]
    rfl
  · rcases fetched_indexed hrankers hindex hembedding (Nat.ne_of_gt hdim) hk hroom with
      ⟨hnodup, hsub, hlength⟩
    have hfew := length_filter_le_of_subset hnodup hsub (fun id => !visibleAt w at_ id)
    have hsplit := List.length_eq_length_filter_add
      (l := (fetched env w embedding k).map Prod.fst) (visibleAt w at_)
    have hsplitAll := List.length_eq_length_filter_add
      (l := w.tables.indexedIds w.embeddingDim) (visibleAt w at_)
    have hmap : ((fetched env w embedding k).filter (fun hit => visibleAt w at_ hit.1)).length =
        (((fetched env w embedding k).map Prod.fst).filter (visibleAt w at_)).length := by
      rw [List.filter_map, List.length_map]
      rfl
    rw [List.length_map] at hsplit
    rw [length_openRecall env w embedding k at_ hnodup]
    omega

end Counting

/-!
### Concrete recalls
-/

section Examples

/-- A memory that ended at 1200 when the flag is set. -/
def planeMemory (id : BitVec 128) (embedding : List Rat) (ended : Bool) : MemoryNode Rat :=
  { MemoryNode.new ⟨id⟩ 1000 AgentId.nil MemoryType.semantic "plane" embedding with
    validUntil := if ended then some 1200 else none }

def exactEnv : Env Rat :=
  { calmEnv CognitiveConfig.default with rankers := Tables.l2Rankers }

/-- One batch of memories in a new database. -/
def batchWorld (nodes : List (MemoryNode Rat)) : World Rat :=
  Call.step exactEnv emptyWorld (Call.storeBatch nodes)

def twoHidden : List (MemoryNode Rat) :=
  [planeMemory 1 [3, 4] true, planeMemory 2 [3, 4] true, planeMemory 4 [4, 3] false]

def threeHidden : List (MemoryNode Rat) :=
  twoHidden ++ [planeMemory 3 [3, 4] true]

theorem reachable_batchWorld (nodes : List (MemoryNode Rat)) :
    Reachable exactEnv (batchWorld nodes) := ⟨_, _, _, _, [Call.storeBatch nodes], rfl⟩

theorem batchWorld_projected (nodes : List (MemoryNode Rat))
    (hdim : 0 < (batchWorld nodes).embeddingDim) :
    (batchWorld nodes).tables.Projected (batchWorld nodes).embeddingDim :=
  (reachable_batchWorld nodes).sound.projected hdim

theorem recall_complete_of_few_hidden_plane :
    exists results, recallSimilarAt exactEnv (batchWorld twoHidden) [3, 4] 1 1500 =
      Except.ok results ∧ results.length = 1 := by
  refine recall_complete_of_few_hidden Tables.exactNeighbours_l2Rankers
    (batchWorld_projected twoHidden (by decide +kernel)) ?_ ?_ ?_ ?_ ?_
  · decide +kernel
  · decide +kernel
  · decide
  · decide +kernel
  · decide +kernel

/-- Three hidden memories close to the query leave nothing to return, although a
visible one is stored. -/
theorem recall_misses_visible_memory :
    Reachable exactEnv (batchWorld threeHidden) ∧
      (batchWorld threeHidden).tables.Projected 2 ∧ (batchWorld threeHidden).embeddingDim = 2 ∧
      ((batchWorld threeHidden).tables.indexedIds 2).filter
        (visibleAt (batchWorld threeHidden) 1500) = [⟨4⟩] ∧
      recallSimilarAt exactEnv (batchWorld threeHidden) [3, 4] 1 1500 = Except.ok [] := by
  have hdim : (batchWorld threeHidden).embeddingDim = 2 := by decide +kernel
  have hprojected := batchWorld_projected threeHidden (by rw [hdim]; decide)
  rw [hdim] at hprojected
  exact ⟨reachable_batchWorld threeHidden, hprojected, hdim, by decide +kernel, by decide +kernel⟩

end Examples

end Facade
end MenteDb
