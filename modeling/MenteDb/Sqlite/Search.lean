import MenteDb.Sqlite.Backend
import MenteDb.Sqlite.Queries
import MenteDb.Foundation.Outcome
import MenteDb.Foundation.Ranking
import Mathlib.Data.Finset.Card

/-!
# Hybrid search

Vector and full-text candidates are fused by reciprocal rank, restricted to the
memories the filters allow, and ranked.  The two rankers are the extensions
{lit}`vec0` and FTS5; they return some list of rowids.  Reads fail where a statement
has a variable for every tag or candidate and these are too many.
-/

namespace MenteDb
namespace Sqlite

open Foundation

variable {F : Type}

structure RetrievalConfig (F : Type) where
  fetchMultiplier : Nat
  rrfK : F
  rrfWeight : F
  salienceWeight : F
  recencyWeight : F
  recencyPrior : F
  multiQueryRrfK : F

def RetrievalConfig.default [Arith F] : RetrievalConfig F where
  fetchMultiplier := 4
  rrfK := ratio 60 1
  rrfWeight := ratio 7 10
  salienceWeight := ratio 5 100
  recencyWeight := ratio 2 100
  recencyPrior := ratio 1 2
  multiQueryRrfK := ratio 60 1

/-- The rankers of the two virtual tables, and the limits of the database. -/
structure Rankers (F : Type) where
  limits : Limits
  /-- {lit}`MATCH ... ORDER BY bm25 LIMIT`: rowids, best first; none on a bad query. -/
  ftsMatch : List (Nat × String) -> String -> Nat -> List Nat
  /-- {lit}`MATCH ... ORDER BY distance LIMIT`: rowids, nearest first. -/
  vecMatch : Vec0 F -> List F -> Nat -> List Nat

/-- Largest value of {lit}`usize`. -/
def usizeMax : Nat := 2 ^ 64 - 1

def fetchK (config : RetrievalConfig F) (k : Nat) : Nat :=
  max (min (k * max config.fetchMultiplier 1) usizeMax) k

namespace Tables

/-!
## Filters
-/

/-- Tag rows of the memory that are among the requested tags. -/
def matchedTags (t : Tables F) (tags : List String) (id : MemoryId) : List String :=
  (t.memoryTags.keys.filter (fun k => decide (k.1 = id) && decide (k.2 ∈ tags))).map Prod.snd

/-- Any tag, or as many distinct tags as were requested. -/
def idsTagged (t : Tables F) (tags : List String) (or : Bool) : List MemoryId :=
  let ids := ((t.memoryTags.keys.filter (fun k => decide (k.2 ∈ tags))).map Prod.fst).dedup
  if or then ids
  else ids.filter (fun id => decide ((t.matchedTags tags id).length = tags.length))

/-- One variable for each tag, and one for their number when all are required. -/
def tagVariables (tags : List String) (or : Bool) : Nat := tags.length + if or then 0 else 1

def idsMatchingTags (limits : Limits) (t : Tables F) (tags : List String) (or : Bool) :
    Except MenteError (List MemoryId) :=
  if tags.isEmpty then Except.ok []
  else limits.query (tagVariables tags or) (t.idsTagged tags or)

/-- {lit}`created_at` in the closed range, compared as signed integers. -/
def idsMatchingTime (t : Tables F) (start stop : Timestamp) : List MemoryId :=
  (t.memories.rows.entries.filter (fun e =>
    sqlLe start e.2.createdAt && sqlLe e.2.createdAt stop)).map Prod.fst

def candidateSet (limits : Limits) (t : Tables F) (tags : Option (List String)) (tagsOr : Bool)
    (timeRange : Option (Timestamp × Timestamp)) : Except MenteError (Option (List MemoryId)) :=
  match tags, timeRange with
  | none, none => Except.ok none
  | some tags, none => (t.idsMatchingTags limits tags tagsOr).map some
  | none, some (start, stop) => Except.ok (some (t.idsMatchingTime start stop))
  | some tags, some (start, stop) =>
      (t.idsMatchingTags limits tags tagsOr).map (fun ids =>
        some (ids.filter (fun id => decide (id ∈ t.idsMatchingTime start stop))))

/-!
## Candidates
-/

section Candidates

variable [Arith F]

/-- Exact ranking of the candidates with an embedding; the row order of the
query is unspecified. -/
def nearestAmong (o : HashOrder) (t : Tables F) (query : List F)
    (candidates : List MemoryId) (k : Nat) : List MemoryId :=
  let scored := t.memories.rows.entries.filterMap (fun e =>
    match e.2.embedding with
    | none => none
    | some v =>
        if e.1 ∈ candidates then some (e.1, dot (normalize query) (normalize v)) else none)
  ((rank (o.order scored)).take k).map Prod.fst

/-- One variable for each candidate. -/
def vectorSearchFiltered (limits : Limits) (o : HashOrder) (t : Tables F) (query : List F)
    (candidates : List MemoryId) (k : Nat) : Except MenteError (List MemoryId) :=
  if candidates = [] ∨ k = 0 then Except.ok []
  else limits.query candidates.length (t.nearestAmong o query candidates k)

def knn (rankers : Rankers F) (t : Tables F) (dim : Nat) (query : List F) (k : Nat) :
    List MemoryId :=
  if k = 0 ∨ query = [] ∨ dim = 0 then []
  else
    match t.memoryVec with
    | none => []
    | some v => (rankers.vecMatch v (normalize query) k).filterMap t.memories.idOfRowid

omit [Arith F] in
def ftsSearch (rankers : Rankers F) (t : Tables F) (query : String) (k : Nat) :
    List MemoryId :=
  (rankers.ftsMatch t.memories.fts query k).filterMap t.memories.idOfRowid

/-- Adds the reciprocal rank of every hit to its score. -/
def fuse (rrfK : F) (scores : Assoc MemoryId F) (hits : List MemoryId) : Assoc MemoryId F :=
  hits.zipIdx.foldl (fun scores hit =>
    scores.upsert hit.1 (fun old => old.getD 0 + 1 / (rrfK + (hit.2 : F)))) scores

/-!
## The search
-/

def combinedScore (config : RetrievalConfig F) (t : Tables F) (id : MemoryId) (rrf : F) : F :=
  rrf * config.rrfWeight + (t.salienceOf id).getD (ratio 1 2) * config.salienceWeight
    + config.recencyPrior * config.recencyWeight

/-- Candidates by embedding: exact over the filtered set, nearest neighbours without one. -/
def vectorHits (rankers : Rankers F) (o : HashOrder) (t : Tables F) (dim : Nat)
    (queryEmbedding : List F) (candidates : Option (List MemoryId)) (k : Nat) :
    Except MenteError (List MemoryId) :=
  match candidates with
  | some cs => t.vectorSearchFiltered rankers.limits o queryEmbedding cs k
  | none => Except.ok (t.knn rankers dim queryEmbedding k)

omit [Arith F] in
def bm25Hits (rankers : Rankers F) (t : Tables F) (queryText : Option String) (k : Nat) :
    List MemoryId :=
  match queryText with
  | some text => if text.isEmpty then [] else t.ftsSearch rankers text k
  | none => []

/-- Drops what the filters exclude and adds the boosts to the fused scores. -/
def scoreFused (config : RetrievalConfig F) (t : Tables F)
    (candidates : Option (List MemoryId)) (fused : List (MemoryId × F)) :
    List (MemoryId × F) :=
  fused.filterMap (fun e =>
    if candidates.any (fun cs => !decide (e.1 ∈ cs)) then none
    else some (e.1, combinedScore config t e.1 e.2))

/-- What a search makes of its two hit lists. -/
def finishSearch (o : HashOrder) (config : RetrievalConfig F) (t : Tables F)
    (candidates : Option (List MemoryId)) (k : Nat) (vector bm25 : List MemoryId) :
    List (MemoryId × F) :=
  if vector = [] ∧ bm25 = [] then []
  else
    let rrf := fuse config.rrfK (fuse config.rrfK Assoc.empty vector) bm25
    (rank (scoreFused config t candidates (o.order rrf.entries))).take k

def hybridSearchWithQueryMode (rankers : Rankers F) (o : HashOrder)
    (config : RetrievalConfig F) (t : Tables F) (dim : Nat) (queryEmbedding : List F)
    (queryText : Option String) (tags : Option (List String)) (tagsOr : Bool)
    (timeRange : Option (Timestamp × Timestamp)) (k : Nat) :
    Except MenteError (List (MemoryId × F)) :=
  if k = 0 ∨ queryEmbedding = [] then Except.ok []
  else do
    let candidates ← t.candidateSet rankers.limits tags tagsOr timeRange
    if candidates = some [] then Except.ok []
    else do
      let vector ← t.vectorHits rankers o dim queryEmbedding candidates (fetchK config k)
      Except.ok (finishSearch o config t candidates k vector
        (t.bm25Hits rankers queryText (fetchK config k)))

def hybridSearch (rankers : Rankers F) (o : HashOrder) (config : RetrievalConfig F)
    (t : Tables F) (dim : Nat) (queryEmbedding : List F) (tags : Option (List String))
    (timeRange : Option (Timestamp × Timestamp)) (k : Nat) :
    Except MenteError (List (MemoryId × F)) :=
  t.hybridSearchWithQueryMode rankers o config dim queryEmbedding none tags false timeRange k

/-- A search without filters. -/
def openSearch (rankers : Rankers F) (o : HashOrder) (config : RetrievalConfig F)
    (t : Tables F) (dim : Nat) (queryEmbedding : List F) (queryText : Option String) (k : Nat) :
    List (MemoryId × F) :=
  if k = 0 ∨ queryEmbedding = [] then []
  else
    finishSearch o config t none k (t.knn rankers dim queryEmbedding (fetchK config k))
      (t.bm25Hits rankers queryText (fetchK config k))

/-- Nothing is refused without filters. -/
theorem hybridSearchWithQueryMode_open (rankers : Rankers F) (o : HashOrder)
    (config : RetrievalConfig F) (t : Tables F) (dim : Nat) (queryEmbedding : List F)
    (queryText : Option String) (tagsOr : Bool) (k : Nat) :
    t.hybridSearchWithQueryMode rankers o config dim queryEmbedding queryText none tagsOr none k =
      Except.ok (t.openSearch rankers o config dim queryEmbedding queryText k) := by
  unfold hybridSearchWithQueryMode openSearch
  split <;> rfl

end Candidates

/-!
## Every hit is stored
-/

theorem idOfRowid_contains {t : Tables F} {rowid : Nat} {id : MemoryId}
    (h : t.memories.idOfRowid rowid = some id) : t.memories.contains id = true := by
  rcases Option.map_eq_some_iff.mp h with ⟨e, he, hid⟩
  subst hid
  exact Assoc.contains_iff_mem_keys.mpr (List.mem_map_of_mem (List.mem_of_find?_eq_some he))

theorem ftsSearch_stored {rankers : Rankers F} {t : Tables F} {query : String} {k : Nat}
    {id : MemoryId} (h : id ∈ t.ftsSearch rankers query k) :
    t.memories.contains id = true := by
  rcases List.mem_filterMap.mp h with ⟨rowid, _, hid⟩
  exact idOfRowid_contains hid

section Stored

variable [Arith F]

theorem knn_stored {rankers : Rankers F} {t : Tables F} {dim : Nat} {query : List F} {k : Nat}
    {id : MemoryId} (h : id ∈ t.knn rankers dim query k) : t.memories.contains id = true := by
  unfold knn at h
  split at h
  · cases h
  · split at h
    · cases h
    · rcases List.mem_filterMap.mp h with ⟨rowid, _, hid⟩
      exact idOfRowid_contains hid

theorem mem_nearestAmong {o : HashOrder} {t : Tables F} {query : List F} {cs : List MemoryId}
    {k : Nat} {id : MemoryId} (h : id ∈ t.nearestAmong o query cs k) :
    t.memories.contains id = true ∧ id ∈ cs := by
  rcases List.mem_map.mp h with ⟨hit, hhit, hid⟩
  have hscored := mem_rank.mp (List.mem_of_mem_take hhit)
  rw [HashOrder.mem_order] at hscored
  rcases List.mem_filterMap.mp hscored with ⟨e, he, hsome⟩
  split at hsome
  · cases hsome
  · split at hsome
    · rename_i hcandidate
      cases hsome
      rw [← hid]
      exact ⟨Assoc.contains_iff_mem_keys.mpr (List.mem_map_of_mem he), hcandidate⟩
    · cases hsome

/-- What is answered is the ranking. -/
theorem vectorSearchFiltered_eq (limits : Limits) (o : HashOrder) (t : Tables F)
    (query : List F) (cs : List MemoryId) (k : Nat) :
    t.vectorSearchFiltered limits o query cs k =
      limits.query (if cs = [] ∨ k = 0 then 0 else cs.length) (t.nearestAmong o query cs k) := by
  unfold vectorSearchFiltered
  split
  · rename_i hnone
    have hempty : t.nearestAmong o query cs k = [] := by
      rcases hnone with hcs | hk
      · apply List.eq_nil_iff_forall_not_mem.mpr
        intro id hid
        rw [hcs] at hid
        cases (mem_nearestAmong hid).2
      · rw [hk]
        rfl
    rw [hempty]
    exact (if_pos (Nat.zero_le _)).symm
  · rfl

theorem vectorSearchFiltered_eq_ok {limits : Limits} {o : HashOrder} {t : Tables F}
    {query : List F} {cs : List MemoryId} {k : Nat} {hits : List MemoryId}
    (h : t.vectorSearchFiltered limits o query cs k = Except.ok hits) :
    hits = t.nearestAmong o query cs k := by
  rw [vectorSearchFiltered_eq] at h
  exact (Limits.query_eq_ok h).2

theorem vectorSearchFiltered_of_le {limits : Limits} {o : HashOrder} {t : Tables F}
    {query : List F} {cs : List MemoryId} {k : Nat} (h : cs.length <= limits.variableNumber) :
    t.vectorSearchFiltered limits o query cs k = Except.ok (t.nearestAmong o query cs k) := by
  rw [vectorSearchFiltered_eq]
  refine if_pos ?_
  split
  · exact Nat.zero_le _
  · exact h

theorem mem_keys_fuse {rrfK : F} {scores : Assoc MemoryId F} {hits : List MemoryId}
    {id : MemoryId} (h : id ∈ (fuse rrfK scores hits).keys) :
    id ∈ scores.keys ∨ id ∈ hits := by
  have hfold : forall (xs : List (MemoryId × Nat)) (s : Assoc MemoryId F),
      id ∈ (xs.foldl (fun scores hit => scores.upsert hit.1
        (fun old => old.getD 0 + 1 / (rrfK + (hit.2 : F)))) s).keys ->
      id ∈ s.keys ∨ id ∈ xs.map Prod.fst := by
    intro xs
    induction xs with
    | nil =>
        intro s hs
        exact Or.inl hs
    | cons x rest ih =>
        intro s hs
        cases ih _ hs with
        | inl hkeys =>
            rw [← Assoc.contains_iff_mem_keys, Assoc.contains_upsert] at hkeys
            simp only [Bool.or_eq_true, decide_eq_true_eq, Assoc.contains_iff_mem_keys] at hkeys
            cases hkeys with
            | inl heq => exact Or.inr (by simp [heq])
            | inr hold => exact Or.inl hold
        | inr hrest => exact Or.inr (List.mem_cons_of_mem _ hrest)
  cases hfold hits.zipIdx scores h with
  | inl hkeys => exact Or.inl hkeys
  | inr hhits =>
      rw [List.zipIdx_map_fst] at hhits
      exact Or.inr hhits

theorem vectorHits_stored {rankers : Rankers F} {o : HashOrder} {t : Tables F} {dim : Nat}
    {queryEmbedding : List F} {candidates : Option (List MemoryId)} {k : Nat}
    {hits : List MemoryId}
    (hhits : t.vectorHits rankers o dim queryEmbedding candidates k = Except.ok hits)
    {id : MemoryId} (h : id ∈ hits) : t.memories.contains id = true := by
  cases candidates with
  | some cs =>
      rw [vectorSearchFiltered_eq_ok hhits] at h
      exact (mem_nearestAmong h).1
  | none =>
      cases hhits
      exact knn_stored h

omit [Arith F] in
theorem bm25Hits_stored {rankers : Rankers F} {t : Tables F} {queryText : Option String}
    {k : Nat} {id : MemoryId} (h : id ∈ t.bm25Hits rankers queryText k) :
    t.memories.contains id = true := by
  cases queryText with
  | none => cases h
  | some text =>
      unfold bm25Hits at h
      simp only at h
      split at h
      · cases h
      · exact ftsSearch_stored h

/-- A result comes from one of the two lists, and is a candidate of the filters. -/
theorem sources_of_mem_finishSearch {o : HashOrder} {config : RetrievalConfig F} {t : Tables F}
    {candidates : Option (List MemoryId)} {k : Nat} {vector bm25 : List MemoryId}
    {hit : MemoryId × F} (h : hit ∈ finishSearch o config t candidates k vector bm25) :
    (hit.1 ∈ vector ∨ hit.1 ∈ bm25) ∧ forall cs, candidates = some cs -> hit.1 ∈ cs := by
  unfold finishSearch at h
  split at h
  · cases h
  · have hscored := mem_rank.mp (List.mem_of_mem_take h)
    rcases List.mem_filterMap.mp hscored with ⟨e, he, hsome⟩
    rw [HashOrder.mem_order] at he
    split at hsome
    · cases hsome
    · rename_i hallowed
      cases hsome
      refine ⟨?_, ?_⟩
      · rcases mem_keys_fuse (List.mem_map_of_mem he) with hkeys | hbm25
        · rcases mem_keys_fuse hkeys with hempty | hvector
          · cases hempty
          · exact Or.inl hvector
        · exact Or.inr hbm25
      · intro cs hcs
        rw [hcs] at hallowed
        simpa using hallowed

/-- A search that is answered ranks its two hit lists, or finds nothing. -/
theorem hybridSearchWithQueryMode_eq_ok {rankers : Rankers F} {o : HashOrder}
    {config : RetrievalConfig F} {t : Tables F} {dim : Nat} {queryEmbedding : List F}
    {queryText : Option String} {tags : Option (List String)} {tagsOr : Bool}
    {timeRange : Option (Timestamp × Timestamp)} {k : Nat} {hits : List (MemoryId × F)}
    (h : t.hybridSearchWithQueryMode rankers o config dim queryEmbedding queryText tags
      tagsOr timeRange k = Except.ok hits) :
    hits = [] ∨ exists candidates vector,
      t.candidateSet rankers.limits tags tagsOr timeRange = Except.ok candidates ∧
        t.vectorHits rankers o dim queryEmbedding candidates (fetchK config k) =
          Except.ok vector ∧
        hits = finishSearch o config t candidates k vector
          (t.bm25Hits rankers queryText (fetchK config k)) := by
  unfold hybridSearchWithQueryMode at h
  split at h
  · cases h
    exact Or.inl rfl
  · rcases except_bind_ok h with ⟨candidates, hcands, h⟩
    split at h
    · cases h
      exact Or.inl rfl
    · rcases except_bind_ok h with ⟨vector, hvector, h⟩
      cases h
      exact Or.inr ⟨candidates, vector, hcands, hvector, rfl⟩

/-- What is known of a hit: it is stored and is a candidate of the filters. -/
theorem hybridSearchWithQueryMode_spec {rankers : Rankers F} {o : HashOrder}
    {config : RetrievalConfig F} {t : Tables F} {dim : Nat} {queryEmbedding : List F}
    {queryText : Option String} {tags : Option (List String)} {tagsOr : Bool}
    {timeRange : Option (Timestamp × Timestamp)} {k : Nat} {hits : List (MemoryId × F)}
    (h : t.hybridSearchWithQueryMode rankers o config dim queryEmbedding queryText tags
      tagsOr timeRange k = Except.ok hits) {hit : MemoryId × F} (hhit : hit ∈ hits) :
    t.memories.contains hit.1 = true ∧ exists candidates,
      t.candidateSet rankers.limits tags tagsOr timeRange = Except.ok candidates ∧
        forall cs, candidates = some cs -> hit.1 ∈ cs := by
  rcases hybridSearchWithQueryMode_eq_ok h with hnone | ⟨candidates, vector, hcands, hvector, heq⟩
  · rw [hnone] at hhit
    cases hhit
  · rw [heq] at hhit
    have hsources := sources_of_mem_finishSearch hhit
    refine ⟨?_, candidates, hcands, hsources.2⟩
    rcases hsources.1 with hfound | hbm25
    · exact vectorHits_stored hvector hfound
    · exact bm25Hits_stored hbm25

theorem mem_openSearch {rankers : Rankers F} {o : HashOrder} {config : RetrievalConfig F}
    {t : Tables F} {dim : Nat} {query : List F} {queryText : Option String} {k : Nat}
    {hit : MemoryId × F} (h : hit ∈ t.openSearch rankers o config dim query queryText k) :
    hit.1 ∈ t.knn rankers dim query (fetchK config k) ∨
      hit.1 ∈ t.bm25Hits rankers queryText (fetchK config k) := by
  unfold openSearch at h
  split at h
  · cases h
  · exact (sources_of_mem_finishSearch h).1

end Stored

/-!
## Every hit passes the filters
-/

theorem mem_matchedTags {t : Tables F} {tags : List String} {id : MemoryId} {tag : String} :
    tag ∈ t.matchedTags tags id <-> t.memoryTags.contains (id, tag) = true ∧ tag ∈ tags := by
  unfold matchedTags
  rw [Assoc.contains_iff_mem_keys]
  simp only [List.mem_map, List.mem_filter, Bool.and_eq_true, decide_eq_true_eq, Prod.exists,
    exists_eq_right]
  constructor
  · intro h
    rcases h with ⟨k, hk, hid, htag⟩
    subst hid
    exact ⟨hk, htag⟩
  · intro h
    exact ⟨id, h.1, rfl, h.2⟩

theorem nodup_matchedTags (t : Tables F) (tags : List String) (id : MemoryId) :
    (t.matchedTags tags id).Nodup := by
  have hkeys : t.memoryTags.keys.Nodup := t.memoryTags.nodup
  refine List.Nodup.map_on ?_ (hkeys.filter _)
  intro a ha b hb hab
  have hpa := (List.mem_filter.mp ha).2
  have hpb := (List.mem_filter.mp hb).2
  simp only [Bool.and_eq_true, decide_eq_true_eq] at hpa hpb
  exact Prod.ext (hpa.1.trans hpb.1.symm) hab

/-- As many distinct matches as requested tags means that all are matched. -/
theorem all_tags_of_matchedTags {t : Tables F} {tags : List String} {id : MemoryId}
    (h : (t.matchedTags tags id).length = tags.length) {tag : String} (htag : tag ∈ tags) :
    t.memoryTags.contains (id, tag) = true := by
  have hsub : (t.matchedTags tags id).toFinset ⊆ tags.toFinset := by
    intro x hx
    rw [List.mem_toFinset] at hx ⊢
    exact (mem_matchedTags.mp hx).2
  have hcard : tags.toFinset.card <= (t.matchedTags tags id).toFinset.card := by
    rw [List.toFinset_card_of_nodup (nodup_matchedTags t tags id), h]
    exact List.toFinset_card_le tags
  have heq := Finset.eq_of_subset_of_card_le hsub hcard
  have hmem : tag ∈ (t.matchedTags tags id).toFinset := by
    rw [heq, List.mem_toFinset]
    exact htag
  exact (mem_matchedTags.mp (List.mem_toFinset.mp hmem)).1

theorem idsMatchingTags_eq_ok {limits : Limits} {t : Tables F} {tags : List String} {or : Bool}
    {ids : List MemoryId} (h : t.idsMatchingTags limits tags or = Except.ok ids) :
    ids = if tags = [] then [] else t.idsTagged tags or := by
  unfold idsMatchingTags at h
  simp only [List.isEmpty_iff] at h
  split at h
  · rename_i hnone
    cases h
    exact (if_pos hnone).symm
  · rename_i hsome
    rw [if_neg hsome]
    exact (Limits.query_eq_ok h).2

theorem mem_idsMatchingTags {limits : Limits} {t : Tables F} {tags : List String} {or : Bool}
    {ids : List MemoryId} (hids : t.idsMatchingTags limits tags or = Except.ok ids)
    {id : MemoryId} (h : id ∈ ids) :
    tags ≠ [] ∧
      if or then exists tag, tag ∈ tags ∧ t.memoryTags.contains (id, tag) = true
      else forall tag, tag ∈ tags -> t.memoryTags.contains (id, tag) = true := by
  rw [idsMatchingTags_eq_ok hids] at h
  split at h
  · cases h
  · rename_i hne
    refine ⟨hne, ?_⟩
    cases or with
    | true =>
        have hmem := List.mem_dedup.mp h
        rcases List.mem_map.mp hmem with ⟨k, hk, hid⟩
        subst hid
        have hparts := List.mem_filter.mp hk
        exact ⟨k.2, by simpa using hparts.2, Assoc.contains_iff_mem_keys.mpr hparts.1⟩
    | false =>
        have hcount := (List.mem_filter.mp h).2
        intro tag htag
        exact all_tags_of_matchedTags (by simpa using hcount) htag

theorem toInt_toInt64 (x : Timestamp) :
    x.toInt64.toInt =
      if x.toNat < 2 ^ 63 then (x.toNat : Int) else (x.toNat : Int) - 2 ^ 64 := by
  show x.toBitVec.toInt = _
  rw [BitVec.toInt_eq_toNat_cond]
  have hx : x.toBitVec.toNat = x.toNat := rfl
  rw [hx]
  split <;> split <;> omega

theorem sqlLe_iff {a b : Timestamp} :
    sqlLe a b = true <->
      (if a.toNat < 2 ^ 63 then (a.toNat : Int) else (a.toNat : Int) - 2 ^ 64) <=
        if b.toNat < 2 ^ 63 then (b.toNat : Int) else (b.toNat : Int) - 2 ^ 64 := by
  unfold sqlLe
  rw [decide_eq_true_eq, Int64.le_iff_toInt_le, toInt_toInt64, toInt_toInt64]

/-- The signed comparison agrees with the unsigned one above a bound below {lit}`2^63`. -/
theorem le_of_sqlLe {a b : Timestamp} (ha : a.toNat < 2 ^ 63) (h : sqlLe a b = true) :
    a <= b ∧ b.toNat < 2 ^ 63 := by
  rw [sqlLe_iff, if_pos ha] at h
  have hb := b.toNat_lt
  split at h
  · rename_i hlt
    exact ⟨UInt64.le_iff_toNat_le.mpr (by omega), hlt⟩
  · omega

theorem mem_idsMatchingTime {t : Tables F} {start stop : Timestamp} {id : MemoryId}
    (hstart : start.toNat < 2 ^ 63) (h : id ∈ t.idsMatchingTime start stop) :
    exists row, t.memories.find? id = some row ∧ start <= row.createdAt ∧
      row.createdAt <= stop := by
  rcases List.mem_map.mp h with ⟨e, he, hid⟩
  subst hid
  have hparts := List.mem_filter.mp he
  simp only [Bool.and_eq_true] at hparts
  have hlow := le_of_sqlLe hstart hparts.2.1
  exact ⟨e.2, Assoc.find?_eq_some_iff.mpr hparts.1, hlow.1,
    (le_of_sqlLe hlow.2 hparts.2.2).1⟩

/-- A candidate passes the tag filter and the time filter. -/
theorem mem_candidateSet {limits : Limits} {t : Tables F} {tags : Option (List String)}
    {tagsOr : Bool} {timeRange : Option (Timestamp × Timestamp)}
    {candidates : Option (List MemoryId)}
    (hcands : t.candidateSet limits tags tagsOr timeRange = Except.ok candidates) {id : MemoryId}
    (h : forall cs, candidates = some cs -> id ∈ cs) :
    (forall ts, tags = some ts -> exists ids,
      t.idsMatchingTags limits ts tagsOr = Except.ok ids ∧ id ∈ ids) ∧
      (forall start stop, timeRange = some (start, stop) ->
        id ∈ t.idsMatchingTime start stop) := by
  unfold candidateSet at hcands
  split at hcands
  · exact ⟨nofun, nofun⟩
  · rcases except_map_ok hcands with ⟨ids, hids, hsome⟩
    refine ⟨?_, nofun⟩
    intro ts hts
    cases hts
    exact ⟨ids, hids, h ids hsome.symm⟩
  · cases hcands
    refine ⟨nofun, ?_⟩
    intro start stop hrange
    cases hrange
    exact h _ rfl
  · rcases except_map_ok hcands with ⟨ids, hids, hsome⟩
    have hparts := List.mem_filter.mp (h _ hsome.symm)
    refine ⟨?_, ?_⟩
    · intro ts hts
      cases hts
      exact ⟨ids, hids, hparts.1⟩
    · intro start stop hrange
      cases hrange
      simpa using hparts.2

end Tables
end Sqlite
end MenteDb
