import MenteDb.Sqlite.Nearest
import MenteDb.Foundation.Tally

/-!
# Fused scores

The scores of a search collect in a hash table that is drained in no particular order.
Here they are listed as a function of the two hit lists, without a table.  The order of the
hash table can be seen in the result only where two of these scores are equal.
-/

namespace MenteDb
namespace Sqlite
namespace Tables

open Foundation

variable {F : Type} [Arith F]

/-!
## The scores of a search
-/

/-- What each place in a hit list counts. -/
def reciprocalRanks (rrfK : F) (hits : List MemoryId) : List (MemoryId × F) :=
  hits.zipIdx.map (fun hit => (hit.1, 1 / (rrfK + (hit.2 : F))))

/-- Each memory found, once, with the score of its places in the two hit lists, added in
this order. -/
def fusedScores (config : RetrievalConfig F) (t : Tables F)
    (candidates : Option (List MemoryId)) (vector bm25 : List MemoryId) :
    List (MemoryId × F) :=
  scoreFused config t candidates
    (accumulated (fun old x => old.getD 0 + x)
      (reciprocalRanks config.rrfK vector ++ reciprocalRanks config.rrfK bm25))

/-- The arguments of one search. -/
structure SearchQuery (F : Type) where
  embedding : List F
  text : Option String
  tags : Option (List String)
  tagsOr : Bool
  timeRange : Option (Timestamp × Timestamp)

/-- Similarities of the memories the filters allow. -/
def similaritiesAmong (t : Tables F) (query : List F) (cs : List MemoryId) :
    List (MemoryId × F) :=
  (t.similarities query).filter (fun s => decide (s.1 ∈ cs))

/-- Candidates by embedding, where equal similarities are taken in the order of the rows. -/
def vectorList (rankers : Rankers F) (config : RetrievalConfig F) (t : Tables F) (dim : Nat)
    (query : SearchQuery F) (candidates : Option (List MemoryId)) (k : Nat) : List MemoryId :=
  match candidates with
  | some cs => ((rank (t.similaritiesAmong query.embedding cs)).take (fetchK config k)).map
      Prod.fst
  | none => t.knn rankers dim query.embedding (fetchK config k)

/-- The scores a search ranks; none where the filters cannot be read. -/
def searchScores (rankers : Rankers F) (config : RetrievalConfig F) (t : Tables F) (dim : Nat)
    (query : SearchQuery F) (k : Nat) : List (MemoryId × F) :=
  match t.candidateSet rankers.limits query.tags query.tagsOr query.timeRange with
  | Except.error _ => []
  | Except.ok candidates =>
      if k = 0 ∨ query.embedding = [] then []
      else
        fusedScores config t candidates (vectorList rankers config t dim query candidates k)
          (t.bm25Hits rankers query.text (fetchK config k))

/-- No two memories compete with one similarity for a place among the hits. -/
def SimilaritiesSettled (rankers : Rankers F) (config : RetrievalConfig F) (t : Tables F)
    (query : SearchQuery F) (k : Nat) : Prop :=
  forall cs, t.candidateSet rankers.limits query.tags query.tagsOr query.timeRange =
      Except.ok (some cs) ->
    Settled (fetchK config k) (t.similaritiesAmong query.embedding cs)

/-- Equal scores are behind the first {lit}`k`. -/
structure SearchSettled (rankers : Rankers F) (config : RetrievalConfig F) (t : Tables F)
    (dim : Nat) (query : SearchQuery F) (k : Nat) : Prop where
  similarities : SimilaritiesSettled rankers config t query k
  scores : Settled k (searchScores rankers config t dim query k)

/-!
## The table of fused scores
-/

theorem accumulates_fuse (rrfK : F) {scores : Assoc MemoryId F} {xs : List (MemoryId × F)}
    (h : Accumulates (fun old x => old.getD 0 + x) scores xs) (hits : List MemoryId) :
    Accumulates (fun old x => old.getD 0 + x) (fuse rrfK scores hits)
      (xs ++ reciprocalRanks rrfK hits) := by
  have hfold : fuse rrfK scores hits = (reciprocalRanks rrfK hits).foldl
      (fun scores x => scores.upsert x.1 (fun old => old.getD 0 + x.2)) scores := by
    unfold fuse reciprocalRanks
    rw [List.foldl_map]
  rw [hfold]
  exact h.foldl (fun _ _ => rfl) _

/-- The scores drained from the table are those of the two hit lists. -/
theorem scoreFused_perm_fusedScores (config : RetrievalConfig F) (t : Tables F)
    (candidates : Option (List MemoryId)) (vector bm25 : List MemoryId) :
    (scoreFused config t candidates (fuse config.rrfK
      (fuse config.rrfK Assoc.empty vector) bm25).entries).Perm
        (fusedScores config t candidates vector bm25) :=
  scoreFused_perm (accumulates_fuse config.rrfK
    (accumulates_fuse config.rrfK accumulates_empty vector) bm25).entries_perm

theorem nodup_scoreFused {config : RetrievalConfig F} {t : Tables F}
    {candidates : Option (List MemoryId)} {fused : List (MemoryId × F)}
    (h : (fused.map Prod.fst).Nodup) :
    ((scoreFused config t candidates fused).map Prod.fst).Nodup := by
  have hkeys : (scoreFused config t candidates fused).map Prod.fst =
      (fused.filter (fun e => !candidates.any (fun cs => !decide (e.1 ∈ cs)))).map Prod.fst := by
    unfold scoreFused
    rw [List.map_filterMap, ← List.filterMap_eq_map, List.filterMap_filter]
    refine List.filterMap_congr ?_
    intro e _
    cases candidates.any (fun cs => !decide (e.1 ∈ cs)) <;> rfl
  rw [hkeys]
  exact h.sublist (List.filter_sublist.map Prod.fst)

/-!
## The order of the hash tables
-/

/-- The candidates by embedding are refused in every order, or the same in every order. -/
theorem vectorHits_cases {rankers : Rankers F} {config : RetrievalConfig F} {t : Tables F}
    {query : SearchQuery F} {k : Nat} (h : SimilaritiesSettled rankers config t query k)
    {candidates : Option (List MemoryId)} (hcands : t.candidateSet rankers.limits query.tags
      query.tagsOr query.timeRange = Except.ok candidates) (dim : Nat) :
    (exists e, forall o, t.vectorHits rankers o dim query.embedding candidates
      (fetchK config k) = Except.error e) ∨
    forall o, t.vectorHits rankers o dim query.embedding candidates (fetchK config k) =
      Except.ok (vectorList rankers config t dim query candidates k) := by
  cases candidates with
  | none => exact Or.inr (fun _ => rfl)
  | some cs =>
      have hsame : forall o, t.nearestAmong o query.embedding cs (fetchK config k) =
          vectorList rankers config t dim query (some cs) k := by
        intro o
        rcases topOf_nearestAmong o t query.embedding cs (fetchK config k) with
          ⟨top, htop, heq⟩
        have hrank := topOf_rank (fetchK config k) (t.similaritiesAmong query.embedding cs)
        exact heq.trans (congrArg _ (htop.eq_of_settled hrank (h cs hcands)))
      simp only [vectorHits, vectorSearchFiltered_eq, hsame]
      generalize (if cs = [] ∨ fetchK config k = 0 then 0 else cs.length) = count
      by_cases hfits : count <= rankers.limits.variableNumber
      · exact Or.inr (fun _ => if_pos hfits)
      · exact Or.inl ⟨_, fun _ => if_neg hfits⟩

/-- A search fails in every order, or returns the first of its scores in each. -/
theorem hybridSearchWithQueryMode_cases {rankers : Rankers F} {config : RetrievalConfig F}
    {t : Tables F} {query : SearchQuery F} {k : Nat}
    (h : SimilaritiesSettled rankers config t query k) (dim : Nat) :
    (exists e, forall o, t.hybridSearchWithQueryMode rankers o config dim query.embedding
      query.text query.tags query.tagsOr query.timeRange k = Except.error e) ∨
    forall o, exists hits, t.hybridSearchWithQueryMode rankers o config dim query.embedding
      query.text query.tags query.tagsOr query.timeRange k = Except.ok hits ∧
        TopOf k (searchScores rankers config t dim query k) hits := by
  have hnil : TopOf k ([] : List (MemoryId × F)) [] :=
    ⟨[], List.Perm.refl [], List.Pairwise.nil, List.take_nil.symm⟩
  unfold searchScores hybridSearchWithQueryMode
  by_cases hempty : k = 0 ∨ query.embedding = []
  · refine Or.inr (fun _ => ⟨[], if_pos hempty, ?_⟩)
    simp only [if_pos hempty]
    split <;> exact hnil
  simp only [if_neg hempty]
  cases hcands : t.candidateSet rankers.limits query.tags query.tagsOr query.timeRange with
  | error e => exact Or.inl ⟨e, fun _ => rfl⟩
  | ok candidates =>
      by_cases hnone : candidates = some []
      · -- a filter that allows nothing leaves no score
        refine Or.inr (fun _ => ⟨[], if_pos hnone, ?_⟩)
        have hscores : forall vector bm25, fusedScores config t candidates vector bm25 = [] := by
          intro vector bm25
          simp [fusedScores, scoreFused, hnone]
        simp only [hscores]
        exact hnil
      rcases vectorHits_cases h hcands dim with ⟨e, hfail⟩ | hvector
      · refine Or.inl ⟨e, fun o => ?_⟩
        show (if candidates = some [] then _ else _) = _
        rw [if_neg hnone, hfail o]
        rfl
      · refine Or.inr (fun o => ⟨finishSearch o config t candidates k
          (vectorList rankers config t dim query candidates k)
          (t.bm25Hits rankers query.text (fetchK config k)), ?_, ?_⟩)
        · show (if candidates = some [] then _ else _) = _
          rw [if_neg hnone, hvector o]
          rfl
        · show TopOf k (fusedScores config t candidates _ _)
            (finishSearch o config t candidates k _ _)
          unfold finishSearch
          split
          · rename_i hhits
            have hscores : fusedScores config t candidates [] [] = [] := rfl
            rw [hhits.1, hhits.2, hscores]
            exact hnil
          · exact (topOf_rank k _).perm
              ((scoreFused_perm (o.perm _)).trans (scoreFused_perm_fusedScores config t _ _ _))

theorem nodup_searchScores (rankers : Rankers F) (config : RetrievalConfig F) (t : Tables F)
    (dim : Nat) (query : SearchQuery F) (k : Nat) :
    ((searchScores rankers config t dim query k).map Prod.fst).Nodup := by
  unfold searchScores
  split
  · exact List.nodup_nil
  · split
    · exact List.nodup_nil
    · exact nodup_scoreFused (nodup_accumulated _ _)

/-- Where the first scores are pairwise different, the order of the hash tables is not seen. -/
theorem hybridSearchWithQueryMode_eq {rankers : Rankers F} {config : RetrievalConfig F}
    {t : Tables F} {dim : Nat} {query : SearchQuery F} {k : Nat}
    (h : SearchSettled rankers config t dim query k) (o o' : HashOrder) :
    t.hybridSearchWithQueryMode rankers o config dim query.embedding query.text query.tags
        query.tagsOr query.timeRange k =
      t.hybridSearchWithQueryMode rankers o' config dim query.embedding query.text query.tags
        query.tagsOr query.timeRange k := by
  rcases hybridSearchWithQueryMode_cases h.similarities dim with ⟨e, hfail⟩ | hanswer
  · rw [hfail o, hfail o']
  · rcases hanswer o with ⟨hits, hhits, htop⟩
    rcases hanswer o' with ⟨hits', hhits', htop'⟩
    rw [hhits, hhits', htop.eq_of_settled htop' h.scores]

end Tables
end Sqlite
end MenteDb
