import MenteDb.Facade.RecallOrder
import MenteDb.Foundation.RankFusion

/-!
# Recall with several queries

Each query is a recall of its own, and fails with it.  What they find is merged by the
reciprocals of the places.
-/

namespace MenteDb
namespace Facade

open Foundation
open Sqlite
open Sqlite.Tables

variable {F : Type}

section Queries

variable [Arith F]

/-- The embeddings, each with the text at its place when there is one. -/
def pairQueries (embeddings : List (List F)) (queryTexts : Option (List String)) :
    List (List F × Option String) :=
  embeddings.zipIdx.map (fun e => (e.1, queryTexts.bind (fun texts => texts[e.2]?)))

def recallHybridMultiMode (env : Env F) (w : World F) (embeddings : List (List F))
    (queryTexts : Option (List String)) (k : Nat) (now : Timestamp) (tags : Option (List String))
    (tagsOr : Bool) (timeRange : Option (Timestamp × Timestamp)) :
    Except MenteError (List (MemoryId × F)) := do
  let scores ← (pairQueries embeddings queryTexts).foldlM (fun scores query => do
    let results ← recallHybridAtMode env w query.1 query.2 k now tags tagsOr timeRange
    Except.ok (fuse w.retrievalConfig.multiQueryRrfK scores (results.map Prod.fst))) Assoc.empty
  Except.ok ((rank (env.hashOrder.order scores.entries)).take k)

def recallHybridMulti (env : Env F) (w : World F) (embeddings : List (List F))
    (queryTexts : Option (List String)) (k : Nat) (now : Timestamp) (tags : Option (List String))
    (timeRange : Option (Timestamp × Timestamp)) : Except MenteError (List (MemoryId × F)) :=
  recallHybridMultiMode env w embeddings queryTexts k now tags false timeRange

def recallSimilarMulti (env : Env F) (w : World F) (embeddings : List (List F)) (k : Nat)
    (now : Timestamp) (tags : Option (List String))
    (timeRange : Option (Timestamp × Timestamp)) : Except MenteError (List (MemoryId × F)) :=
  recallHybridMulti env w embeddings none k now tags timeRange

/-- What the recalls of the queries find, in their order. -/
def Fetches (env : Env F) (w : World F) (k : Nat) (q : RecallFilter)
    (query : List F × Option String) (list : List MemoryId) : Prop :=
  exists recalled, recallHybridAtMode env w query.1 query.2 k q.at_ q.tags q.tagsOr q.timeRange =
    Except.ok recalled ∧ list = recalled.map Prod.fst

theorem Fetches.spec {env : Env F} {w : World F} {k : Nat} {q : RecallFilter}
    {query : List F × Option String} {list : List MemoryId} (h : Fetches env w k q query list) :
    list.Nodup ∧ list.length <= k := by
  rcases h with ⟨recalled, hrecalled, rfl⟩
  rcases recallHybridAtMode_eq_ok hrecalled with ⟨hits, _, rfl⟩
  refine ⟨(isRanking_recallHits env w query.2 k q hits).nodup, ?_⟩
  rw [List.length_map]
  exact List.length_take_le _ _

theorem exists_query_of_mem {env : Env F} {w : World F} {k : Nat} {q : RecallFilter}
    {queries : List (List F × Option String)} {lists : List (List MemoryId)}
    (h : List.Forall₂ (Fetches env w k q) queries lists) {list : List MemoryId}
    (hlist : list ∈ lists) : exists query, Fetches env w k q query list := by
  induction h with
  | nil => cases hlist
  | @cons query first _ _ hfirst _ ih =>
      rcases List.mem_cons.mp hlist with heq | hrest
      · rw [heq]
        exact ⟨query, hfirst⟩
      · exact ih hrest

end Queries

section Fused

variable [Scalar F] (env : Env F) (w : World F) (k : Nat) (q : RecallFilter)

variable {env w k q} in
/-- The loop over the queries fills the table with the fused scores. -/
theorem accumulates_foundLists {queries : List (List F × Option String)}
    {lists : List (List MemoryId)} (hfinds : List.Forall₂ (Fetches env w k q) queries lists)
    {scores : Assoc MemoryId F} {xs : List (MemoryId × F)}
    (h : Accumulates (fun old x => old.getD 0 + x) scores xs) :
    exists scores', queries.foldlM (fun scores query => do
        let results ← recallHybridAtMode env w query.1 query.2 k q.at_ q.tags q.tagsOr q.timeRange
        Except.ok (fuse w.retrievalConfig.multiQueryRrfK scores (results.map Prod.fst))) scores =
          Except.ok scores' ∧
      Accumulates (fun old x => old.getD 0 + x) scores'
        (xs ++ lists.flatMap (reciprocals w.retrievalConfig.multiQueryRrfK)) := by
  induction hfinds generalizing scores xs with
  | nil =>
      rw [List.flatMap_nil, List.append_nil]
      exact ⟨scores, rfl, h⟩
  | cons hfirst _ ih =>
      rcases hfirst with ⟨recalled, hrecalled, rfl⟩
      rcases ih (accumulates_fuse w.retrievalConfig.multiQueryRrfK h (recalled.map Prod.fst)) with
        ⟨scores', hrun, haccumulates⟩
      rw [List.append_assoc] at haccumulates
      refine ⟨scores', ?_, haccumulates⟩
      rw [List.foldlM_cons, hrecalled]
      exact hrun

theorem topOf_recallHybridMultiMode {embeddings : List (List F)}
    {queryTexts : Option (List String)} {lists : List (List MemoryId)}
    (hfinds : List.Forall₂ (Fetches env w k q) (pairQueries embeddings queryTexts) lists) :
    exists recalled, recallHybridMultiMode env w embeddings queryTexts k q.at_ q.tags q.tagsOr
      q.timeRange = Except.ok recalled ∧
        TopOf k (fused w.retrievalConfig.multiQueryRrfK lists) recalled := by
  rcases accumulates_foundLists hfinds accumulates_empty with ⟨scores, hrun, haccumulates⟩
  refine ⟨(rank (env.hashOrder.order scores.entries)).take k, ?_, ?_⟩
  · unfold recallHybridMultiMode
    rw [hrun]
    rfl
  · have hentries := haccumulates.entries_perm
    rw [List.nil_append, accumulated_add] at hentries
    exact (topOf_rank k _).perm ((env.hashOrder.perm _).trans hentries)

end Fused

/-- Where each query is answered, a recall with several queries lists different memories, best
first, each with the sum of the reciprocals of its places in the lists of the queries, and each as
visible as a single recall requires.  A memory that each query finding another one puts before it
comes before it, and one query alone gives its own list. -/
theorem multi_recall_fuses [Scalar F] (env : Env F) (w : World F) (embeddings : List (List F))
    (queryTexts : Option (List String)) (k : Nat) (q : RecallFilter) (hrange : q.InSignedRange)
    (hrrfK : 0 < w.retrievalConfig.multiQueryRrfK) (lists : List (List MemoryId))
    (hfinds : List.Forall₂ (Fetches env w k q) (pairQueries embeddings queryTexts) lists) :
    exists recalled,
      recallHybridMultiMode env w embeddings queryTexts k q.at_ q.tags q.tagsOr q.timeRange =
        Except.ok recalled ∧
      TopOf k (fused w.retrievalConfig.multiQueryRrfK lists) recalled ∧
      (forall hit, hit ∈ recalled -> Recallable w q hit.1) ∧
      (forall a b, b ∈ recalled ->
        (forall list, list ∈ lists -> b.1 ∈ list -> Before list a b.1) ->
          exists score, (a, score) ∈ recalled ∧ b.2 < score) ∧
      forall list, lists = [list] -> recalled.map Prod.fst = list := by
  rcases topOf_recallHybridMultiMode env w k q hfinds with ⟨recalled, hrecalled, htop⟩
  have hscored : forall hit, hit ∈ recalled ->
      hit ∈ fused w.retrievalConfig.multiQueryRrfK lists := by
    intro hit hhit
    rcases htop with ⟨sorted, hperm, _, heq⟩
    rw [heq] at hhit
    exact hperm.mem_iff.mp (List.mem_of_mem_take hhit)
  have hfound : forall list, list ∈ lists -> exists query, Fetches env w k q query list :=
    fun list hlist => exists_query_of_mem hfinds hlist
  refine ⟨recalled, hrecalled, htop, ?_, ?_, ?_⟩
  · rintro ⟨id, v⟩ hhit
    rcases (mem_fused.mp (hscored _ hhit)).1 with ⟨list, hlist, hid⟩
    rcases hfound list hlist with ⟨query, single, hsingle, rfl⟩
    rcases List.mem_map.mp hid with ⟨hit, hmem, rfl⟩
    show Recallable w q hit.1
    exact recallable_of_mem hrange hsingle hmem
  · rintro a ⟨b, v⟩ hb hbefore
    rcases mem_fused.mp (hscored _ hb) with ⟨⟨list, hlist, hmem⟩, hv⟩
    have hnodup : forall list, list ∈ lists -> list.Nodup := by
      intro list hlist
      rcases hfound list hlist with ⟨query, hfinds⟩
      exact hfinds.spec.1
    have hlt := tally_lt_of_before hrrfK hnodup hbefore ⟨list, hlist, hmem⟩
    rcases hbefore list hlist hmem with ⟨i, j, _, ha, _⟩
    refine ⟨_, htop.mem_of_higher
      (mem_fused.mpr ⟨⟨list, hlist, List.mem_of_getElem? ha⟩, rfl⟩)
      hb ?_, ?_⟩
    · rw [hv]
      exact hlt
    · rw [hv]
      exact hlt
  · rintro list rfl
    rcases hfound list List.mem_cons_self with ⟨query, hquery⟩
    exact htop.eq_of_fused_singleton hrrfK hquery.spec.1 hquery.spec.2

/-- Two queries about one stored memory. -/
theorem multi_recall_fuses_turin :
    exists recalled,
      recallHybridMultiMode (calmEnv CognitiveConfig.default) turinWorld [[3, 4], [4, 3]] none 5
        1500 (some ["trip"]) false (some (500, 1500)) = Except.ok recalled ∧
      recalled.map Prod.fst = [⟨7⟩] ∧ Recallable turinWorld turinFilter ⟨7⟩ := by
  have hfinds : forall query : List Rat × Option String,
      (recallHybridAtMode (calmEnv CognitiveConfig.default) turinWorld query.1 query.2 5 1500
        (some ["trip"]) false (some (500, 1500))).map (List.map Prod.fst) = Except.ok [⟨7⟩] ->
      Fetches (calmEnv CognitiveConfig.default) turinWorld 5 turinFilter query [⟨7⟩] := by
    intro query hquery
    rcases except_map_ok hquery with ⟨recalled, hrecalled, hids⟩
    exact ⟨recalled, hrecalled, hids.symm⟩
  have hrange : turinFilter.InSignedRange := by
    intro start stop hr
    cases hr
    decide
  rcases multi_recall_fuses (calmEnv CognitiveConfig.default) turinWorld
    [[3, 4], [4, 3]] none 5 turinFilter hrange (by decide +kernel) [[⟨7⟩], [⟨7⟩]]
    (List.Forall₂.cons (hfinds _ (by decide +kernel))
      (List.Forall₂.cons (hfinds _ (by decide +kernel)) List.Forall₂.nil)) with
    ⟨recalled, hrecalled, htop, hvisible, _⟩
  have hids : (fused (60 : Rat) [[(⟨7⟩ : MemoryId)], [⟨7⟩]]).map Prod.fst = [⟨7⟩] := by
    decide +kernel
  rcases htop with ⟨sorted, hperm, _, htake⟩
  have hsorted := (hperm.map Prod.fst).trans (List.Perm.of_eq hids)
  have hlist : recalled.map Prod.fst = [⟨7⟩] := by
    rw [htake, List.map_take, List.perm_singleton.mp hsorted]
    rfl
  refine ⟨recalled, hrecalled, hlist, ?_⟩
  have hmem : (⟨7⟩ : MemoryId) ∈ recalled.map Prod.fst := by
    rw [hlist]
    exact List.mem_cons_self
  rcases List.mem_map.mp hmem with ⟨hit, hhit, hid⟩
  rw [← hid]
  exact hvisible hit hhit

end Facade
end MenteDb
