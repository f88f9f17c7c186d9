import MenteDb.Facade.Effects
import MenteDb.Sqlite.Fusion

/-!
# The order of hash tables in recall

Recall drains three hash tables: the aliases of the query, the memories reached through
entities, and the union of these with the search hits.  The tables themselves do not depend
on the order: the best boost does not, and each memory has at most one score and one boost to
add.  What is left of the order is which of two equal scores comes first.
-/

namespace MenteDb
namespace Facade

open Foundation
open Sqlite
open Sqlite.Tables
open Consolidation

variable {F : Type} [Arith F]

/-!
## Candidates through entities
-/

/-- The candidate passes the filters of the recall. -/
def admitted (t : Tables F) (q : RecallFilter) (c : MemoryId × F) : Bool :=
  !decide (c.2 <= 0) && (t.getMemory c.1).any (fun memory =>
    !(!memoryMatchesTags memory q.tags q.tagsOr || !memoryMatchesTimeRange memory q.timeRange
      || (memoryIsArchived memory && !archivedRequested q.tags)))

/-- The best boost offered to one memory. -/
def keepBest (t : Tables F) (q : RecallFilter) (id : MemoryId) (old : Option F)
    (c : MemoryId × F) : Option F :=
  if id = c.1 ∧ admitted t q c = true then some (old.elim c.2 (fun score => max score c.2))
  else old

def offer (t : Tables F) (q : RecallFilter) (scored : Assoc MemoryId F) (c : MemoryId × F) :
    Assoc MemoryId F :=
  addRecallCandidate t q scored c.1 c.2

theorem find?_offer (t : Tables F) (q : RecallFilter) (id : MemoryId)
    (scored : Assoc MemoryId F) (c : MemoryId × F) :
    (offer t q scored c).find? id = keepBest t q id (scored.find? id) c := by
  unfold offer addRecallCandidate keepBest admitted
  by_cases hboost : c.2 <= 0
  · simp [hboost]
  · cases hget : t.getMemory c.1 with
    | none => simp [hboost]
    | some memory =>
        cases hpass : (!memoryMatchesTags memory q.tags q.tagsOr
            || !memoryMatchesTimeRange memory q.timeRange
            || (memoryIsArchived memory && !archivedRequested q.tags)) with
        | true =>
            simp only [hboost, hpass, if_false, if_true, Option.any_some, Bool.not_true,
              Bool.and_false, Bool.false_eq_true, and_false]
        | false =>
            simp only [hboost, hpass, if_false, Bool.false_eq_true, Assoc.find?_upsert,
              decide_false, Bool.not_false, Option.any_some, Bool.and_self, and_true]
            by_cases hid : id = c.1
            · rw [if_pos hid, if_pos hid, hid]
              cases scored.find? c.1 <;> rfl
            · rw [if_neg hid, if_neg hid]

theorem keepBest_comm (t : Tables F) (q : RecallFilter) (id : MemoryId) (old : Option F)
    (a b : MemoryId × F) :
    keepBest t q id (keepBest t q id old a) b = keepBest t q id (keepBest t q id old b) a := by
  unfold keepBest
  split
  · split
    · cases old with
      | none => simp [max_comm]
      | some score => simp [max_right_comm]
    · rfl
  · rfl

/-- Offers made in another order give the same table. -/
theorem find?_offers_perm {t : Tables F} {q : RecallFilter} {xs ys : List (MemoryId × F)}
    (h : xs.Perm ys) (scored : Assoc MemoryId F) (id : MemoryId) :
    (xs.foldl (offer t q) scored).find? id = (ys.foldl (offer t q) scored).find? id := by
  rw [Assoc.find?_foldl (find?_offer t q id), Assoc.find?_foldl (find?_offer t q id)]
  exact h.foldl_eq' (fun a _ b _ old => keepBest_comm t q id old a b) _

/-- The step makes offers that do not depend on the table. -/
def Offers (t : Tables F) (q : RecallFilter) (step : Assoc MemoryId F -> Assoc MemoryId F) :
    Prop :=
  exists offers : List (MemoryId × F), forall scored, step scored = offers.foldl (offer t q) scored

section Offers

variable {t : Tables F} {q : RecallFilter}

theorem offers_id : Offers t q (fun scored => scored) := ⟨[], fun _ => rfl⟩

theorem offers_addRecallCandidate (id : MemoryId) (boost : F) :
    Offers t q (fun scored => addRecallCandidate t q scored id boost) :=
  ⟨[(id, boost)], fun _ => rfl⟩

theorem Offers.andThen {f g : Assoc MemoryId F -> Assoc MemoryId F} (hf : Offers t q f)
    (hg : Offers t q g) : Offers t q (fun scored => g (f scored)) := by
  rcases hf with ⟨first, hfirst⟩
  rcases hg with ⟨second, hsecond⟩
  refine ⟨first ++ second, ?_⟩
  intro scored
  rw [List.foldl_append, ← hfirst, ← hsecond]

theorem offers_foldl {α : Type} {f : Assoc MemoryId F -> α -> Assoc MemoryId F}
    (hf : forall x, Offers t q (fun scored => f scored x)) (xs : List α) :
    Offers t q (fun scored => xs.foldl f scored) := by
  induction xs with
  | nil => exact offers_id
  | cons x rest ih => exact (hf x).andThen ih

/-- A loop over a hash table of steps that make offers. -/
theorem find?_foldl_perm {α : Type} {f : Assoc MemoryId F -> α -> Assoc MemoryId F}
    (hf : forall x, Offers t q (fun scored => f scored x)) {xs ys : List α} (h : xs.Perm ys)
    (scored : Assoc MemoryId F) (id : MemoryId) :
    (xs.foldl f scored).find? id = (ys.foldl f scored).find? id := by
  choose offers hoffers using hf
  have hflat : forall zs : List α, zs.foldl f scored =
      (zs.flatMap offers).foldl (offer t q) scored := by
    intro zs
    rw [List.foldl_flatMap]
    exact congrArg (fun g => zs.foldl g scored) (funext fun s => funext fun x => hoffers x s)
  rw [hflat, hflat]
  exact find?_offers_perm (h.flatMap_right offers) scored id

theorem offers_addLinkCandidates (config : EntityExtractionConfig F) (entityId : String)
    (boost : F -> F) : Offers t q (addLinkCandidates t config q entityId boost) :=
  offers_foldl (fun _ => offers_addRecallCandidate _ _) _

theorem offers_addClaimCandidates (config : EntityExtractionConfig F) (confidence : F)
    (claim : ClaimRecord F) :
    Offers t q (fun scored => addClaimCandidates t config q confidence scored claim) := by
  unfold addClaimCandidates
  split
  · exact offers_foldl (fun _ => offers_addRecallCandidate _ _) _
  · exact offers_id

theorem offers_addRelationshipCandidates (config : EntityExtractionConfig F) (confidence : F)
    (entityId : String) (relationship : EntityRelationship F) :
    Offers t q (fun scored =>
      addRelationshipCandidates t config q confidence entityId scored relationship) := by
  unfold addRelationshipCandidates
  split
  · cases relatedEntityId entityId relationship.2 with
    | none => exact offers_foldl (fun _ => offers_addRecallCandidate _ _) _
    | some related =>
        exact (offers_foldl (fun _ => offers_addRecallCandidate _ _) _).andThen
          (offers_addLinkCandidates config related _)
  · exact offers_id

theorem offers_addEntityCandidates (config : EntityExtractionConfig F) (confidence : F)
    (entity : EntityRecord F) :
    Offers t q (fun scored => addEntityCandidates t config q confidence scored entity) :=
  ((offers_addLinkCandidates config entity.1 _).andThen
    (offers_foldl (offers_addClaimCandidates config confidence) _)).andThen
      (offers_foldl (offers_addRelationshipCandidates config confidence entity.1) _)

end Offers

/-- The memories reached through entities, and their boosts, are the same in every order. -/
theorem entityRecallCandidates_perm (env : Env F) (o o' : HashOrder) (t : Tables F)
    (queryText : Option String) (q : RecallFilter) :
    (entityRecallCandidates { env with hashOrder := o } t queryText q).Perm
      (entityRecallCandidates { env with hashOrder := o' } t queryText q) := by
  unfold entityRecallCandidates
  cases queryText with
  | none => exact List.Perm.refl []
  | some query =>
      simp only
      split
      · exact List.Perm.refl []
      · refine (o.perm _).trans (List.Perm.trans ?_ (o'.perm _).symm)
        have hoffers : forall name : String × F, Offers t q (fun scored =>
            (t.entitiesByAlias name.1).foldl
              (addEntityCandidates t env.config.entityExtractionConfig q name.2) scored) :=
          fun name => offers_foldl (offers_addEntityCandidates _ name.2) _
        exact Assoc.entries_perm
          (find?_foldl_perm hoffers ((o.perm _).trans (o'.perm _).symm) Assoc.empty)

theorem nodup_entityRecallCandidates (env : Env F) (t : Tables F) (queryText : Option String)
    (q : RecallFilter) : ((entityRecallCandidates env t queryText q).map Prod.fst).Nodup := by
  unfold entityRecallCandidates
  cases queryText with
  | none => exact List.nodup_nil
  | some query =>
      simp only
      split
      · exact List.nodup_nil
      · exact ((env.hashOrder.perm _).map Prod.fst).nodup_iff.mpr (Assoc.nodup _)

/-!
## The scores of a recall
-/

def recallFilter (query : SearchQuery F) (at_ : Timestamp) : RecallFilter where
  at_ := at_
  tags := query.tags
  tagsOr := query.tagsOr
  timeRange := query.timeRange

/-- How many hits recall asks the search for. -/
def recallFetch (k : Nat) : Nat := k * 3 % usizeSize

/-- The scores the search returns when no tie lies across its cut. -/
def settledHits (env : Env F) (w : World F) (query : SearchQuery F) (k : Nat) :
    List (MemoryId × F) :=
  let scores := searchScores env.rankers w.retrievalConfig w.tables w.embeddingDim query
    (recallFetch k)
  scores.filter (fun s => decide (atLeast scores s <= recallFetch k))

/-- The boosts of the memories reached through entities, in the order they are found. -/
def recallBoosts (env : Env F) (w : World F) (query : SearchQuery F) (at_ : Timestamp) :
    List (MemoryId × F) :=
  entityRecallCandidates { env with hashOrder := HashOrder.insertion } w.tables query.text
    (recallFilter query at_)

/-- The first score of a memory is taken as it is. -/
def addScore (old : Option F) (x : F) : F := old.elim x (fun score => score + x)

/-- Each memory that recall considers, once, with its score and then its boost. -/
def recallScores (env : Env F) (w : World F) (query : SearchQuery F) (k : Nat)
    (at_ : Timestamp) : List (MemoryId × F) :=
  accumulated addScore (settledHits env w query k ++ recallBoosts env w query at_)

omit [Arith F] in
/-- The memory is not hidden at the instant of the query. -/
def shownAt (w : World F) (query : SearchQuery F) (at_ : Timestamp) (id : MemoryId) : Bool :=
  currentlyVisible w.tables (recallFilter query at_) id && !hasActiveSupersede w.graph id at_

/-- No tie decides which memories recall returns, nor their order. -/
structure RecallSettled (env : Env F) (w : World F) (query : SearchQuery F) (k : Nat)
    (at_ : Timestamp) : Prop where
  similarities : SimilaritiesSettled env.rankers w.retrievalConfig w.tables query (recallFetch k)
  cut : CutSettled (recallFetch k) (searchScores env.rankers w.retrievalConfig w.tables
    w.embeddingDim query (recallFetch k))
  scores : Foundation.Settled k ((recallScores env w query k at_).filter
    (fun s => shownAt w query at_ s.1))

section Settled

variable {env : Env F} {w : World F} {query : SearchQuery F} {k : Nat}

theorem perm_settledHits {hits : List (MemoryId × F)}
    (htop : TopOf (recallFetch k) (searchScores env.rankers w.retrievalConfig w.tables
      w.embeddingDim query (recallFetch k)) hits)
    (hcut : CutSettled (recallFetch k) (searchScores env.rankers w.retrievalConfig w.tables
      w.embeddingDim query (recallFetch k))) : hits.Perm (settledHits env w query k) := by
  have hnodup := nodup_searchScores env.rankers w.retrievalConfig w.tables w.embeddingDim query
    (recallFetch k)
  unfold settledHits
  rw [List.perm_ext_iff_of_nodup (List.Nodup.of_map _ (htop.nodup hnodup))
    ((List.Nodup.of_map _ hnodup).filter _)]
  intro x
  rw [htop.mem_iff_of_cutSettled hcut, List.mem_filter, decide_eq_true_eq]

/-- Different hits fill a table with themselves. -/
theorem accumulates_hits {hits : List (MemoryId × F)} (h : (hits.map Prod.fst).Nodup) :
    Accumulates addScore (hits.foldl (fun scored hit => scored.insert hit.1 hit.2) Assoc.empty)
      hits := by
  have hentries := Assoc.entries_foldl_upsert Prod.fst
    (fun (hit : MemoryId × F) (_ : Option F) => hit.2) hits Assoc.empty h
    (fun _ _ hmem => by cases hmem)
  have hrows : (hits.foldl (fun scored hit => scored.insert hit.1 hit.2) Assoc.empty).entries =
      hits := by
    refine hentries.trans ?_
    simp [Assoc.empty]
  have haccumulates := accumulates_entries (f := addScore) (fun _ => rfl)
    (hits.foldl (fun scored hit => scored.insert hit.1 hit.2) Assoc.empty)
  rw [hrows] at haccumulates
  exact haccumulates

theorem addBoost_eq (scored : Assoc MemoryId F) (candidate : MemoryId × F) :
    addBoost scored candidate =
      scored.upsert candidate.1 (fun old => addScore old candidate.2) := by
  unfold addBoost
  congr 1
  funext old
  cases old <;> rfl

/-- Everything recall considers, scored, whatever the order of its hash tables. -/
theorem recallScored_perm {hits : List (MemoryId × F)}
    (htop : TopOf (recallFetch k) (searchScores env.rankers w.retrievalConfig w.tables
      w.embeddingDim query (recallFetch k)) hits)
    (hcut : CutSettled (recallFetch k) (searchScores env.rankers w.retrievalConfig w.tables
      w.embeddingDim query (recallFetch k))) (at_ : Timestamp) (o : HashOrder) :
    (recallScored { env with hashOrder := o } w query.text (recallFilter query at_) hits).Perm
      (recallScores env w query k at_) := by
  have hnodup := htop.nodup (nodup_searchScores env.rankers w.retrievalConfig w.tables
    w.embeddingDim query (recallFetch k))
  have haccumulates := (accumulates_hits hnodup).foldl addBoost_eq
    (entityRecallCandidates { env with hashOrder := o } w.tables query.text
      (recallFilter query at_))
  have hboosts := entityRecallCandidates_perm env o HashOrder.insertion w.tables query.text
    (recallFilter query at_)
  refine (o.perm _).trans (haccumulates.entries_perm.trans (accumulated_perm ?_))
  intro id
  rw [amounts_append, amounts_append, amounts_eq_of_perm hnodup (perm_settledHits htop hcut),
    amounts_eq_of_perm (nodup_entityRecallCandidates _ _ _ _) hboosts]
  rfl

/-- A recall fails in every order, or returns in each the first of its scores among the
memories that are not hidden. -/
theorem recallHybridAtMode_cases
    (hsim : SimilaritiesSettled env.rankers w.retrievalConfig w.tables query (recallFetch k))
    (hcut : CutSettled (recallFetch k) (searchScores env.rankers w.retrievalConfig w.tables
      w.embeddingDim query (recallFetch k))) (at_ : Timestamp) :
    (exists e, forall o, recallHybridAtMode { env with hashOrder := o } w query.embedding
      query.text k at_ query.tags query.tagsOr query.timeRange = Except.error e) ∨
    forall o, exists recalled, recallHybridAtMode { env with hashOrder := o } w query.embedding
      query.text k at_ query.tags query.tagsOr query.timeRange = Except.ok recalled ∧
        TopOf k ((recallScores env w query k at_).filter (fun s => shownAt w query at_ s.1))
          recalled := by
  rcases hybridSearchWithQueryMode_cases hsim w.embeddingDim with ⟨e, hfail⟩ | hanswer
  · refine Or.inl ⟨e, fun o => ?_⟩
    unfold recallHybridAtMode
    exact congrArg (fun r => r >>= _) (hfail o)
  · refine Or.inr (fun o => ?_)
    rcases hanswer o with ⟨hits, hhits, htop⟩
    refine ⟨recallHits { env with hashOrder := o } w query.text k (recallFilter query at_) hits,
      ?_, ?_⟩
    · unfold recallHybridAtMode
      exact congrArg (fun r => r >>= _) hhits
    · unfold recallHits
      simp only [List.filter_filter]
      exact (topOf_filter_rank k _ _).perm ((recallScored_perm htop hcut at_ o).filter _)

end Settled

/-- Where no tie decides, two executions that differ in the order of their hash tables
return the same memories in the same order. -/
theorem ranking_eq_of_settled (env : Env F) (w : World F) (query : SearchQuery F) (k : Nat)
    (at_ : Timestamp) (o o' : HashOrder) :
    (SearchSettled env.rankers w.retrievalConfig w.tables w.embeddingDim query k ->
      (w.tables.hybridSearchWithQueryMode env.rankers o w.retrievalConfig w.embeddingDim
          query.embedding query.text query.tags query.tagsOr query.timeRange k).map
            (List.map Prod.fst) =
        (w.tables.hybridSearchWithQueryMode env.rankers o' w.retrievalConfig w.embeddingDim
          query.embedding query.text query.tags query.tagsOr query.timeRange k).map
            (List.map Prod.fst)) ∧
    (RecallSettled env w query k at_ ->
      (recallHybridAtMode { env with hashOrder := o } w query.embedding query.text k at_
          query.tags query.tagsOr query.timeRange).map (List.map Prod.fst) =
        (recallHybridAtMode { env with hashOrder := o' } w query.embedding query.text k at_
          query.tags query.tagsOr query.timeRange).map (List.map Prod.fst)) := by
  constructor
  · intro h
    rw [hybridSearchWithQueryMode_eq h o o']
  · intro h
    rcases recallHybridAtMode_cases h.similarities h.cut at_ with ⟨e, hfail⟩ | hanswer
    · rw [hfail o, hfail o']
    · rcases hanswer o with ⟨recalled, hrecalled, htop⟩
      rcases hanswer o' with ⟨recalled', hrecalled', htop'⟩
      rw [hrecalled, hrecalled', htop.eq_of_settled htop' h.scores]

/-!
### Concrete orders
-/

section Examples

/-- Iteration that starts at the third entry. -/
def fromThird : HashOrder where
  order := fun xs => xs.drop 2 ++ xs.take 2
  perm := fun xs => List.perm_append_comm.trans (List.Perm.of_eq (List.take_append_drop 2 xs))

def recallEnv : Env Rat :=
  calmEnv { CognitiveConfig.default with
    writeInference := false
    entityExtractionConfig :=
      { CognitiveConfig.default.entityExtractionConfig with recallEnabled := false } }

def nearMemory : MemoryNode Rat :=
  MemoryNode.new ⟨1⟩ 1000 AgentId.nil MemoryType.semantic "near" [3, 4]

def farMemory : MemoryNode Rat :=
  MemoryNode.new ⟨2⟩ 1000 AgentId.nil MemoryType.semantic "far" [0, 5]

def namedMemory : MemoryNode Rat :=
  MemoryNode.new ⟨3⟩ 1000 AgentId.nil MemoryType.semantic "Turin" []

/-- Two memories with a vector and one that only its text can find. -/
def threeCalls : List (Call Rat) :=
  [Call.ensureVectorIndex 2, Call.store nearMemory, Call.store farMemory, Call.store namedMemory]

def threeStored : World Rat := List.foldl (Call.step recallEnv) emptyWorld threeCalls

def queryFor (text : Option String) : SearchQuery Rat where
  embedding := [3, 4]
  text := text
  tags := none
  tagsOr := false
  timeRange := none

/-- Without a text the two vectors are found, and their scores differ. -/
theorem ranking_eq_of_settled_vectors :
    SearchSettled recallEnv.rankers threeStored.retrievalConfig threeStored.tables
      threeStored.embeddingDim (queryFor none) 2 ∧
    RecallSettled recallEnv threeStored (queryFor none) 2 2000 ∧
    (threeStored.tables.hybridSearchWithQueryMode recallEnv.rankers HashOrder.insertion
        threeStored.retrievalConfig threeStored.embeddingDim [3, 4] none none false none 2).map
          (List.map Prod.fst) =
      (threeStored.tables.hybridSearchWithQueryMode recallEnv.rankers fromThird
        threeStored.retrievalConfig threeStored.embeddingDim [3, 4] none none false none 2).map
          (List.map Prod.fst) ∧
    (recallHybridAtMode { recallEnv with hashOrder := HashOrder.insertion } threeStored [3, 4]
        none 2 2000 none false none).map (List.map Prod.fst) =
      (recallHybridAtMode { recallEnv with hashOrder := fromThird } threeStored [3, 4]
        none 2 2000 none false none).map (List.map Prod.fst) := by
  have hsearch : SearchSettled recallEnv.rankers threeStored.retrievalConfig threeStored.tables
      threeStored.embeddingDim (queryFor none) 2 := by
    constructor
    · intro cs hcs
      cases hcs
    · decide +kernel
  have hrecall : RecallSettled recallEnv threeStored (queryFor none) 2 2000 := by
    constructor
    · intro cs hcs
      cases hcs
    · decide +kernel
    · decide +kernel
  have heq := ranking_eq_of_settled recallEnv threeStored (queryFor none) 2 2000
    HashOrder.insertion fromThird
  exact ⟨hsearch, hrecall, heq.1 hsearch, heq.2 hrecall⟩

/-- The nearest memory and the only one with the word have the same score, and the order of
the hash table decides which of them is the one result. -/
theorem ranking_follows_hashOrder :
    Reachable recallEnv threeStored ∧
    (threeStored.tables.hybridSearchWithQueryMode recallEnv.rankers HashOrder.insertion
        threeStored.retrievalConfig threeStored.embeddingDim [3, 4] (some "Turin") none false
          none 1).map (List.map Prod.fst) =
      Except.ok [⟨1⟩] ∧
    (threeStored.tables.hybridSearchWithQueryMode recallEnv.rankers fromThird
        threeStored.retrievalConfig threeStored.embeddingDim [3, 4] (some "Turin") none false
          none 1).map (List.map Prod.fst) =
      Except.ok [⟨3⟩] ∧
    (recallHybridAtMode { recallEnv with hashOrder := HashOrder.insertion } threeStored [3, 4]
        (some "Turin") 1 2000 none false none).map (List.map Prod.fst) =
      Except.ok [⟨1⟩] ∧
    (recallHybridAtMode { recallEnv with hashOrder := fromThird } threeStored [3, 4]
        (some "Turin") 1 2000 none false none).map (List.map Prod.fst) =
      Except.ok [⟨3⟩] := by
  refine ⟨⟨_, _, _, _, threeCalls, rfl⟩, ?_, ?_, ?_, ?_⟩
  · decide +kernel
  · decide +kernel
  · decide +kernel
  · decide +kernel

end Examples

end Facade
end MenteDb
