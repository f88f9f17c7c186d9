import MenteDb.Facade.World

/-!
# Recall

Hybrid search results are joined by memories reached through entities, claims
and relationships.  The union is ranked, and what is superseded, contradicted,
not valid at the instant of the query, or archived is dropped.
-/

namespace MenteDb
namespace Facade

open Foundation
open Sqlite
open MenteDb.Graph
open Cognitive
open Consolidation

variable {F : Type}

/-!
## Filters on loaded memories
-/

def memoryMatchesTags (node : MemoryNode F) (tags : Option (List String)) (tagsOr : Bool) :
    Bool :=
  match tags with
  | none => true
  | some tags =>
      if tags.isEmpty then false
      else if tagsOr then tags.any (fun tag => decide (tag ∈ node.tags))
      else tags.all (fun tag => decide (tag ∈ node.tags))

def archivedRequested (tags : Option (List String)) : Bool :=
  match tags with
  | none => false
  | some tags => decide ("archived" ∈ tags)

def memoryMatchesTimeRange (node : MemoryNode F)
    (timeRange : Option (Timestamp × Timestamp)) : Bool :=
  match timeRange with
  | none => true
  | some (start, stop) => decide (start <= node.createdAt) && decide (node.createdAt <= stop)

def derivedArtifactValid (status : String) (validFrom validUntil : Option Timestamp)
    (at_ : Timestamp) : Bool :=
  decide (status = "active") && isValidAt validFrom validUntil at_

/-!
## Aliases in a query
-/

def trimToken (raw : String) : String :=
  let isPunctuation := fun c : Char => decide (c ∈ ",;:\"'()[]\x7b\x7d?!".toList)
  let inner := ((raw.toList.dropWhile isPunctuation).reverse.dropWhile isPunctuation).dropWhile
    (fun c => decide (c = '.'))
  String.ofList inner.reverse

def queryTokens (text : TextOps F) (config : EntityExtractionConfig F) (query : String) :
    List String :=
  ((text.splitWhitespace query).map (fun raw => text.toLowercase (trimToken raw))).filter
    (fun token => decide (config.minPhraseChars <= token.utf8ByteSize)
      && token.toList.any Char.isAlpha)

/-- Every run of at most {lit}`maxAliasWords` tokens, once, in order. -/
def queryAliases (text : TextOps F) (config : EntityExtractionConfig F) (query : String) :
    List String :=
  let tokens := queryTokens text config query
  let spans := (List.range tokens.length).flatMap (fun start =>
    (List.range (min config.maxAliasWords (tokens.length - start))).map (fun i =>
      " ".intercalate ((tokens.drop start).take (i + 1))))
  spans.foldl (fun aliases name =>
    if name.utf8ByteSize <= config.maxPhraseChars ∧ name ∉ aliases then aliases ++ [name]
    else aliases) []

/-- Semantic mentions in a query are left to the caller. -/
def extractQuery (_query : String) : List (ExtractedEntity F) := []

section Candidates

variable [Arith F]

def addMention (text : TextOps F) (lookup : Assoc String F) (mention : ExtractedEntity F) :
    Assoc String F :=
  (mention.aliases ++ [mention.canonical, text.toLowercase mention.canonical]).foldl
    (fun lookup name => lookup.upsert name (fun old =>
      match old with
      | none => mention.confidence
      | some confidence => max confidence mention.confidence)) lookup

def lookupAliases (text : TextOps F) (config : EntityExtractionConfig F) (query : String) :
    Assoc String F :=
  (extractQuery query).foldl (addMention text)
    ((queryAliases text config query).foldl (fun lookup name => lookup.insert name 1)
      Assoc.empty)

/-!
## Candidates through entities
-/

/-- The filters of one recall. -/
structure RecallFilter where
  at_ : Timestamp
  tags : Option (List String)
  tagsOr : Bool
  timeRange : Option (Timestamp × Timestamp)

def addRecallCandidate (t : Tables F) (q : RecallFilter) (scored : Assoc MemoryId F)
    (memoryId : MemoryId) (boost : F) : Assoc MemoryId F :=
  if boost <= 0 then scored
  else
    match t.getMemory memoryId with
    | none => scored
    | some memory =>
        if !memoryMatchesTags memory q.tags q.tagsOr
            || !memoryMatchesTimeRange memory q.timeRange
            || (memoryIsArchived memory && !archivedRequested q.tags) then scored
        else
          scored.upsert memoryId (fun old =>
            match old with
            | none => boost
            | some score => max score boost)

def addLinkCandidates (t : Tables F) (config : EntityExtractionConfig F) (q : RecallFilter)
    (entityId : String) (boost : F -> F) (scored : Assoc MemoryId F) : Assoc MemoryId F :=
  ((t.memoriesForEntity entityId).take config.recallFetchLimit).foldl
    (fun scored link => addRecallCandidate t q scored link.1.1 (boost (max link.2.confidence 0)))
    scored

def addClaimCandidates (t : Tables F) (config : EntityExtractionConfig F) (q : RecallFilter)
    (confidence : F) (scored : Assoc MemoryId F) (claim : ClaimRecord F) : Assoc MemoryId F :=
  if derivedArtifactValid claim.2.status claim.2.validFrom claim.2.validUntil q.at_ then
    let claimBoost := config.recallBoost * confidence * max claim.2.confidence 0 * ratio 9 10
    ((t.claimEvidenceFor claim.1).take config.recallFetchLimit).foldl
      (fun scored evidence => addRecallCandidate t q scored evidence.2.memoryId
        (claimBoost * max evidence.2.confidence 0)) scored
  else scored

def relatedEntityId (entityId : String) (relationship : RelationshipRow F) : Option String :=
  if relationship.sourceEntityId = entityId then some relationship.targetEntityId
  else if relationship.targetEntityId = entityId then some relationship.sourceEntityId
  else none

def addRelationshipCandidates (t : Tables F) (config : EntityExtractionConfig F)
    (q : RecallFilter) (confidence : F) (entityId : String) (scored : Assoc MemoryId F)
    (relationship : EntityRelationship F) : Assoc MemoryId F :=
  if derivedArtifactValid relationship.2.status relationship.2.validFrom
      relationship.2.validUntil q.at_ then
    let relationshipBoost := config.recallBoost * confidence * max relationship.2.confidence 0
    let scored := ((t.relationshipEvidenceFor relationship.1).take config.recallFetchLimit).foldl
      (fun scored evidence => addRecallCandidate t q scored evidence.2.memoryId
        (relationshipBoost * max evidence.2.confidence 0)) scored
    match relatedEntityId entityId relationship.2 with
    | none => scored
    | some related =>
        addLinkCandidates t config q related (fun c => relationshipBoost * c * ratio 6 10) scored
  else scored

def addEntityCandidates (t : Tables F) (config : EntityExtractionConfig F) (q : RecallFilter)
    (confidence : F) (scored : Assoc MemoryId F) (entity : EntityRecord F) :
    Assoc MemoryId F :=
  let scored := addLinkCandidates t config q entity.1
    (fun c => config.recallBoost * confidence * c) scored
  let scored := ((t.claimsForEntity entity.1).take config.recallFetchLimit).foldl
    (addClaimCandidates t config q confidence) scored
  ((t.relationshipsForEntity entity.1).take config.recallFetchLimit).foldl
    (addRelationshipCandidates t config q confidence entity.1) scored

def entityRecallCandidates (env : Env F) (t : Tables F) (queryText : Option String)
    (q : RecallFilter) : List (MemoryId × F) :=
  match queryText with
  | none => []
  | some query =>
      let config := env.config.entityExtractionConfig
      if !config.enabled || !config.recallEnabled
          || (env.text.splitWhitespace query).isEmpty then []
      else
        let scored := (env.hashOrder.order (lookupAliases env.text config query).entries).foldl
          (fun scored name =>
            (t.entitiesByAlias name.1).foldl (addEntityCandidates t config q name.2) scored)
          Assoc.empty
        env.hashOrder.order scored.entries

/-!
## Recall
-/

omit [Arith F] in
/-- An incoming edge that hides a memory at an instant. -/
def hidingEdge (at_ : Timestamp) (e : StoredEdge F) : Bool :=
  (decide (e.edgeType = EdgeType.supersedes) || decide (e.edgeType = EdgeType.contradicts))
    && e.isValidAt at_

omit [Arith F] in
def hasActiveSupersede (g : CsrGraph F) (id : MemoryId) (at_ : Timestamp) : Bool :=
  (g.incoming id).any (fun p => hidingEdge at_ p.2)

omit [Arith F] in
/-- The second filter of recall; an id that does not load passes it. -/
def currentlyVisible (t : Tables F) (q : RecallFilter) (id : MemoryId) : Bool :=
  match t.getMemory id with
  | some node =>
      node.isValidAt q.at_ && (!memoryIsArchived node || archivedRequested q.tags)
  | none => true

def addBoost (scored : Assoc MemoryId F) (candidate : MemoryId × F) : Assoc MemoryId F :=
  scored.upsert candidate.1 (fun old =>
    match old with
    | none => candidate.2
    | some score => score + candidate.2)

/-- Number of values of {lit}`usize`. -/
def usizeSize : Nat := 2 ^ 64

/-- Everything recall considers, scored, in the order of a hash table. -/
def recallScored (env : Env F) (w : World F) (queryText : Option String) (q : RecallFilter)
    (hits : List (MemoryId × F)) : List (MemoryId × F) :=
  let scored := hits.foldl (fun scored hit => scored.insert hit.1 hit.2) Assoc.empty
  let scored := (entityRecallCandidates env w.tables queryText q).foldl addBoost scored
  env.hashOrder.order scored.entries

/-- What recall makes of the hits of the search. -/
def recallHits (env : Env F) (w : World F) (queryText : Option String) (k : Nat)
    (q : RecallFilter) (hits : List (MemoryId × F)) : List (MemoryId × F) :=
  (((rank (recallScored env w queryText q hits)).filter
      (fun hit => !hasActiveSupersede w.graph hit.1 q.at_)).filter
    (fun hit => currentlyVisible w.tables q hit.1)).take k

def recallHybridAtMode (env : Env F) (w : World F) (embedding : List F)
    (queryText : Option String) (k : Nat) (at_ : Timestamp) (tags : Option (List String))
    (tagsOr : Bool) (timeRange : Option (Timestamp × Timestamp)) :
    Except MenteError (List (MemoryId × F)) := do
  let q : RecallFilter := { at_ := at_, tags := tags, tagsOr := tagsOr, timeRange := timeRange }
  let hits ← w.tables.hybridSearchWithQueryMode env.rankers env.hashOrder w.retrievalConfig
    w.embeddingDim embedding queryText tags tagsOr timeRange (k * 3 % usizeSize)
  Except.ok (recallHits env w queryText k q hits)

def recallHybridAt (env : Env F) (w : World F) (embedding : List F)
    (queryText : Option String) (k : Nat) (at_ : Timestamp) (tags : Option (List String))
    (timeRange : Option (Timestamp × Timestamp)) : Except MenteError (List (MemoryId × F)) :=
  recallHybridAtMode env w embedding queryText k at_ tags false timeRange

/-- A recall without filters. -/
def openRecall (env : Env F) (w : World F) (embedding : List F) (queryText : Option String)
    (k : Nat) (at_ : Timestamp) : List (MemoryId × F) :=
  recallHits env w queryText k { at_ := at_, tags := none, tagsOr := false, timeRange := none }
    (w.tables.openSearch env.rankers env.hashOrder w.retrievalConfig w.embeddingDim embedding
      queryText (k * 3 % usizeSize))

/-- Nothing is refused without filters. -/
theorem recallHybridAt_open (env : Env F) (w : World F) (embedding : List F)
    (queryText : Option String) (k : Nat) (at_ : Timestamp) :
    recallHybridAt env w embedding queryText k at_ none none =
      Except.ok (openRecall env w embedding queryText k at_) := by
  unfold recallHybridAt recallHybridAtMode
  rw [Tables.hybridSearchWithQueryMode_open]
  rfl

theorem recallHybridAtMode_eq_ok {env : Env F} {w : World F} {embedding : List F}
    {queryText : Option String} {k : Nat} {q : RecallFilter} {recalled : List (MemoryId × F)}
    (h : recallHybridAtMode env w embedding queryText k q.at_ q.tags q.tagsOr q.timeRange =
      Except.ok recalled) :
    exists hits,
      w.tables.hybridSearchWithQueryMode env.rankers env.hashOrder w.retrievalConfig
        w.embeddingDim embedding queryText q.tags q.tagsOr q.timeRange (k * 3 % usizeSize) =
          Except.ok hits ∧
        recalled = recallHits env w queryText k q hits := by
  rcases except_bind_ok h with ⟨hits, hhits, heq⟩
  cases heq
  exact ⟨hits, hhits, rfl⟩

end Candidates

/-!
## Every candidate passes the filters
-/

/-- The memory is stored and passes the tag filter and the time filter. -/
def Eligible (t : Tables F) (q : RecallFilter) (id : MemoryId) : Prop :=
  exists node, t.getMemory id = some node ∧ memoryMatchesTags node q.tags q.tagsOr = true ∧
    memoryMatchesTimeRange node q.timeRange = true

/-- Bounds of the time range are below {lit}`2^63`, where SQL compares correctly. -/
def RecallFilter.InSignedRange (q : RecallFilter) : Prop :=
  forall start stop, q.timeRange = some (start, stop) ->
    start.toNat < 2 ^ 63 ∧ stop.toNat < 2 ^ 63

section Eligible

variable [Arith F] {t : Tables F} {q : RecallFilter}

omit [Arith F] in
theorem memoryMatchesTags_of_idsMatchingTags {id : MemoryId} {node : MemoryNode F}
    (hnode : node.tags = t.tagsOf id)
    {limits : Limits} (h : forall ts, q.tags = some ts -> exists ids,
      t.idsMatchingTags limits ts q.tagsOr = Except.ok ids ∧ id ∈ ids) :
    memoryMatchesTags node q.tags q.tagsOr = true := by
  unfold memoryMatchesTags
  cases htags : q.tags with
  | none => rfl
  | some ts =>
      rcases h ts htags with ⟨ids, hids, hid⟩
      rcases Tables.mem_idsMatchingTags hids hid with ⟨hne, hmatch⟩
      have hcarries : forall tag, t.memoryTags.contains (id, tag) = true -> tag ∈ node.tags := by
        intro tag htag
        rw [hnode]
        exact Tables.mem_tagsOf.mpr htag
      simp only [List.isEmpty_iff, hne, if_false]
      cases hor : q.tagsOr with
      | true =>
          rw [hor, if_pos rfl] at hmatch
          rcases hmatch with ⟨tag, hin, htag⟩
          exact List.any_eq_true.mpr ⟨tag, hin, by simpa using hcarries tag htag⟩
      | false =>
          rw [hor] at hmatch
          refine List.all_eq_true.mpr ?_
          intro tag hin
          simpa using hcarries tag (hmatch tag hin)

/-- Search hits are eligible. -/
theorem eligible_of_hybridSearch {rankers : Rankers F} {o : HashOrder}
    {config : RetrievalConfig F} {dim : Nat} {embedding : List F} {queryText : Option String}
    {k : Nat} {hits : List (MemoryId × F)} (hrange : q.InSignedRange)
    (h : t.hybridSearchWithQueryMode rankers o config dim embedding queryText q.tags
      q.tagsOr q.timeRange k = Except.ok hits) {hit : MemoryId × F} (hhit : hit ∈ hits) :
    Eligible t q hit.1 := by
  rcases Tables.hybridSearchWithQueryMode_spec h hhit with ⟨hstored, candidates, hcands, hin⟩
  rcases Option.isSome_iff_exists.mp hstored with ⟨row, hrow⟩
  have hfind : t.memories.find? hit.1 = some row := hrow
  have hget : t.getMemory hit.1 = some (Tables.nodeOfRow hit.1 row (t.tagsOf hit.1)) := by
    simp [Tables.getMemory, hfind]
  rcases Tables.mem_candidateSet hcands hin with ⟨htags, htime⟩
  refine ⟨_, hget, memoryMatchesTags_of_idsMatchingTags rfl htags, ?_⟩
  unfold memoryMatchesTimeRange
  cases hr : q.timeRange with
  | none => rfl
  | some range =>
      rcases range with ⟨start, stop⟩
      rcases Tables.mem_idsMatchingTime (hrange start stop hr).1 (htime start stop hr) with
        ⟨row', hrow', hlow, hhigh⟩
      rw [hfind] at hrow'
      cases hrow'
      simp [Tables.nodeOfRow, hlow, hhigh]

/-- All scored memories are eligible. -/
def AllEligible (t : Tables F) (q : RecallFilter) (scored : Assoc MemoryId F) : Prop :=
  forall id, id ∈ scored.keys -> Eligible t q id

omit [Arith F] in
theorem AllEligible.upsert {scored : Assoc MemoryId F} (h : AllEligible t q scored)
    {id : MemoryId} (hid : Eligible t q id) (f : Option F -> F) :
    AllEligible t q (scored.upsert id f) := by
  intro j hj
  rw [← Assoc.contains_iff_mem_keys, Assoc.contains_upsert] at hj
  simp only [Bool.or_eq_true, decide_eq_true_eq] at hj
  cases hj with
  | inl heq =>
      rw [heq]
      exact hid
  | inr hold => exact h j (Assoc.contains_iff_mem_keys.mp hold)

theorem AllEligible.addRecallCandidate {scored : Assoc MemoryId F} (h : AllEligible t q scored)
    (id : MemoryId) (boost : F) : AllEligible t q (addRecallCandidate t q scored id boost) := by
  unfold Facade.addRecallCandidate
  split
  · exact h
  · cases hget : t.getMemory id with
    | none => exact h
    | some memory =>
        simp only
        split
        · exact h
        · rename_i hpass
          simp only [Bool.or_eq_true, Bool.not_eq_eq_eq_not, Bool.not_true, not_or,
            Bool.not_eq_false] at hpass
          exact h.upsert ⟨memory, hget, hpass.1.1, hpass.1.2⟩ _

omit [Arith F] in
theorem AllEligible.foldl {α : Type} {f : Assoc MemoryId F -> α -> Assoc MemoryId F}
    (hf : forall s x, AllEligible t q s -> AllEligible t q (f s x)) (xs : List α)
    {scored : Assoc MemoryId F} (h : AllEligible t q scored) :
    AllEligible t q (xs.foldl f scored) := by
  induction xs generalizing scored with
  | nil => exact h
  | cons x rest ih => exact ih (hf scored x h)

theorem AllEligible.addLinkCandidates {scored : Assoc MemoryId F} (h : AllEligible t q scored)
    (config : EntityExtractionConfig F) (entityId : String) (boost : F -> F) :
    AllEligible t q (addLinkCandidates t config q entityId boost scored) :=
  AllEligible.foldl (fun _ _ hs => hs.addRecallCandidate _ _) _ h

theorem AllEligible.addClaimCandidates {scored : Assoc MemoryId F} (h : AllEligible t q scored)
    (config : EntityExtractionConfig F) (confidence : F) (claim : ClaimRecord F) :
    AllEligible t q (addClaimCandidates t config q confidence scored claim) := by
  unfold Facade.addClaimCandidates
  split
  · exact AllEligible.foldl (fun _ _ hs => hs.addRecallCandidate _ _) _ h
  · exact h

theorem AllEligible.addRelationshipCandidates {scored : Assoc MemoryId F}
    (h : AllEligible t q scored) (config : EntityExtractionConfig F) (confidence : F)
    (entityId : String) (relationship : EntityRelationship F) :
    AllEligible t q
      (addRelationshipCandidates t config q confidence entityId scored relationship) := by
  unfold Facade.addRelationshipCandidates
  split
  · have hevidence := AllEligible.foldl (t := t) (q := q)
      (f := fun scored (evidence : String × EvidenceRow F) =>
        Facade.addRecallCandidate t q scored evidence.2.memoryId
          (config.recallBoost * confidence * max relationship.2.confidence 0
            * max evidence.2.confidence 0))
      (fun _ _ hs => hs.addRecallCandidate _ _)
      ((t.relationshipEvidenceFor relationship.1).take config.recallFetchLimit) h
    simp only
    split
    · exact hevidence
    · exact hevidence.addLinkCandidates config _ _
  · exact h

theorem AllEligible.addEntityCandidates {scored : Assoc MemoryId F} (h : AllEligible t q scored)
    (config : EntityExtractionConfig F) (confidence : F) (entity : EntityRecord F) :
    AllEligible t q (addEntityCandidates t config q confidence scored entity) := by
  have hlinks := h.addLinkCandidates config entity.1
    (fun c => config.recallBoost * confidence * c)
  have hclaims := AllEligible.foldl
    (fun _ claim hs => hs.addClaimCandidates config confidence claim)
    ((t.claimsForEntity entity.1).take config.recallFetchLimit) hlinks
  exact AllEligible.foldl
    (fun _ relationship hs =>
      hs.addRelationshipCandidates config confidence entity.1 relationship) _ hclaims

omit [Arith F] in
theorem allEligible_empty : AllEligible t q (Assoc.empty : Assoc MemoryId F) := by
  intro id hid
  cases hid

/-- Memories reached through entities are eligible. -/
theorem eligible_of_entityRecallCandidates {env : Env F} {queryText : Option String}
    {candidate : MemoryId × F} (h : candidate ∈ entityRecallCandidates env t queryText q) :
    Eligible t q candidate.1 := by
  unfold entityRecallCandidates at h
  cases queryText with
  | none => cases h
  | some query =>
      simp only at h
      split at h
      · cases h
      · rw [HashOrder.mem_order] at h
        refine AllEligible.foldl (fun s name hs => ?_) _ allEligible_empty candidate.1
          (List.mem_map_of_mem h)
        exact AllEligible.foldl (fun _ entity hs =>
          hs.addEntityCandidates env.config.entityExtractionConfig name.2 entity) _ hs

/-- A property of the search hits and of the entity candidates is one of
everything recall considers. -/
theorem forall_recallScored {env : Env F} {w : World F} {queryText : Option String}
    {hits : List (MemoryId × F)} {P : MemoryId -> Prop}
    (hsearch : forall hit, hit ∈ hits -> P hit.1)
    (hentity : forall c, c ∈ entityRecallCandidates env w.tables queryText q -> P c.1)
    {hit : MemoryId × F} (h : hit ∈ recallScored env w queryText q hits) : P hit.1 := by
  -- the table starts with the search hits and is then boosted entry by entry
  have hfold : forall (xs : List (MemoryId × F)) (f : Assoc MemoryId F -> MemoryId × F ->
      Assoc MemoryId F) (hf : forall s x, exists g, f s x = s.upsert x.1 g)
      (s : Assoc MemoryId F), (forall id, id ∈ s.keys -> P id) ->
      (forall x, x ∈ xs -> P x.1) -> forall id, id ∈ (xs.foldl f s).keys -> P id := by
    intro xs f hf
    induction xs with
    | nil =>
        intro s hs _
        exact hs
    | cons x rest ih =>
        intro s hs hxs
        rcases hf s x with ⟨g, hg⟩
        rw [List.foldl_cons, hg]
        refine ih _ ?_ (fun y hy => hxs y (List.mem_cons_of_mem x hy))
        intro id hid
        rw [← Assoc.contains_iff_mem_keys, Assoc.contains_upsert] at hid
        cases (Bool.or_eq_true _ _).mp hid with
        | inl hnew =>
            have heq : id = x.1 := by simpa using hnew
            rw [heq]
            exact hxs x List.mem_cons_self
        | inr hold => exact hs id (Assoc.contains_iff_mem_keys.mp hold)
  unfold recallScored at h
  rw [HashOrder.mem_order] at h
  refine hfold _ _ (fun s x => ⟨_, rfl⟩) _ ?_ hentity hit.1 (List.mem_map_of_mem h)
  refine hfold _ _ (fun s x => ⟨_, rfl⟩) _ ?_ hsearch
  intro id hid
  cases hid

theorem nodup_recallScored {env : Env F} {w : World F} {queryText : Option String}
    {hits : List (MemoryId × F)} :
    ((recallScored env w queryText q hits).map Prod.fst).Nodup := by
  unfold recallScored
  exact ((env.hashOrder.perm _).map Prod.fst).nodup_iff.mpr (Assoc.nodup _)

end Eligible

/-!
## Soundness
-/

/-- No incoming edge supersedes or contradicts the memory at the instant. -/
def Unsuperseded (g : CsrGraph F) (at_ : Timestamp) (id : MemoryId) : Prop :=
  forall source e, (source, e) ∈ g.incoming id ->
    (e.edgeType = EdgeType.supersedes ∨ e.edgeType = EdgeType.contradicts) ->
      e.isValidAt at_ = false

/-- What recall promises about each memory it returns. -/
structure Recallable (w : World F) (q : RecallFilter) (id : MemoryId) : Prop where
  unsuperseded : Unsuperseded w.graph q.at_ id
  node : exists node, w.tables.getMemory id = some node ∧ node.isValidAt q.at_ = true ∧
    memoryMatchesTags node q.tags q.tagsOr = true ∧
    memoryMatchesTimeRange node q.timeRange = true ∧
    ("archived" ∈ node.tags -> exists ts, q.tags = some ts ∧ "archived" ∈ ts)

theorem hasActiveSupersede_eq_false_iff {g : CsrGraph F} {id : MemoryId} {at_ : Timestamp} :
    hasActiveSupersede g id at_ = false <-> Unsuperseded g at_ id := by
  unfold hasActiveSupersede Unsuperseded
  rw [List.any_eq_false]
  constructor
  · intro h source e hin htype
    have hnot := h (source, e) hin
    unfold hidingEdge at hnot
    cases htype with
    | inl hs => simpa [hs] using hnot
    | inr hc => simpa [hc] using hnot
  · intro h p hp
    unfold hidingEdge
    have hvalid := h p.1 p.2 hp
    simp only [Bool.and_eq_true, Bool.or_eq_true, decide_eq_true_eq, not_and,
      Bool.not_eq_true]
    exact hvalid

theorem archivedRequested_iff {tags : Option (List String)} :
    archivedRequested tags = true <-> exists ts, tags = some ts ∧ "archived" ∈ ts := by
  cases tags with
  | none => simp [archivedRequested]
  | some ts => simp [archivedRequested]

/-- The visibility part, which does not depend on the caller's filters. -/
theorem visible_of_mem_recall [Arith F] {env : Env F} {w : World F} {embedding : List F}
    {queryText : Option String} {k : Nat} {q : RecallFilter} {recalled : List (MemoryId × F)}
    (h : recallHybridAtMode env w embedding queryText k q.at_ q.tags q.tagsOr q.timeRange =
      Except.ok recalled) {hit : MemoryId × F} (hhit : hit ∈ recalled) :
    Unsuperseded w.graph q.at_ hit.1 ∧
      exists node, w.tables.getMemory hit.1 = some node ∧ node.isValidAt q.at_ = true ∧
        ("archived" ∈ node.tags -> exists ts, q.tags = some ts ∧ "archived" ∈ ts) := by
  rcases recallHybridAtMode_eq_ok h with ⟨hits, hhits, heq⟩
  rw [heq] at hhit
  have hkept := List.mem_filter.mp (List.mem_of_mem_take hhit)
  have hunhidden := List.mem_filter.mp hkept.1
  have hstored : exists node, w.tables.getMemory hit.1 = some node := by
    refine forall_recallScored (P := fun id => exists node, w.tables.getMemory id = some node)
      ?_ ?_ (mem_rank.mp hunhidden.1)
    · intro x hx
      have hcontains := (Tables.hybridSearchWithQueryMode_spec hhits hx).1
      rw [MemoryTable.contains_eq] at hcontains
      rcases Option.isSome_iff_exists.mp hcontains with ⟨row, hrow⟩
      exact ⟨Tables.nodeOfRow x.1 row (w.tables.tagsOf x.1), by simp [Tables.getMemory, hrow]⟩
    · intro c hc
      rcases eligible_of_entityRecallCandidates hc with ⟨node, hnode, _⟩
      exact ⟨node, hnode⟩
  rcases hstored with ⟨node, hget⟩
  have hvisible := hkept.2
  unfold currentlyVisible at hvisible
  rw [hget] at hvisible
  simp only [Bool.and_eq_true, Bool.or_eq_true, Bool.not_eq_eq_eq_not, Bool.not_true] at hvisible
  constructor
  · exact hasActiveSupersede_eq_false_iff.mp (by simpa using hunhidden.2)
  · refine ⟨node, hget, hvisible.1, ?_⟩
    intro harchived
    cases hvisible.2 with
    | inl hnot => simp [memoryIsArchived, harchived] at hnot
    | inr hrequested => exact archivedRequested_iff.mp hrequested

theorem recallable_of_mem [Arith F] {env : Env F} {w : World F} {embedding : List F}
    {queryText : Option String} {k : Nat} {q : RecallFilter} (hrange : q.InSignedRange)
    {recalled : List (MemoryId × F)}
    (h : recallHybridAtMode env w embedding queryText k q.at_ q.tags q.tagsOr q.timeRange =
      Except.ok recalled) {hit : MemoryId × F} (hhit : hit ∈ recalled) :
    Recallable w q hit.1 := by
  rcases visible_of_mem_recall h hhit with ⟨hunsuperseded, node, hget, hvalid, harchived⟩
  rcases recallHybridAtMode_eq_ok h with ⟨hits, hhits, heq⟩
  rw [heq] at hhit
  have hkept := List.mem_filter.mp (List.mem_of_mem_take hhit)
  have hscored := mem_rank.mp (List.mem_filter.mp hkept.1).1
  have heligible : Eligible w.tables q hit.1 :=
    forall_recallScored (fun x hx => eligible_of_hybridSearch hrange hhits hx)
      (fun c hc => eligible_of_entityRecallCandidates hc) hscored
  rcases heligible with ⟨node', hget', htags, htime⟩
  rw [hget] at hget'
  cases hget'
  exact ⟨hunsuperseded, node, hget, hvalid, htags, htime, harchived⟩

/-- Recall lists different memories, best first. -/
theorem isRanking_recallHits [Arith F] (env : Env F) (w : World F) (queryText : Option String)
    (k : Nat) (q : RecallFilter) (hits : List (MemoryId × F)) :
    IsRanking (recallHits env w queryText k q hits) :=
  (((isRanking_rank nodup_recallScored).filter _).filter _).take k

/-- Recall returns at most {lit}`k` distinct memories, best first, and each of
them is visible and passes the caller's filters. -/
theorem recallHybridAtMode_sound [Arith F] (env : Env F) (w : World F) (embedding : List F)
    (queryText : Option String) (k : Nat) (q : RecallFilter) (hrange : q.InSignedRange)
    (recalled : List (MemoryId × F))
    (h : recallHybridAtMode env w embedding queryText k q.at_ q.tags q.tagsOr q.timeRange =
      Except.ok recalled) :
    (recalled.map Prod.fst).Nodup ∧ recalled.length <= k ∧
      recalled.Pairwise (fun a b => b.2 <= a.2) ∧
      forall hit, hit ∈ recalled -> Recallable w q hit.1 := by
  rcases recallHybridAtMode_eq_ok h with ⟨hits, _, heq⟩
  have hranking := isRanking_recallHits env w queryText k q hits
  rw [← heq] at hranking
  refine ⟨hranking.nodup, ?_, hranking.sorted, fun hit hhit => recallable_of_mem hrange h hhit⟩
  rw [heq]
  exact List.length_take_le _ _

def turinMemory : MemoryNode Rat :=
  { MemoryNode.new ⟨7⟩ 1000 AgentId.nil MemoryType.semantic "Ada met Bob in Turin" [3, 4] with
    tags := ["trip"] }

/-- One stored memory, registered in the graph. -/
def turinWorld : World Rat :=
  { emptyWorld with
    tables := ((Tables.storeMemory 0 turinMemory Tables.empty).toOption).getD Tables.empty
    graph := GraphManager.addMemory emptyWorld.graph ⟨7⟩ }

def turinFilter : RecallFilter where
  at_ := 1500
  tags := some ["trip"]
  tagsOr := false
  timeRange := some (500, 1500)

theorem recallHybridAtMode_sound_turin :
    exists recalled,
      recallHybridAtMode (calmEnv CognitiveConfig.default) turinWorld [3, 4] none 5 1500
        (some ["trip"]) false (some (500, 1500)) = Except.ok recalled ∧
      recalled.map Prod.fst = [⟨7⟩] ∧ Recallable turinWorld turinFilter ⟨7⟩ := by
  have hhits : (recallHybridAtMode (calmEnv CognitiveConfig.default) turinWorld [3, 4] none 5
      1500 (some ["trip"]) false (some (500, 1500))).map (List.map Prod.fst) =
        Except.ok [⟨7⟩] := by decide +kernel
  rcases except_map_ok hhits with ⟨recalled, hrecalled, hids⟩
  have hrange : turinFilter.InSignedRange := by
    intro start stop hr
    cases hr
    decide
  have hsound := recallHybridAtMode_sound (calmEnv CognitiveConfig.default) turinWorld [3, 4]
    none 5 turinFilter hrange recalled hrecalled
  refine ⟨recalled, hrecalled, hids, ?_⟩
  have hmem : (⟨7⟩ : MemoryId) ∈ recalled.map Prod.fst := by
    rw [hids]
    exact List.mem_cons_self
  rcases List.mem_map.mp hmem with ⟨hit, hhit, hid⟩
  rw [← hid]
  exact hsound.2.2.2 hit hhit

end Facade
end MenteDb
