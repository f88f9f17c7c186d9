import MenteDb.Facade.ExtractionJobs
import MenteDb.Sqlite.Audit
import MenteDb.Sqlite.References

/-!
# Validated batches persist

The validator looks up references inside the batch, the database looks them up in its
tables, in the order in which the rows are written.  Tables only grow while a batch is
written, so what the validator has seen in the batch is in the tables by the time a
row refers to it.
-/

namespace MenteDb
namespace Facade

open Foundation
open Sqlite
open Cognitive

variable {F : Type}

/-!
## What the validator has checked
-/

theorem check_bind {a b : Check} (h : (do a; b) = Except.ok ()) :
    a = Except.ok () ∧ b = Except.ok () := by
  cases a with
  | ok u => exact ⟨rfl, h⟩
  | error e => cases h

theorem checkEach_ok {α : Type} {xs : List α} {check : α -> Check}
    (h : checkEach xs check = Except.ok ()) {x : α} (hx : x ∈ xs) : check x = Except.ok () := by
  induction xs with
  | nil => cases hx
  | cons y rest ih =>
      have hboth := check_bind h
      cases List.mem_cons.mp hx with
      | inl heq =>
          rw [heq]
          exact hboth.1
      | inr hmem => exact ih hboth.2 hmem

theorem requireKnown_ok {known : List String} {value record field : String}
    (h : requireKnown known value record field = Except.ok ()) : value ∈ known := by
  unfold requireKnown at h
  split at h
  · rename_i hmem
    exact hmem
  · cases h

theorem requireKnownIfGiven_ok {known : List String} {value : Option String}
    {record field : String} (h : requireKnownIfGiven known value record field = Except.ok ())
    {id : String} (hid : value = some id) : id ∈ known := by
  subst hid
  exact requireKnown_ok h

/-- References between the rows of a batch lead to rows of the batch. -/
structure InternalReferences (batch : ValidatedExtractionBatch F) : Prop where
  aliases : forall name, name ∈ batch.entityAliases -> name.1.1 ∈ batch.entities.map Prod.fst
  links : forall link, link ∈ batch.memoryEntities ->
    link.entityId ∈ batch.entities.map Prod.fst
  subjects : forall claim, claim ∈ batch.claims -> forall id,
    claim.2.subjectEntityId = some id -> id ∈ batch.entities.map Prod.fst
  objects : forall claim, claim ∈ batch.claims -> forall id,
    claim.2.objectEntityId = some id -> id ∈ batch.entities.map Prod.fst
  claimEntities : forall link, link ∈ batch.claimEntities ->
    link.1.1 ∈ batch.claims.map Prod.fst ∧ link.1.2.1 ∈ batch.entities.map Prod.fst
  claimEvidence : forall evidence, evidence ∈ batch.claimEvidence ->
    evidence.2.ownerId ∈ batch.claims.map Prod.fst
  relationships : forall relationship, relationship ∈ batch.relationships ->
    relationship.2.sourceEntityId ∈ batch.entities.map Prod.fst ∧
      relationship.2.targetEntityId ∈ batch.entities.map Prod.fst
  relationshipEvidence : forall evidence, evidence ∈ batch.relationshipEvidence ->
    evidence.2.ownerId ∈ batch.relationships.map Prod.fst

section Validator

variable [Scalar F] {text : TextOps F} {json : JsonOps}

theorem validateClaim_ok {entityIds : List String} {claim : ClaimRecord F}
    (h : validateClaim text json entityIds claim = Except.ok ()) :
    (forall id, claim.2.subjectEntityId = some id -> id ∈ entityIds) ∧
      (forall id, claim.2.objectEntityId = some id -> id ∈ entityIds) := by
  have hsubject := (check_bind (check_bind (check_bind (check_bind h).2).2).2).2
  have hobject := (check_bind hsubject).2
  exact ⟨fun id hid => requireKnownIfGiven_ok (check_bind hsubject).1 hid,
    fun id hid => requireKnownIfGiven_ok (check_bind hobject).1 hid⟩

theorem validateRelationship_ok {entityIds : List String} {relationship : EntityRelationship F}
    (h : validateRelationship text json entityIds relationship = Except.ok ()) :
    relationship.2.sourceEntityId ∈ entityIds ∧ relationship.2.targetEntityId ∈ entityIds := by
  have hsource := (check_bind h).2
  have htarget := (check_bind hsource).2
  exact ⟨requireKnown_ok (check_bind hsource).1, requireKnown_ok (check_bind htarget).1⟩

theorem internalReferences_of_valid {batch : ValidatedExtractionBatch F}
    (h : validateExtractionBatch text json batch = Except.ok ()) : InternalReferences batch := by
  have hentities := (check_bind h).2
  have haliases := (check_bind hentities).2
  have hlinks := (check_bind haliases).2
  have hclaims := (check_bind hlinks).2
  have hclaimEntities := (check_bind hclaims).2
  have hclaimEvidence := (check_bind hclaimEntities).2
  have hrelationships := (check_bind hclaimEvidence).2
  have hevidence := (check_bind hrelationships).2
  refine ⟨?_, ?_, ?_, ?_, ?_, ?_, ?_, ?_⟩
  · intro name hname
    exact requireKnown_ok (check_bind (checkEach_ok (check_bind haliases).1 hname)).1
  · intro link hlink
    exact requireKnown_ok (check_bind (checkEach_ok (check_bind hlinks).1 hlink)).1
  · intro claim hclaim
    exact (validateClaim_ok (checkEach_ok (check_bind hclaims).1 hclaim)).1
  · intro claim hclaim
    exact (validateClaim_ok (checkEach_ok (check_bind hclaims).1 hclaim)).2
  · intro link hlink
    have hboth := check_bind (checkEach_ok (check_bind hclaimEntities).1 hlink)
    exact ⟨requireKnown_ok hboth.1, requireKnown_ok (check_bind hboth.2).1⟩
  · intro evidence hmem
    exact requireKnown_ok (check_bind (checkEach_ok (check_bind hclaimEvidence).1 hmem)).1
  · intro relationship hmem
    exact validateRelationship_ok (checkEach_ok (check_bind hrelationships).1 hmem)
  · intro evidence hmem
    exact requireKnown_ok (check_bind (checkEach_ok hevidence hmem)).1

end Validator

/-!
## The transaction
-/

/-- What a batch refers to outside itself is stored. -/
structure ExternalReferences (t : Tables F) (batch : ValidatedExtractionBatch F) : Prop where
  runMemory : forall id, batch.run.2.sourceMemoryId = some id -> t.memories.contains id = true
  runConversation : forall id, batch.run.2.conversationId = some id ->
    t.conversations.contains id = true
  linkMemories : forall link, link ∈ batch.memoryEntities ->
    t.memories.contains link.memoryId = true
  claimRuns : forall claim, claim ∈ batch.claims -> forall id, claim.2.sourceRunId = some id ->
    id = batch.run.1 ∨ t.extractionRuns.contains id = true
  claimEvidence : forall evidence, evidence ∈ batch.claimEvidence ->
    t.memories.contains evidence.2.memoryId = true ∧
      forall id, evidence.2.sourceId = some id -> t.memorySources.contains id = true
  relationshipRuns : forall relationship, relationship ∈ batch.relationships -> forall id,
    relationship.2.sourceRunId = some id ->
      id = batch.run.1 ∨ t.extractionRuns.contains id = true
  relationshipEvidence : forall evidence, evidence ∈ batch.relationshipEvidence ->
    t.memories.contains evidence.2.memoryId = true ∧
      forall id, evidence.2.sourceId = some id -> t.memorySources.contains id = true

/-- The entities of the batch are in the tables. -/
def EntitiesStored (batch : ValidatedExtractionBatch F) (t : Tables F) : Prop :=
  forall id, id ∈ batch.entities.map Prod.fst -> t.entities.contains id = true

theorem EntitiesStored.mono {batch : ValidatedExtractionBatch F} {t t' : Tables F}
    (h : EntitiesStored batch t) (hgrown : Tables.Grown t t') : EntitiesStored batch t' :=
  fun id hid => hgrown.entities id (h id hid)

/-- The rows that claims and relationships of the batch refer to. -/
structure Prepared (batch : ValidatedExtractionBatch F) (t0 t : Tables F) : Prop where
  grown : Tables.Grown t0 t
  entities : EntitiesStored batch t
  run : t.extractionRuns.contains batch.run.1 = true

theorem Prepared.mono {batch : ValidatedExtractionBatch F} {t0 t t' : Tables F}
    (h : Prepared batch t0 t) (hgrown : Tables.Grown t t') : Prepared batch t0 t' :=
  ⟨h.grown.trans hgrown, h.entities.mono hgrown, hgrown.extractionRuns _ h.run⟩

theorem Prepared.refersTo_run {batch : ValidatedExtractionBatch F} {t0 t : Tables F}
    (h : Prepared batch t0 t) {column : Option String}
    (hcolumn : forall id, column = some id ->
      id = batch.run.1 ∨ t0.extractionRuns.contains id = true) :
    Tables.refersTo column t.extractionRuns.contains = true := by
  refine Tables.refersTo_of_forall ?_
  intro id hid
  cases hcolumn id hid with
  | inl heq =>
      rw [heq]
      exact h.run
  | inr hold => exact h.grown.extractionRuns id hold

theorem Prepared.refersTo_source {batch : ValidatedExtractionBatch F} {t0 t : Tables F}
    (h : Prepared batch t0 t) {column : Option String}
    (hcolumn : forall id, column = some id -> t0.memorySources.contains id = true) :
    Tables.refersTo column t.memorySources.contains = true :=
  Tables.refersTo_of_forall (fun id hid => h.grown.memorySources id (hcolumn id hid))

section Rows

variable {batch : ValidatedExtractionBatch F} {t0 t : Tables F}

theorem writes_claims (hinside : InternalReferences batch)
    (houtside : ExternalReferences t0 batch) (h : Prepared batch t0 t) :
    Tables.Writes (Atomic.forEach batch.claims Tables.upsertClaimOn) t
      (fun t' => forall claim, claim ∈ batch.claims -> t'.claims.contains claim.1 = true) := by
  refine Tables.writes_forEach ?_ (fun claim s s' hgrown hclaim => hgrown.claims claim.1 hclaim)
  intro claim hclaim s hs
  have hs' := h.mono hs
  exact Tables.writes_upsertClaimOn
    (Tables.refersTo_of_forall (fun id hid =>
      hs'.entities id (hinside.subjects claim hclaim id hid)))
    (Tables.refersTo_of_forall (fun id hid =>
      hs'.entities id (hinside.objects claim hclaim id hid)))
    (hs'.refersTo_run (houtside.claimRuns claim hclaim))

theorem writes_claimEntities (hinside : InternalReferences batch) (h : Prepared batch t0 t)
    (hclaims : forall claim, claim ∈ batch.claims -> t.claims.contains claim.1 = true) :
    Tables.Writes (Atomic.forEach batch.claimEntities Tables.linkClaimEntityOn) t
      (fun _ => True) := by
  refine Tables.writes_forEach_leaf ?_
  intro link hlink s hs
  have hends := hinside.claimEntities link hlink
  exact Tables.writes_linkClaimEntityOn
    (hs.claims _ (Tables.contains_of_mem_keys hclaims hends.1))
    ((h.mono hs).entities _ hends.2)

theorem writes_claimEvidence (hinside : InternalReferences batch)
    (houtside : ExternalReferences t0 batch) (h : Prepared batch t0 t)
    (hclaims : forall claim, claim ∈ batch.claims -> t.claims.contains claim.1 = true) :
    Tables.Writes (Atomic.forEach batch.claimEvidence Tables.addClaimEvidenceOn) t
      (fun _ => True) := by
  refine Tables.writes_forEach_leaf ?_
  intro evidence hevidence s hs
  have houtside := houtside.claimEvidence evidence hevidence
  have hs' := h.mono hs
  exact Tables.writes_addClaimEvidenceOn
    (hs.claims _ (Tables.contains_of_mem_keys hclaims (hinside.claimEvidence evidence hevidence)))
    (hs'.grown.memories _ houtside.1) (hs'.refersTo_source houtside.2)

theorem writes_relationships (hinside : InternalReferences batch)
    (houtside : ExternalReferences t0 batch) (h : Prepared batch t0 t) :
    Tables.Writes (Atomic.forEach batch.relationships Tables.upsertEntityRelationshipOn) t
      (fun t' => forall relationship, relationship ∈ batch.relationships ->
        t'.entityRelationships.contains relationship.1 = true) := by
  refine Tables.writes_forEach ?_ (fun relationship s s' hgrown hrow =>
    hgrown.entityRelationships relationship.1 hrow)
  intro relationship hmem s hs
  have hs' := h.mono hs
  have hends := hinside.relationships relationship hmem
  exact Tables.writes_upsertEntityRelationshipOn (hs'.entities _ hends.1) (hs'.entities _ hends.2)
    (hs'.refersTo_run (houtside.relationshipRuns relationship hmem))

theorem writes_relationshipEvidence (hinside : InternalReferences batch)
    (houtside : ExternalReferences t0 batch) (h : Prepared batch t0 t)
    (hrelationships : forall relationship, relationship ∈ batch.relationships ->
      t.entityRelationships.contains relationship.1 = true) :
    Tables.Writes (Atomic.forEach batch.relationshipEvidence Tables.addRelationshipEvidenceOn) t
      (fun _ => True) := by
  refine Tables.writes_forEach_leaf ?_
  intro evidence hevidence s hs
  have houtside := houtside.relationshipEvidence evidence hevidence
  have hs' := h.mono hs
  exact Tables.writes_addRelationshipEvidenceOn
    (hs.entityRelationships _
      (Tables.contains_of_mem_keys hrelationships
        (hinside.relationshipEvidence evidence hevidence)))
    (hs'.grown.memories _ houtside.1) (hs'.refersTo_source houtside.2)

/-- The run and the entities are written first; everything else refers to them, to what
was stored before, or to claims and relationships that are written before it. -/
theorem persistExtractionArtifacts_succeeds (hinside : InternalReferences batch)
    (houtside : ExternalReferences t0 batch) :
    exists t', Tables.persistExtractionArtifacts batch.artifacts t0 = Except.ok t' := by
  have hwrites : Tables.Writes (Tables.upsertExtractionRunOn batch.run) t0
      (fun t' => t'.extractionRuns.contains batch.run.1 = true) :=
    Tables.writes_upsertExtractionRunOn (Tables.refersTo_of_forall houtside.runMemory)
      (Tables.refersTo_of_forall houtside.runConversation)
  rcases hwrites with ⟨t1, hrun1, hgrown1, hrun⟩
  have hlinks : forall link, link ∈ batch.artifacts.memoryEntities ->
      t1.memories.contains link.1.1 = true ∧ link.1.2.1 ∈ batch.entities.map Prod.fst := by
    intro link hlink
    rcases List.mem_map.mp hlink with ⟨record, hrecord, heq⟩
    subst heq
    exact ⟨hgrown1.memories _ (houtside.linkMemories record hrecord),
      hinside.links record hrecord⟩
  rcases Tables.writes_upsertEntityBundle hinside.aliases hlinks
    with ⟨t2, hrun2, hgrown2, hentities⟩
  have h2 : Prepared batch t0 t2 :=
    ⟨hgrown1.trans hgrown2, hentities, hgrown2.extractionRuns _ hrun⟩
  rcases writes_claims hinside houtside h2 with ⟨t3, hrun3, hgrown3, hclaims3⟩
  have h3 := h2.mono hgrown3
  rcases writes_claimEntities hinside h3 hclaims3 with ⟨t4, hrun4, hgrown4, _⟩
  have h4 := h3.mono hgrown4
  have hclaims4 := fun claim hclaim => hgrown4.claims _ (hclaims3 claim hclaim)
  rcases writes_claimEvidence hinside houtside h4 hclaims4 with ⟨t5, hrun5, hgrown5, _⟩
  have h5 := h4.mono hgrown5
  rcases writes_relationships hinside houtside h5 with ⟨t6, hrun6, hgrown6, hrows6⟩
  rcases writes_relationshipEvidence hinside houtside (h5.mono hgrown6) hrows6
    with ⟨t7, hrun7, _⟩
  refine ⟨t7, Atomic.andThen_eq_ok.mpr ⟨t1, hrun1, ?_⟩⟩
  refine Atomic.andThen_eq_ok.mpr ⟨t2, hrun2, ?_⟩
  refine Atomic.andThen_eq_ok.mpr ⟨t3, hrun3, ?_⟩
  refine Atomic.andThen_eq_ok.mpr ⟨t4, hrun4, ?_⟩
  refine Atomic.andThen_eq_ok.mpr ⟨t5, hrun5, ?_⟩
  exact Atomic.andThen_eq_ok.mpr ⟨t6, hrun6, hrun7⟩

end Rows

theorem commit_error {fault : Option MenteError} {tx : AuditedTx F} {s s' : AuditedTables F}
    {e : MenteError} (h : AuditedTables.commit fault tx s = (Except.error e, s')) : s' = s := by
  unfold AuditedTables.commit at h
  split at h
  · cases h
    rfl
  · split at h
    · cases h
      rfl
    · cases h

/-- A batch that the validator accepts, and whose outer references are stored, violates
no constraint: the transaction succeeds, and the tables then hold its rows besides what
they held.  When it fails, which only the storage can then cause, the database is as it
was. -/
theorem validated_batch_persists [Scalar F] (text : TextOps F) (json : JsonOps)
    (newId : Nat -> String) (batch : ValidatedExtractionBatch F) (s : AuditedTables F) :
    (validateExtractionBatch text json batch = Except.ok () ->
      ExternalReferences s.tables batch -> AuditedTables.FreshIds newId s ->
        exists s', AuditedTables.persistExtractionArtifacts newId batch.artifacts s =
            Except.ok s' ∧
          s'.tables = Tables.persisted batch.artifacts s.tables) ∧
      forall fault e s',
        AuditedTables.commit fault
            (AuditedTables.persistExtractionArtifacts newId batch.artifacts) s =
          (Except.error e, s') -> s' = s := by
  constructor
  · intro hvalid houtside hfresh
    rcases persistExtractionArtifacts_succeeds (internalReferences_of_valid hvalid) houtside
      with ⟨t, hrun⟩
    rcases AuditedTables.audits_persistExtractionArtifacts batch.artifacts s t hfresh hrun
      with ⟨s', hpersist, htables, _⟩
    exact ⟨s', hpersist, htables.trans (Tables.persistExtractionArtifacts_ok hrun)⟩
  · intro fault e s' hcommit
    exact commit_error hcommit

/-!
### A claim about Ada
-/

/-- Texts without blanks at their ends, and documents that are empty objects. -/
def plainText : TextOps Rat where
  splitWhitespace := fun s => [s]
  toLowercase := fun s => s
  trim := fun s => s
  fixed2 := fun _ => "1.00"
  fixed3 := fun _ => "1.000"

def emptyObjects : JsonOps where
  parse := fun _ => Except.ok (Json.object [])
  print := fun _ => "\x7b\x7d"

/-- Identifiers of growing length. -/
def unaryId (n : Nat) : String := String.ofList (List.replicate n 'i')

theorem unaryId_injective {m n : Nat} (h : unaryId m = unaryId n) : m = n := by
  have hlists := congrArg String.toList h
  unfold unaryId at hlists
  rw [String.toList_ofList, String.toList_ofList] at hlists
  simpa using congrArg List.length hlists

def adaEntity (id canonical : String) : EntityRecord Rat :=
  (id,
    { entityType := "person"
      canonical := canonical
      attributesJson := "\x7b\x7d"
      confidence := 1
      createdAt := 1000
      updatedAt := 1000 })

def adaEvidence (owner : String) : EvidenceRow Rat where
  ownerId := owner
  memoryId := ⟨7⟩
  sourceId := none
  evidenceText := none
  spanStart := none
  spanEnd := none
  confidence := 1
  createdAt := 1000

def adaBatch : ValidatedExtractionBatch Rat where
  run :=
    ("run",
      { sourceMemoryId := some ⟨7⟩
        conversationId := none
        extractor := "llm_extraction"
        extractorVersion := "v1"
        model := none
        promptHash := none
        configHash := none
        status := "completed"
        error := none
        outputJson := "\x7b\x7d"
        startedAt := 1000
        completedAt := some 1000 })
  entities := [adaEntity "ada" "Ada", adaEntity "bob" "Bob"]
  entityAliases := [(("ada", "Ada"), { source := none, confidence := 1 })]
  memoryEntities :=
    [{ memoryId := ⟨7⟩, entityId := "ada", role := some "subject", confidence := 1,
       evidence := none }]
  claims :=
    [("claim",
      { claimText := "Ada knows Bob"
        claimType := "fact"
        subjectEntityId := some "ada"
        predicate := none
        objectEntityId := some "bob"
        confidence := 1
        status := "active"
        validFrom := none
        validUntil := none
        attributesJson := "\x7b\x7d"
        sourceRunId := some "run"
        createdAt := 1000
        updatedAt := 1000 })]
  claimEntities := [(("claim", "ada", "subject"), 1)]
  claimEvidence := [("evidence", adaEvidence "claim")]
  relationships :=
    [("knows",
      { sourceEntityId := "ada"
        targetEntityId := "bob"
        relationType := "knows"
        confidence := 1
        status := "active"
        validFrom := none
        validUntil := none
        attributesJson := "\x7b\x7d"
        sourceRunId := some "run"
        createdAt := 1000
        updatedAt := 1000 })]
  relationshipEvidence := [("evidence", adaEvidence "knows")]

def adaTables : AuditedTables Rat where
  tables := (dbStoreMemory (calmEnv CognitiveConfig.default)
    (MemoryNode.new ⟨7⟩ 1000 AgentId.nil MemoryType.semantic "Ada knows Bob" [])
    emptyWorld).2.tables
  operations := Assoc.empty
  drawn := 0

theorem validated_batch_persists_ada :
    validateExtractionBatch plainText emptyObjects adaBatch = Except.ok () ∧
      exists s', AuditedTables.persistExtractionArtifacts unaryId adaBatch.artifacts adaTables =
          Except.ok s' ∧
        s'.tables = Tables.persisted adaBatch.artifacts adaTables.tables := by
  have hvalid : validateExtractionBatch plainText emptyObjects adaBatch = Except.ok () := by
    decide +kernel
  have hmemory : adaTables.tables.memories.contains ⟨7⟩ = true := by decide +kernel
  have houtside : ExternalReferences adaTables.tables adaBatch := by
    refine ⟨?_, ?_, ?_, ?_, ?_, ?_, ?_⟩
    · intro id hid
      cases hid
      exact hmemory
    · intro id hid
      cases hid
    · intro link hlink
      rw [List.mem_singleton.mp hlink]
      exact hmemory
    · intro claim hclaim id hid
      rw [List.mem_singleton.mp hclaim] at hid
      cases hid
      exact Or.inl rfl
    · intro evidence hevidence
      rw [List.mem_singleton.mp hevidence]
      exact ⟨hmemory, fun id hid => absurd hid (Option.some_ne_none id).symm⟩
    · intro relationship hrelationship id hid
      rw [List.mem_singleton.mp hrelationship] at hid
      cases hid
      exact Or.inl rfl
    · intro evidence hevidence
      rw [List.mem_singleton.mp hevidence]
      exact ⟨hmemory, fun id hid => absurd hid (Option.some_ne_none id).symm⟩
  have hfresh : AuditedTables.FreshIds unaryId adaTables :=
    ⟨fun _ _ => rfl, fun m n _ hlt heq => Nat.ne_of_lt hlt (unaryId_injective heq)⟩
  exact ⟨hvalid, (validated_batch_persists plainText emptyObjects unaryId adaBatch adaTables).1
    hvalid houtside hfresh⟩

end Facade
end MenteDb
