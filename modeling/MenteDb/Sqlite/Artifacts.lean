import MenteDb.Sqlite.Memory

/-!
# Sources, entities, claims and their evidence

The rows derived from memories.  Every write is an upsert by primary key and is
refused when a column refers to a row that does not exist.
-/

namespace MenteDb
namespace Sqlite

open Foundation

variable {F : Type}

abbrev MemorySource := String × MemorySourceRow
abbrev ExtractionRun := String × ExtractionRunRow
abbrev EntityRecord (F : Type) := String × EntityRow F
abbrev EntityAlias (F : Type) := (String × String) × EntityAliasRow F
abbrev MemoryEntityLink (F : Type) := (MemoryId × String × String) × MemoryEntityRow F
abbrev ClaimRecord (F : Type) := String × ClaimRow F
abbrev ClaimEntityLink (F : Type) := (String × String × String) × F
abbrev ClaimEvidence (F : Type) := String × EvidenceRow F
abbrev EntityRelationship (F : Type) := String × RelationshipRow F
abbrev RelationshipEvidence (F : Type) := String × EvidenceRow F

/-- One extraction run and everything derived by it. -/
structure ExtractionArtifacts (F : Type) where
  run : ExtractionRun
  entities : List (EntityRecord F)
  entityAliases : List (EntityAlias F)
  memoryEntities : List (MemoryEntityLink F)
  claims : List (ClaimRecord F)
  claimEntities : List (ClaimEntityLink F)
  claimEvidence : List (ClaimEvidence F)
  relationships : List (EntityRelationship F)
  relationshipEvidence : List (RelationshipEvidence F)

namespace Tables

/-!
## Foreign keys
-/

/-- A nullable reference: {lit}`NULL` refers to nothing and is allowed. -/
def refersTo {α : Type} (column : Option α) (stored : α -> Bool) : Bool :=
  match column with
  | none => true
  | some key => stored key

/-- A statement whose references are checked when it ends. -/
def checked (references : Bool) (t : Tables F) : Except MenteError (Tables F) :=
  if references then Except.ok t
  else Except.error (MenteError.storage "FOREIGN KEY constraint failed")

/-!
## Upserts

Where the row records a creation or start time, an update keeps the old one.
-/

def insertMemorySourceOn (source : MemorySource) : Tx F := fun t =>
  checked (t.memories.contains source.2.memoryId)
    { t with memorySources := t.memorySources.insert source.1 source.2 }

def upsertExtractionRunOn (run : ExtractionRun) : Tx F := fun t =>
  checked (refersTo run.2.sourceMemoryId t.memories.contains
      && refersTo run.2.conversationId t.conversations.contains)
    { t with
      extractionRuns := t.extractionRuns.upsert run.1 (fun old =>
        { run.2 with
          startedAt := (old.map ExtractionRunRow.startedAt).getD run.2.startedAt }) }

def upsertEntityOn (entity : EntityRecord F) : Tx F := fun t =>
  Except.ok { t with
    entities := t.entities.upsert entity.1 (fun old =>
      { entity.2 with
        createdAt := (old.map EntityRow.createdAt).getD entity.2.createdAt }) }

def addEntityAliasOn (name : EntityAlias F) : Tx F := fun t =>
  checked (t.entities.contains name.1.1)
    { t with entityAliases := t.entityAliases.insert name.1 name.2 }

def linkMemoryEntityOn (link : MemoryEntityLink F) : Tx F := fun t =>
  checked (t.memories.contains link.1.1 && t.entities.contains link.1.2.1)
    { t with memoryEntities := t.memoryEntities.insert link.1 link.2 }

def upsertClaimOn (claim : ClaimRecord F) : Tx F := fun t =>
  checked (refersTo claim.2.subjectEntityId t.entities.contains
      && refersTo claim.2.objectEntityId t.entities.contains
      && refersTo claim.2.sourceRunId t.extractionRuns.contains)
    { t with
      claims := t.claims.upsert claim.1 (fun old =>
        { claim.2 with
          createdAt := (old.map ClaimRow.createdAt).getD claim.2.createdAt }) }

def linkClaimEntityOn (link : ClaimEntityLink F) : Tx F := fun t =>
  checked (t.claims.contains link.1.1 && t.entities.contains link.1.2.1)
    { t with claimEntities := t.claimEntities.insert link.1 link.2 }

/-- Evidence keeps its creation time when it is written again. -/
def upsertEvidence (table : Assoc String (EvidenceRow F)) (evidence : String × EvidenceRow F) :
    Assoc String (EvidenceRow F) :=
  table.upsert evidence.1 (fun old =>
    { evidence.2 with
      createdAt := (old.map EvidenceRow.createdAt).getD evidence.2.createdAt })

def addClaimEvidenceOn (evidence : ClaimEvidence F) : Tx F := fun t =>
  checked (t.claims.contains evidence.2.ownerId && t.memories.contains evidence.2.memoryId
      && refersTo evidence.2.sourceId t.memorySources.contains)
    { t with claimEvidence := upsertEvidence t.claimEvidence evidence }

def upsertEntityRelationshipOn (relationship : EntityRelationship F) : Tx F := fun t =>
  checked (t.entities.contains relationship.2.sourceEntityId
      && t.entities.contains relationship.2.targetEntityId
      && refersTo relationship.2.sourceRunId t.extractionRuns.contains)
    { t with
      entityRelationships := t.entityRelationships.upsert relationship.1 (fun old =>
        { relationship.2 with
          createdAt := (old.map RelationshipRow.createdAt).getD relationship.2.createdAt }) }

def addRelationshipEvidenceOn (evidence : RelationshipEvidence F) : Tx F := fun t =>
  checked (t.entityRelationships.contains evidence.2.ownerId
      && t.memories.contains evidence.2.memoryId
      && refersTo evidence.2.sourceId t.memorySources.contains)
    { t with relationshipEvidence := upsertEvidence t.relationshipEvidence evidence }

/-!
## Bundles
-/

def upsertEntityBundle (entities : List (EntityRecord F)) (aliases : List (EntityAlias F))
    (links : List (MemoryEntityLink F)) : Tx F :=
  Atomic.andThen (Atomic.forEach entities upsertEntityOn)
    (Atomic.andThen (Atomic.forEach aliases addEntityAliasOn)
      (Atomic.forEach links linkMemoryEntityOn))

/-- Replace the entity links of a memory. -/
def replaceMemoryEntityBundle (memoryId : MemoryId) (entities : List (EntityRecord F))
    (aliases : List (EntityAlias F)) (links : List (MemoryEntityLink F)) : Tx F :=
  Atomic.andThen
    (fun t => Except.ok { t with
      memoryEntities := t.memoryEntities.deleteWhere (fun k _ => decide (k.1 = memoryId)) })
    (upsertEntityBundle entities aliases links)

def persistExtractionArtifacts (artifacts : ExtractionArtifacts F) : Tx F :=
  Atomic.andThen (upsertExtractionRunOn artifacts.run)
    (Atomic.andThen
      (upsertEntityBundle artifacts.entities artifacts.entityAliases artifacts.memoryEntities)
      (Atomic.andThen (Atomic.forEach artifacts.claims upsertClaimOn)
        (Atomic.andThen (Atomic.forEach artifacts.claimEntities linkClaimEntityOn)
          (Atomic.andThen (Atomic.forEach artifacts.claimEvidence addClaimEvidenceOn)
            (Atomic.andThen
              (Atomic.forEach artifacts.relationships upsertEntityRelationshipOn)
              (Atomic.forEach artifacts.relationshipEvidence addRelationshipEvidenceOn))))))

/-- The latest updated entity with the type and the name. -/
def entityByCanonical (t : Tables F) (entityType canonical : String) :
    Option (EntityRecord F) :=
  ((t.entities.entries.filter (fun e =>
      decide (e.2.entityType = entityType) && decide (e.2.canonical = canonical))).insertionSort
    (fun a b => sqlLe b.2.updatedAt a.2.updatedAt = true)).head?

/-!
## Frame

Derived rows are written without touching the memories, their tags, their
vectors or the edges.
-/

/-- The relations that hold the memories themselves. -/
def SameMemories (t t' : Tables F) : Prop :=
  t'.metaEmbeddingDim = t.metaEmbeddingDim ∧ t'.memories = t.memories ∧
    t'.memoryTags = t.memoryTags ∧ t'.memoryVec = t.memoryVec ∧ t'.edges = t.edges

theorem SameMemories.refl (t : Tables F) : SameMemories t t := ⟨rfl, rfl, rfl, rfl, rfl⟩

theorem checked_ok {references : Bool} {t t' : Tables F}
    (h : checked references t = Except.ok t') : references = true ∧ t' = t := by
  unfold checked at h
  split at h
  · rename_i href
    cases h
    exact ⟨href, rfl⟩
  · cases h

theorem sameMemories_upsertEntityOn (t0 : Tables F) (entity : EntityRecord F) :
    Atomic.Keeps (SameMemories t0) (upsertEntityOn entity) := by
  intro t t' ht hrun
  cases hrun
  exact ht

theorem sameMemories_addEntityAliasOn (t0 : Tables F) (name : EntityAlias F) :
    Atomic.Keeps (SameMemories t0) (addEntityAliasOn name) := by
  intro t t' ht hrun
  rw [(checked_ok hrun).2]
  exact ht

theorem sameMemories_linkMemoryEntityOn (t0 : Tables F) (link : MemoryEntityLink F) :
    Atomic.Keeps (SameMemories t0) (linkMemoryEntityOn link) := by
  intro t t' ht hrun
  rw [(checked_ok hrun).2]
  exact ht

theorem sameMemories_upsertEntityBundle (t0 : Tables F) (entities : List (EntityRecord F))
    (aliases : List (EntityAlias F)) (links : List (MemoryEntityLink F)) :
    Atomic.Keeps (SameMemories t0) (upsertEntityBundle entities aliases links) := by
  refine Atomic.Keeps.andThen (Atomic.Keeps.forEach ?_)
    (Atomic.Keeps.andThen (Atomic.Keeps.forEach ?_) (Atomic.Keeps.forEach ?_))
  · intro entity _
    exact sameMemories_upsertEntityOn t0 entity
  · intro name _
    exact sameMemories_addEntityAliasOn t0 name
  · intro link _
    exact sameMemories_linkMemoryEntityOn t0 link

theorem sameMemories_replaceMemoryEntityBundle (t0 : Tables F) (memoryId : MemoryId)
    (entities : List (EntityRecord F)) (aliases : List (EntityAlias F))
    (links : List (MemoryEntityLink F)) :
    Atomic.Keeps (SameMemories t0)
      (replaceMemoryEntityBundle memoryId entities aliases links) := by
  refine Atomic.Keeps.andThen ?_ (sameMemories_upsertEntityBundle t0 entities aliases links)
  intro t t' ht hrun
  cases hrun
  exact ht

theorem sameMemories_insertMemorySourceOn (t0 : Tables F) (source : MemorySource) :
    Atomic.Keeps (SameMemories t0) (insertMemorySourceOn source) := by
  intro t t' ht hrun
  rw [(checked_ok hrun).2]
  exact ht

end Tables
end Sqlite
end MenteDb
