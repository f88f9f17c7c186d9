import MenteDb.Facade.Write

/-!
# Extraction jobs

What a language model has extracted from a memory is turned into one batch of rows:
the run, the entities with their aliases, the links of the memory, claims,
relationships and their evidence.  A batch is validated before it is written.

The JSON library is a parameter.  Identifiers of one call are drawn in order from one
supply, and a call reads the clock once.
-/

namespace MenteDb
namespace Facade

open Foundation
open Sqlite
open Cognitive

variable {F : Type}

/-!
## JSON
-/

inductive Json where
  | null
  | bool (value : Bool)
  | number (text : String)
  | string (value : String)
  | array (items : List Json)
  | object (members : List (String × Json))

structure JsonOps where
  /-- The document, or why the text is none. -/
  parse : String -> Except String Json
  print : Json -> String

def Json.ofNat (n : Nat) : Json := Json.number (toString n)

def Json.strings (items : List String) : Json := Json.array (items.map Json.string)

/-- Set a member of an object. -/
def setMember (members : List (String × Json)) (key : String) (value : Json) :
    List (String × Json) :=
  if members.any (fun m => decide (m.1 = key)) then
    members.map (fun m => if m.1 = key then (key, value) else m)
  else members ++ [(key, value)]

/-!
## Batches
-/

/-- An entity link as it is handed over; a role that is not given is stored as an empty
text. -/
structure MemoryLinkRecord (F : Type) where
  memoryId : MemoryId
  entityId : String
  role : Option String
  confidence : F
  evidence : Option String

def MemoryLinkRecord.row (link : MemoryLinkRecord F) : MemoryEntityLink F :=
  ((link.memoryId, link.entityId, link.role.getD ""),
    { confidence := link.confidence, evidence := link.evidence })

/-- Derived knowledge from one extraction run. -/
structure ValidatedExtractionBatch (F : Type) where
  run : ExtractionRun
  entities : List (EntityRecord F)
  entityAliases : List (EntityAlias F)
  memoryEntities : List (MemoryLinkRecord F)
  claims : List (ClaimRecord F)
  claimEntities : List (ClaimEntityLink F)
  claimEvidence : List (ClaimEvidence F)
  relationships : List (EntityRelationship F)
  relationshipEvidence : List (RelationshipEvidence F)

def ValidatedExtractionBatch.artifacts (batch : ValidatedExtractionBatch F) :
    ExtractionArtifacts F where
  run := batch.run
  entities := batch.entities
  entityAliases := batch.entityAliases
  memoryEntities := batch.memoryEntities.map MemoryLinkRecord.row
  claims := batch.claims
  claimEntities := batch.claimEntities
  claimEvidence := batch.claimEvidence
  relationships := batch.relationships
  relationshipEvidence := batch.relationshipEvidence

/-!
## Validation
-/

abbrev Check := Except MenteError Unit

def requireNonEmpty (text : TextOps F) (value field : String) : Check :=
  if (text.trim value).isEmpty then
    Except.error (MenteError.invalidInput (field ++ " must not be empty"))
  else Except.ok ()

def requireKnown (known : List String) (value record field : String) : Check :=
  if value ∈ known then Except.ok ()
  else
    Except.error (MenteError.invalidInput
      (record ++ " references unknown " ++ field ++ ": " ++ value))

def validateConfidence [Scalar F] (value : F) (field : String) : Check :=
  if 0 <= value ∧ value <= 1 then Except.ok ()
  else
    Except.error (MenteError.invalidInput (field ++ " must be finite and between 0 and 1"))

/-- The check of a span and of the bounds of a validity. -/
def validateOrder {α : Type} [LT α] [DecidableLT α] (first last : Option α) (field : String) :
    Check :=
  match first, last with
  | some start, some stop =>
      if stop < start then
        Except.error (MenteError.invalidInput (field ++ " start must be <= end"))
      else Except.ok ()
  | _, _ => Except.ok ()

def validateSpan (start stop : Option Int) (field : String) : Check :=
  validateOrder start stop field

def validateTimeBounds (validFrom validUntil : Option Timestamp) (field : String) : Check :=
  validateOrder validFrom validUntil field

def validateJsonObject (json : JsonOps) (value field : String) : Check :=
  match json.parse value with
  | Except.error reason =>
      Except.error (MenteError.serialization (field ++ " must be valid JSON: " ++ reason))
  | Except.ok (Json.object _) => Except.ok ()
  | Except.ok _ =>
      Except.error (MenteError.invalidInput (field ++ " must be a JSON object"))

def validateRun (text : TextOps F) (json : JsonOps) (run : ExtractionRun) : Check := do
  requireNonEmpty text run.1 "extraction run id"
  requireNonEmpty text run.2.extractor "extraction run extractor"
  requireNonEmpty text run.2.extractorVersion "extraction run extractor_version"
  requireNonEmpty text run.2.status "extraction run status"
  validateJsonObject json run.2.outputJson "extraction run output_json"

section Records

variable [Scalar F]

def validateEntity (text : TextOps F) (json : JsonOps) (entity : EntityRecord F) : Check := do
  requireNonEmpty text entity.1 "entity id"
  requireNonEmpty text entity.2.entityType "entity type"
  requireNonEmpty text entity.2.canonical "entity canonical"
  validateConfidence entity.2.confidence "entity confidence"
  validateJsonObject json entity.2.attributesJson "entity attributes_json"

def validateEntityAlias (text : TextOps F) (entityIds : List String) (name : EntityAlias F) :
    Check := do
  requireKnown entityIds name.1.1 "entity alias" "entity_id"
  requireNonEmpty text name.1.2 "entity alias alias"
  validateConfidence name.2.confidence "entity alias confidence"

def validateMemoryEntity (text : TextOps F) (entityIds : List String)
    (link : MemoryLinkRecord F) : Check := do
  requireKnown entityIds link.entityId "memory entity link" "entity_id"
  match link.role with
  | some role => requireNonEmpty text role "memory entity link role"
  | none => Except.ok ()
  validateConfidence link.confidence "memory entity link confidence"

omit [Scalar F] in
/-- A reference that may be missing. -/
def requireKnownIfGiven (known : List String) (value : Option String) (record field : String) :
    Check :=
  match value with
  | some id => requireKnown known id record field
  | none => Except.ok ()

def validateClaim (text : TextOps F) (json : JsonOps) (entityIds : List String)
    (claim : ClaimRecord F) : Check := do
  requireNonEmpty text claim.1 "claim id"
  requireNonEmpty text claim.2.claimText "claim text"
  requireNonEmpty text claim.2.claimType "claim type"
  requireNonEmpty text claim.2.status "claim status"
  requireKnownIfGiven entityIds claim.2.subjectEntityId "claim" "subject_entity_id"
  requireKnownIfGiven entityIds claim.2.objectEntityId "claim" "object_entity_id"
  validateConfidence claim.2.confidence "claim confidence"
  validateTimeBounds claim.2.validFrom claim.2.validUntil "claim validity"
  validateJsonObject json claim.2.attributesJson "claim attributes_json"

def validateClaimEntity (text : TextOps F) (claimIds entityIds : List String)
    (link : ClaimEntityLink F) : Check := do
  requireKnown claimIds link.1.1 "claim entity link" "claim_id"
  requireKnown entityIds link.1.2.1 "claim entity link" "entity_id"
  requireNonEmpty text link.1.2.2 "claim entity link role"
  validateConfidence link.2 "claim entity link confidence"

/-- The check of evidence for a claim or for a relationship. -/
def validateEvidence (owners : List String) (record field : String)
    (evidence : String × EvidenceRow F) : Check := do
  requireKnown owners evidence.2.ownerId record field
  validateConfidence evidence.2.confidence (record ++ " confidence")
  validateSpan evidence.2.spanStart evidence.2.spanEnd (record ++ " span")

def validateRelationship (text : TextOps F) (json : JsonOps) (entityIds : List String)
    (relationship : EntityRelationship F) : Check := do
  requireNonEmpty text relationship.1 "relationship id"
  requireKnown entityIds relationship.2.sourceEntityId "relationship" "source_entity_id"
  requireKnown entityIds relationship.2.targetEntityId "relationship" "target_entity_id"
  requireNonEmpty text relationship.2.relationType "relationship relation_type"
  requireNonEmpty text relationship.2.status "relationship status"
  validateConfidence relationship.2.confidence "relationship confidence"
  validateTimeBounds relationship.2.validFrom relationship.2.validUntil "relationship validity"
  validateJsonObject json relationship.2.attributesJson "relationship attributes_json"

def checkEach {α : Type} (xs : List α) (check : α -> Check) : Check :=
  match xs with
  | [] => Except.ok ()
  | x :: rest => do
      check x
      checkEach rest check

def validateExtractionBatch (text : TextOps F) (json : JsonOps)
    (batch : ValidatedExtractionBatch F) : Check := do
  validateRun text json batch.run
  let claimIds := batch.claims.map Prod.fst
  let entityIds := batch.entities.map Prod.fst
  let relationshipIds := batch.relationships.map Prod.fst
  checkEach batch.entities (validateEntity text json)
  checkEach batch.entityAliases (validateEntityAlias text entityIds)
  checkEach batch.memoryEntities (validateMemoryEntity text entityIds)
  checkEach batch.claims (validateClaim text json entityIds)
  checkEach batch.claimEntities (validateClaimEntity text claimIds entityIds)
  checkEach batch.claimEvidence (validateEvidence claimIds "claim evidence" "claim_id")
  checkEach batch.relationships (validateRelationship text json entityIds)
  checkEach batch.relationshipEvidence
    (validateEvidence relationshipIds "relationship evidence" "relationship_id")

/-- Validate and persist in one transaction. -/
def storeValidatedExtraction (env : Env F) (json : JsonOps) (batch : ValidatedExtractionBatch F) :
    Op F Unit :=
  match validateExtractionBatch env.text json batch with
  | Except.error e => Prog.fail e
  | Except.ok _ => transact env (Tables.persistExtractionArtifacts batch.artifacts)

theorem storeValidatedExtraction_ok {env : Env F} {json : JsonOps}
    {batch : ValidatedExtractionBatch F} {w w' : World F}
    (h : storeValidatedExtraction env json batch w = (Except.ok (), w')) :
    transact env (Tables.persistExtractionArtifacts batch.artifacts) w = (Except.ok (), w') := by
  unfold storeValidatedExtraction at h
  cases hvalid : validateExtractionBatch env.text json batch with
  | error e =>
      rw [hvalid] at h
      cases h
  | ok _ =>
      rw [hvalid] at h
      exact h

end Records

/-!
## Extraction results
-/

namespace Schema

/-- An entity as the model reports it. -/
structure ExtractedEntity where
  name : String
  entityType : String
  attributes : Assoc String String

structure ExtractedMemory (F : Type) where
  content : String
  memoryType : String
  confidence : F
  entities : List String
  tags : List String
  context : List String
  reasoning : String

structure ExtractedRelationship (F : Type) where
  source : String
  target : String
  relationType : String
  confidence : F
  evidence : String
  attributes : Assoc String String

structure ExtractionResult (F : Type) where
  memories : List (ExtractedMemory F)
  entities : List ExtractedEntity
  relationships : List (ExtractedRelationship F)

end Schema

structure ExtractionStoreOptions where
  extractor : String
  extractorVersion : String
  model : Option String
  promptHash : Option String
  configHash : Option String
  conversationId : Option String

def ExtractionStoreOptions.default : ExtractionStoreOptions where
  extractor := "llm_extraction"
  extractorVersion := "v1"
  model := none
  promptHash := none
  configHash := none
  conversationId := none

structure ExtractionStoreReport where
  runId : String
  entities : Nat
  aliases : Nat
  memoryLinks : Nat
  claims : Nat
  claimEntityLinks : Nat
  claimEvidence : Nat
  relationships : Nat
  relationshipEvidence : Nat

def normalizeEntityKey (text : TextOps F) (name : String) : String :=
  text.toLowercase (" ".intercalate (text.splitWhitespace name))

/-- Byte offset of the first occurrence, counted from the given offset. -/
def findFrom (needle : List Char) : List Char -> Nat -> Option Nat
  | [], _ => none
  | c :: rest, offset =>
      if needle.isPrefixOf (c :: rest) then some offset
      else findFrom needle rest (offset + c.utf8Size)

/-- Byte range of the first occurrence. -/
def findSpan (haystack needle : String) : Option (Int × Int) :=
  if needle.isEmpty then none
  else
    (findFrom needle.toList haystack.toList 0).map (fun (start : Nat) =>
      (Int.ofNat start, Int.ofNat (start + needle.utf8ByteSize)))

def mergeEntityAttributes (json : JsonOps) (entity : EntityRow F)
    (attributes : Assoc String String) : Except MenteError (EntityRow F) :=
  if attributes.entries = [] then Except.ok entity
  else
    match json.parse entity.attributesJson with
    | Except.ok (Json.object members) =>
        Except.ok { entity with
          attributesJson := json.print (Json.object (attributes.entries.foldl
            (fun object a => setMember object a.1 (Json.string a.2)) members)) }
    | Except.ok _ =>
        Except.error (MenteError.invalidInput "entity attributes_json must be a JSON object")
    | Except.error reason =>
        Except.error (MenteError.serialization
          ("entity attributes_json must be valid JSON: " ++ reason))

def relationshipAttributesJson (json : JsonOps)
    (relationship : Schema.ExtractedRelationship F) : Except MenteError String := do
  let object := relationship.attributes.entries.foldl
    (fun object a => setMember object a.1 (Json.string a.2))
    [("source_label", Json.string relationship.source),
      ("target_label", Json.string relationship.target)]
  validateJsonObject json (json.print (Json.object object)) "relationship attributes_json"
  pure (json.print (Json.object object))

/-!
## Building a batch
-/

/-- What a build reads: the tables as they are, the instant and the supply of
identifiers. -/
structure BuildContext (F : Type) where
  text : TextOps F
  json : JsonOps
  newId : Nat -> String
  tables : Tables F
  now : Timestamp
  aliasSource : String
  source : MemoryNode F
  runId : String

structure ExtractionBuild (F : Type) where
  entitiesByKey : Assoc String (EntityRecord F)
  aliases : List (EntityAlias F)
  aliasKeys : List String
  memoryEntities : List (MemoryLinkRecord F)
  memoryLinkKeys : List String
  claims : List (ClaimRecord F)
  claimEntities : List (ClaimEntityLink F)
  claimEvidence : List (ClaimEvidence F)
  relationships : List (EntityRelationship F)
  relationshipEvidence : List (RelationshipEvidence F)
  drawn : Nat

def ExtractionBuild.new (drawn : Nat) : ExtractionBuild F where
  entitiesByKey := Assoc.empty
  aliases := []
  aliasKeys := []
  memoryEntities := []
  memoryLinkKeys := []
  claims := []
  claimEntities := []
  claimEvidence := []
  relationships := []
  relationshipEvidence := []
  drawn := drawn

abbrev Builder (F α : Type) := Prog (ExtractionBuild F) MenteError α

def ofExcept {α : Type} (x : Except MenteError α) : Builder F α := fun s => (x, s)

def drawId (ctx : BuildContext F) : Builder F String := fun s =>
  (Except.ok (ctx.newId s.drawn), { s with drawn := s.drawn + 1 })

def pushEntityAlias (ctx : BuildContext F) (entityId name : String) (confidence : F)
    (s : ExtractionBuild F) : ExtractionBuild F :=
  let name := ctx.text.trim name
  let key := entityId ++ ":" ++ ctx.text.toLowercase name
  if name.isEmpty ∨ key ∈ s.aliasKeys then s
  else
    { s with
      aliasKeys := s.aliasKeys ++ [key]
      aliases := s.aliases ++
        [((entityId, name), { source := some ctx.aliasSource, confidence := confidence })] }

def pushMemoryEntityLink (memoryId : MemoryId) (entityId role : String) (confidence : F)
    (evidence : String) (s : ExtractionBuild F) : ExtractionBuild F :=
  let key := uuidText memoryId.uuid ++ ":" ++ entityId ++ ":" ++ role
  if key ∈ s.memoryLinkKeys then s
  else
    { s with
      memoryLinkKeys := s.memoryLinkKeys ++ [key]
      memoryEntities := s.memoryEntities ++
        [{ memoryId := memoryId, entityId := entityId, role := some role,
           confidence := confidence, evidence := some evidence }] }

section Build

variable [Scalar F]

def validateModelConfidence (value : F) (field : String) : Builder F F := do
  ofExcept (validateConfidence value field)
  pure value

/-- The stored entity with exactly this type and name, or a new one. -/
def loadOrCreate (ctx : BuildContext F) (entityType canonical : String) :
    Builder F (EntityRecord F) :=
  match ctx.tables.entityByCanonical entityType canonical with
  | some record => pure record
  | none => do
      let id ← drawId ctx
      pure (id,
        { entityType := entityType
          canonical := canonical
          attributesJson := "\x7b\x7d"
          confidence := 1
          createdAt := ctx.now
          updatedAt := ctx.now })

/-- Within a batch an entity is known by its normalized name, whatever its type. -/
def findEntity (ctx : BuildContext F) (entityType canonical : String) :
    Builder F (EntityRecord F) := fun s =>
  match s.entitiesByKey.find? (normalizeEntityKey ctx.text canonical) with
  | some existing => (Except.ok existing, s)
  | none => loadOrCreate ctx entityType canonical s

omit [Scalar F] in
/-- The name is an alias, and so is its lower case if that is another text. -/
def pushNameAliases (ctx : BuildContext F) (entityId canonical : String) (confidence : F)
    (s : ExtractionBuild F) : ExtractionBuild F :=
  let s := pushEntityAlias ctx entityId canonical confidence s
  if ctx.text.toLowercase canonical ≠ canonical then
    pushEntityAlias ctx entityId (ctx.text.toLowercase canonical) confidence s
  else s

def ensureEntity (ctx : BuildContext F) (name entityType : String)
    (attributes : Assoc String String) (confidence : F) : Builder F String := do
  let canonical := ctx.text.trim name
  ofExcept (requireNonEmpty ctx.text canonical "entity canonical")
  let entityType :=
    if (ctx.text.trim entityType).isEmpty then "entity" else ctx.text.trim entityType
  let confidence ← validateModelConfidence confidence "entity confidence"
  let entity ← findEntity ctx entityType canonical
  let row ← ofExcept (mergeEntityAttributes ctx.json
    { entity.2 with
      confidence := max entity.2.confidence confidence
      updatedAt := ctx.now } attributes)
  Prog.modify (fun s => { s with
    entitiesByKey :=
      s.entitiesByKey.insert (normalizeEntityKey ctx.text canonical) (entity.1, row) })
  Prog.modify (pushNameAliases ctx entity.1 canonical confidence)
  pure entity.1

def addEntity (ctx : BuildContext F) (extracted : Schema.ExtractedEntity) : Builder F Unit := do
  let entityId ← ensureEntity ctx extracted.name extracted.entityType extracted.attributes 1
  let role := (extracted.attributes.find? "relationship").getD "mentioned"
  Prog.modify (pushMemoryEntityLink ctx.source.id entityId role 1 extracted.name)

def claimRole (index : Nat) : String :=
  if index = 0 then "subject" else if index = 1 then "object" else "mentioned"

/-- The entities of an extracted memory, with the identifiers found so far. -/
def linkClaimEntities (ctx : BuildContext F) (claimId : String) (confidence : F) :
    List (String × Nat) -> List String -> Builder F (List String)
  | [], linked => pure linked
  | (name, index) :: rest, linked =>
      if (ctx.text.trim name).isEmpty then linkClaimEntities ctx claimId confidence rest linked
      else do
        let entityId ← ensureEntity ctx name "entity" Assoc.empty confidence
        Prog.modify (fun s => { s with
          claimEntities := s.claimEntities ++
            [((claimId, entityId, claimRole index), confidence)] })
        Prog.modify (pushMemoryEntityLink ctx.source.id entityId (claimRole index) confidence name)
        linkClaimEntities ctx claimId confidence rest (linked ++ [entityId])

omit [Scalar F] in
def evidenceRow (ctx : BuildContext F) (owner evidenceText : String) (confidence : F) :
    EvidenceRow F where
  ownerId := owner
  memoryId := ctx.source.id
  sourceId := none
  evidenceText := some evidenceText
  spanStart := (findSpan ctx.source.content evidenceText).map Prod.fst
  spanEnd := (findSpan ctx.source.content evidenceText).map Prod.snd
  confidence := confidence
  createdAt := ctx.now

def addClaim (ctx : BuildContext F) (extracted : Schema.ExtractedMemory F × Nat) :
    Builder F Unit := do
  let memory := extracted.1
  ofExcept (requireNonEmpty ctx.text memory.content "extracted memory content")
  ofExcept (requireNonEmpty ctx.text memory.memoryType "extracted memory type")
  let confidence ← validateModelConfidence memory.confidence "extracted memory confidence"
  let claimId ← drawId ctx
  let linked ← linkClaimEntities ctx claimId confidence memory.entities.zipIdx []
  let evidenceId ← drawId ctx
  Prog.modify (fun s => { s with
    claimEvidence := s.claimEvidence ++
      [(evidenceId, evidenceRow ctx claimId memory.content confidence)]
    claims := s.claims ++
      [(claimId,
        { claimText := ctx.text.trim memory.content
          claimType := ctx.text.trim memory.memoryType
          subjectEntityId := linked[0]?
          predicate := none
          objectEntityId := linked[1]?
          confidence := confidence
          status := "active"
          validFrom := none
          validUntil := none
          attributesJson := ctx.json.print (Json.object
            [("source", Json.string "llm_memory"),
              ("source_index", Json.ofNat extracted.2),
              ("tags", Json.strings memory.tags),
              ("context", Json.strings memory.context),
              ("reasoning", Json.string memory.reasoning),
              ("entities", Json.strings memory.entities)])
          sourceRunId := some ctx.runId
          createdAt := ctx.now
          updatedAt := ctx.now })] })

def addRelationship (ctx : BuildContext F) (extracted : Schema.ExtractedRelationship F) :
    Builder F Unit := do
  ofExcept (requireNonEmpty ctx.text extracted.source "relationship source")
  ofExcept (requireNonEmpty ctx.text extracted.target "relationship target")
  ofExcept (requireNonEmpty ctx.text extracted.relationType "relationship relation_type")
  let confidence ← validateModelConfidence extracted.confidence "relationship confidence"
  let sourceId ← ensureEntity ctx extracted.source "entity" Assoc.empty confidence
  let targetId ← ensureEntity ctx extracted.target "entity" Assoc.empty confidence
  Prog.modify (pushMemoryEntityLink ctx.source.id sourceId "relationship_source" confidence
    extracted.source)
  Prog.modify (pushMemoryEntityLink ctx.source.id targetId "relationship_target" confidence
    extracted.target)
  let relationshipId ← drawId ctx
  let attributesJson ← ofExcept (relationshipAttributesJson ctx.json extracted)
  let evidenceId ← drawId ctx
  let evidenceText :=
    if (ctx.text.trim extracted.evidence).isEmpty then
      ctx.text.trim extracted.source ++ " " ++ ctx.text.trim extracted.relationType ++ " " ++
        ctx.text.trim extracted.target
    else extracted.evidence
  Prog.modify (fun s => { s with
    relationshipEvidence := s.relationshipEvidence ++
      [(evidenceId, evidenceRow ctx relationshipId evidenceText confidence)]
    relationships := s.relationships ++
      [(relationshipId,
        { sourceEntityId := sourceId
          targetEntityId := targetId
          relationType := ctx.text.trim extracted.relationType
          confidence := confidence
          status := "active"
          validFrom := none
          validUntil := none
          attributesJson := attributesJson
          sourceRunId := some ctx.runId
          createdAt := ctx.now
          updatedAt := ctx.now })] })

def buildExtraction (ctx : BuildContext F) (result : Schema.ExtractionResult F) :
    Builder F Unit := do
  Prog.forEach result.entities (addEntity ctx)
  Prog.forEach result.memories.zipIdx (addClaim ctx)
  Prog.forEach result.relationships (addRelationship ctx)

omit [Scalar F] in
def ExtractionBuild.report (runId : String) (s : ExtractionBuild F) : ExtractionStoreReport where
  runId := runId
  entities := s.entitiesByKey.entries.length
  aliases := s.aliases.length
  memoryLinks := s.memoryEntities.length
  claims := s.claims.length
  claimEntityLinks := s.claimEntities.length
  claimEvidence := s.claimEvidence.length
  relationships := s.relationships.length
  relationshipEvidence := s.relationshipEvidence.length

omit [Scalar F] in
def runOutput (result : Schema.ExtractionResult F) (report : ExtractionStoreReport) : Json :=
  Json.object
    [("memories", Json.ofNat result.memories.length),
      ("entities", Json.ofNat result.entities.length),
      ("relationships", Json.ofNat result.relationships.length),
      ("persisted", Json.object
        [("entities", Json.ofNat report.entities),
          ("aliases", Json.ofNat report.aliases),
          ("memory_links", Json.ofNat report.memoryLinks),
          ("claims", Json.ofNat report.claims),
          ("claim_entity_links", Json.ofNat report.claimEntityLinks),
          ("claim_evidence", Json.ofNat report.claimEvidence),
          ("relationships", Json.ofNat report.relationships),
          ("relationship_evidence", Json.ofNat report.relationshipEvidence)])]

omit [Scalar F] in
/-- The batch of a finished build; the entities come in the order of a hash table. -/
def ExtractionBuild.batch (ctx : BuildContext F) (order : HashOrder)
    (options : ExtractionStoreOptions) (result : Schema.ExtractionResult F)
    (s : ExtractionBuild F) : ValidatedExtractionBatch F where
  run :=
    (ctx.runId,
      { sourceMemoryId := some ctx.source.id
        conversationId := options.conversationId
        extractor := options.extractor
        extractorVersion := options.extractorVersion
        model := options.model
        promptHash := options.promptHash
        configHash := options.configHash
        status := "completed"
        error := none
        outputJson := ctx.json.print (runOutput result (s.report ctx.runId))
        startedAt := ctx.now
        completedAt := some ctx.now })
  entities := order.order (s.entitiesByKey.entries.map Prod.snd)
  entityAliases := s.aliases
  memoryEntities := s.memoryEntities
  claims := s.claims
  claimEntities := s.claimEntities
  claimEvidence := s.claimEvidence
  relationships := s.relationships
  relationshipEvidence := s.relationshipEvidence

omit [Scalar F] in
/-- The run takes the first identifier of the call. -/
def extractionContext (env : Env F) (json : JsonOps) (options : ExtractionStoreOptions)
    (source : MemoryNode F) (now : Timestamp) (w : World F) : BuildContext F where
  text := env.text
  json := json
  newId := env.freshEntityId w.ticks
  tables := w.tables
  now := now
  aliasSource := options.extractor
  source := source
  runId := env.freshEntityId w.ticks 0

/-- Persist what was extracted from a stored memory. -/
def storeExtractionResult (env : Env F) (json : JsonOps) (sourceMemoryId : MemoryId)
    (result : Schema.ExtractionResult F) (options : ExtractionStoreOptions) :
    Op F ExtractionStoreReport := do
  let source ← getMemory sourceMemoryId
  let now ← currentTimeUs env
  let ctx ← Prog.gets (extractionContext env json options source now)
  match buildExtraction ctx result (ExtractionBuild.new 1) with
  | (Except.error e, _) => Prog.fail e
  | (Except.ok _, built) => do
      storeValidatedExtraction env json (built.batch ctx env.hashOrder options result)
      emitLifecycleEvent env
      pure (built.report ctx.runId)

end Build

/-!
## Assertions that survive a build

A build asks for entities by type and name, one after the other.  An assertion about the
names asked for, the entities and the links of a batch has to survive the registration of
an entity and a new link, and nothing else.
-/

/-- The type and the name under which an entity is looked for. -/
def entityName (text : TextOps F) (name entityType : String) : String × String :=
  (if (text.trim entityType).isEmpty then "entity" else text.trim entityType, text.trim name)

def claimNames (text : TextOps F) (entities : List String) : List (String × String) :=
  (entities.filter (fun name => !(text.trim name).isEmpty)).map (fun name =>
    entityName text name "entity")

def relationshipNames (text : TextOps F) (extracted : Schema.ExtractedRelationship F) :
    List (String × String) :=
  [entityName text extracted.source "entity", entityName text extracted.target "entity"]

/-- The names a build asks for, in its order. -/
def resultNames (text : TextOps F) (result : Schema.ExtractionResult F) :
    List (String × String) :=
  result.entities.map (fun e => entityName text e.name e.entityType) ++
    (result.memories.flatMap (fun m => claimNames text m.entities) ++
      result.relationships.flatMap (relationshipNames text))

/-- The identifier, the type and the name of the entity that a build registers for a name
it asks for: the batch has one with that normalized name, or one is stored with exactly
this type and name, or it is new. -/
inductive Identified (ctx : BuildContext F) (s : ExtractionBuild F)
    (entityType canonical : String) : String -> String -> String -> Prop where
  | known {record} :
      s.entitiesByKey.find? (normalizeEntityKey ctx.text canonical) = some record ->
      Identified ctx s entityType canonical record.1 record.2.entityType record.2.canonical
  | loaded {record} :
      s.entitiesByKey.find? (normalizeEntityKey ctx.text canonical) = none ->
      ctx.tables.entityByCanonical entityType canonical = some record ->
      Identified ctx s entityType canonical record.1 record.2.entityType record.2.canonical
  | created {n} :
      s.entitiesByKey.find? (normalizeEntityKey ctx.text canonical) = none ->
      ctx.tables.entityByCanonical entityType canonical = none ->
      Identified ctx s entityType canonical (ctx.newId n) entityType canonical

structure BuildClosed (ctx : BuildContext F)
    (I : List (String × String) -> ExtractionBuild F -> Prop) : Prop where
  views : forall asked s s', s'.entitiesByKey = s.entitiesByKey ->
    s'.memoryEntities = s.memoryEntities -> I asked s -> I asked s'
  register : forall asked s entityType canonical record,
    Identified ctx s entityType canonical record.1 record.2.entityType record.2.canonical ->
      I asked s -> I (asked ++ [(entityType, canonical)])
        { s with entitiesByKey :=
            s.entitiesByKey.insert (normalizeEntityKey ctx.text canonical) record }
  link : forall asked s entityId role confidence evidence, I asked s ->
    I asked (pushMemoryEntityLink ctx.source.id entityId role confidence evidence s)

/-- The program asks for these names; an assertion about a failed build is not needed. -/
def Asks {α : Type} (I : List (String × String) -> ExtractionBuild F -> Prop)
    (names : List (String × String)) (x : Builder F α) : Prop :=
  forall asked, Prog.Triple (I asked) x (fun _ => I (asked ++ names)) (fun _ => True)

section Asks

variable {α β : Type} {I : List (String × String) -> ExtractionBuild F -> Prop}

theorem asks_nothing {x : Builder F α} (h : forall asked, Prog.Triple (I asked) x
    (fun _ => I asked) (fun _ => True)) : Asks I [] x := by
  intro asked
  rw [List.append_nil]
  exact h asked

theorem asks_pure (a : α) : Asks I [] (pure a : Builder F α) :=
  asks_nothing (fun _ _ hs => hs)

theorem Asks.bind {names names' : List (String × String)} {x : Builder F α}
    {f : α -> Builder F β} (hx : Asks I names x) (hf : forall a, Asks I names' (f a)) :
    Asks I (names ++ names') (x >>= f) := by
  intro asked
  apply Prog.Triple.bind (hx asked)
  intro a
  have hstep := hf a (asked ++ names)
  rw [List.append_assoc] at hstep
  exact hstep

/-- A first step that asks for nothing. -/
theorem Asks.silent {names : List (String × String)} {x : Builder F α} {f : α -> Builder F β}
    (hx : Asks I [] x) (hf : forall a, Asks I names (f a)) : Asks I names (x >>= f) :=
  Asks.bind hx hf

theorem Asks.forEach {names : α -> List (String × String)} {xs : List α}
    {body : α -> Builder F Unit} (h : forall x, x ∈ xs -> Asks I (names x) (body x)) :
    Asks I (xs.flatMap names) (Prog.forEach xs body) := by
  induction xs with
  | nil => exact asks_pure ()
  | cons x rest ih =>
      rw [List.flatMap_cons]
      exact Asks.bind (h x List.mem_cons_self)
        (fun _ => ih (fun y hy => h y (List.mem_cons_of_mem x hy)))

theorem asks_ofExcept (x : Except MenteError α) : Asks I [] (ofExcept x) := by
  apply asks_nothing
  intro asked s hs
  unfold ofExcept
  cases x with
  | ok a => exact hs
  | error e => trivial

end Asks

/-- Merging attributes leaves the identity of an entity. -/
theorem mergeEntityAttributes_ok {json : JsonOps} {entity row : EntityRow F}
    {attributes : Assoc String String}
    (h : mergeEntityAttributes json entity attributes = Except.ok row) :
    row.entityType = entity.entityType ∧ row.canonical = entity.canonical := by
  unfold mergeEntityAttributes at h
  split at h
  · cases h
    exact ⟨rfl, rfl⟩
  · split at h
    · cases h
      exact ⟨rfl, rfl⟩
    · cases h
    · cases h

/-- The builds differ in claims and relationships only. -/
structure SameNames (s s' : ExtractionBuild F) : Prop where
  entitiesByKey : s'.entitiesByKey = s.entitiesByKey
  aliases : s'.aliases = s.aliases
  aliasKeys : s'.aliasKeys = s.aliasKeys
  memoryEntities : s'.memoryEntities = s.memoryEntities
  memoryLinkKeys : s'.memoryLinkKeys = s.memoryLinkKeys
  drawn : s'.drawn = s.drawn

/-- What an assertion has to survive, step by step. -/
structure BuildRules [Scalar F] (ctx : BuildContext F)
    (I : List (String × String) -> ExtractionBuild F -> Prop) : Prop where
  ensure : forall name entityType attributes confidence,
    Asks I [entityName ctx.text name entityType]
      (ensureEntity ctx name entityType attributes confidence)
  draw : Asks I [] (drawId ctx)
  link : forall entityId role confidence evidence, Asks I [] (Prog.modify
    (pushMemoryEntityLink ctx.source.id entityId role confidence evidence) : Builder F Unit)
  beside : forall f : ExtractionBuild F -> ExtractionBuild F,
    (forall s, SameNames s (f s)) -> Asks I [] (Prog.modify f : Builder F Unit)

theorem asks_confidence [Scalar F] {I : List (String × String) -> ExtractionBuild F -> Prop}
    (value : F) (field : String) : Asks I [] (validateModelConfidence value field) :=
  Asks.bind (asks_ofExcept _) (fun _ => asks_pure value)

namespace BuildRules

variable [Scalar F] {ctx : BuildContext F}
  {I : List (String × String) -> ExtractionBuild F -> Prop} (h : BuildRules ctx I)

include h

theorem asks_addEntity (extracted : Schema.ExtractedEntity) :
    Asks I [entityName ctx.text extracted.name extracted.entityType]
      (addEntity ctx extracted) :=
  Asks.bind (h.ensure _ _ _ _) (fun _ => h.link _ _ _ _)

theorem asks_linkClaimEntities (claimId : String) (confidence : F)
    (names : List (String × Nat)) (linked : List String) :
    Asks I (claimNames ctx.text (names.map Prod.fst))
      (linkClaimEntities ctx claimId confidence names linked) := by
  induction names generalizing linked with
  | nil => exact asks_pure linked
  | cons entry rest ih =>
      unfold linkClaimEntities claimNames
      rw [List.map_cons, List.filter_cons]
      by_cases hempty : (ctx.text.trim entry.1).isEmpty = true
      · simp only [hempty, if_true, Bool.not_true, Bool.false_eq_true, if_false]
        exact ih linked
      · simp only [hempty, Bool.not_false, if_true]
        apply Asks.bind (h.ensure entry.1 "entity" Assoc.empty confidence)
        intro entityId
        refine Asks.silent (h.beside _ ?_) ?_
        · intro s
          exact ⟨rfl, rfl, rfl, rfl, rfl, rfl⟩
        intro _
        apply Asks.silent (h.link _ _ _ _)
        intro _
        exact ih (linked ++ [entityId])

theorem asks_addClaim (extracted : Schema.ExtractedMemory F × Nat) :
    Asks I (claimNames ctx.text extracted.1.entities) (addClaim ctx extracted) := by
  apply Asks.silent (asks_ofExcept _)
  intro _
  apply Asks.silent (asks_ofExcept _)
  intro _
  apply Asks.silent (asks_confidence _ _)
  intro confidence
  apply Asks.silent h.draw
  intro claimId
  have hlinks := h.asks_linkClaimEntities claimId confidence extracted.1.entities.zipIdx []
  rw [List.zipIdx_map_fst] at hlinks
  show Asks I (claimNames ctx.text extracted.1.entities) _
  rw [← List.append_nil (claimNames ctx.text extracted.1.entities)]
  apply Asks.bind hlinks
  intro linked
  apply Asks.silent h.draw
  intro evidenceId
  exact h.beside _ (fun _ => ⟨rfl, rfl, rfl, rfl, rfl, rfl⟩)

theorem asks_addRelationship (extracted : Schema.ExtractedRelationship F) :
    Asks I (relationshipNames ctx.text extracted) (addRelationship ctx extracted) := by
  apply Asks.silent (asks_ofExcept _)
  intro _
  apply Asks.silent (asks_ofExcept _)
  intro _
  apply Asks.silent (asks_ofExcept _)
  intro _
  apply Asks.silent (asks_confidence _ _)
  intro confidence
  apply Asks.bind (h.ensure extracted.source "entity" Assoc.empty confidence)
  intro sourceId
  apply Asks.bind (h.ensure extracted.target "entity" Assoc.empty confidence)
  intro targetId
  apply Asks.silent (h.link _ _ _ _)
  intro _
  apply Asks.silent (h.link _ _ _ _)
  intro _
  apply Asks.silent h.draw
  intro relationshipId
  apply Asks.silent (asks_ofExcept _)
  intro attributesJson
  apply Asks.silent h.draw
  intro evidenceId
  exact h.beside _ (fun _ => ⟨rfl, rfl, rfl, rfl, rfl, rfl⟩)

theorem asks_buildExtraction (result : Schema.ExtractionResult F) :
    Asks I (resultNames ctx.text result) (buildExtraction ctx result) := by
  have hentities : Asks I (result.entities.flatMap (fun e =>
      [entityName ctx.text e.name e.entityType])) (Prog.forEach result.entities (addEntity ctx)) :=
    Asks.forEach (fun e _ => h.asks_addEntity e)
  have hclaims : Asks I (result.memories.zipIdx.flatMap (fun m =>
      claimNames ctx.text m.1.entities)) (Prog.forEach result.memories.zipIdx (addClaim ctx)) :=
    Asks.forEach (fun m _ => h.asks_addClaim m)
  have hrelationships : Asks I (result.relationships.flatMap (relationshipNames ctx.text))
      (Prog.forEach result.relationships (addRelationship ctx)) :=
    Asks.forEach (fun r _ => h.asks_addRelationship r)
  have hnames : result.entities.flatMap (fun e => [entityName ctx.text e.name e.entityType]) =
      result.entities.map (fun e => entityName ctx.text e.name e.entityType) :=
    List.flatMap_pure_eq_map _ _
  have hmemories : result.memories.zipIdx.flatMap (fun m => claimNames ctx.text m.1.entities) =
      result.memories.flatMap (fun m => claimNames ctx.text m.entities) := by
    conv_rhs => rw [← List.zipIdx_map_fst 0 result.memories, List.flatMap_map]
  rw [hnames] at hentities
  rw [hmemories] at hclaims
  exact Asks.bind hentities (fun _ => Asks.bind hclaims (fun _ => hrelationships))

end BuildRules

namespace BuildClosed

variable {ctx : BuildContext F} {I : List (String × String) -> ExtractionBuild F -> Prop}
  (h : BuildClosed ctx I)

include h

theorem of_pushEntityAlias (entityId name : String) (confidence : F)
    {asked : List (String × String)} {s : ExtractionBuild F} (hs : I asked s) :
    I asked (pushEntityAlias ctx entityId name confidence s) := by
  unfold pushEntityAlias
  simp only
  split
  · exact hs
  · exact h.views asked s _ rfl rfl hs

theorem of_pushNameAliases (entityId name : String) (confidence : F)
    {asked : List (String × String)} {s : ExtractionBuild F} (hs : I asked s) :
    I asked (pushNameAliases ctx entityId name confidence s) := by
  have hfirst := h.of_pushEntityAlias entityId name confidence hs
  unfold pushNameAliases
  simp only
  split
  · exact h.of_pushEntityAlias entityId _ confidence hfirst
  · exact hfirst

theorem asks_drawId : Asks I [] (drawId ctx) :=
  asks_nothing (fun asked s hs => h.views asked s _ rfl rfl hs)

theorem asks_beside (f : ExtractionBuild F -> ExtractionBuild F)
    (hf : forall s, (f s).entitiesByKey = s.entitiesByKey ∧
      (f s).memoryEntities = s.memoryEntities) :
    Asks I [] (Prog.modify f : Builder F Unit) :=
  asks_nothing (fun asked s hs => h.views asked s (f s) (hf s).1 (hf s).2 hs)

theorem asks_link (entityId role : String) (confidence : F) (evidence : String) :
    Asks I [] (Prog.modify
      (pushMemoryEntityLink ctx.source.id entityId role confidence evidence) : Builder F Unit) :=
  asks_nothing (fun asked s hs => h.link asked s entityId role confidence evidence hs)

variable [Scalar F]

/-- The entity found or created is one that may be registered for the name. -/
theorem triple_findEntity (entityType canonical : String) (asked : List (String × String)) :
    Prog.Triple (I asked) (findEntity ctx entityType canonical)
      (fun record s => I asked s ∧ Identified ctx s entityType canonical record.1
        record.2.entityType record.2.canonical) (fun _ => True) := by
  intro s hs
  unfold findEntity
  cases hknown : s.entitiesByKey.find? (normalizeEntityKey ctx.text canonical) with
  | some existing => exact ⟨hs, Identified.known hknown⟩
  | none =>
      simp only [loadOrCreate]
      cases hfind : ctx.tables.entityByCanonical entityType canonical with
      | some record => exact ⟨hs, Identified.loaded hknown hfind⟩
      | none => exact ⟨h.views asked s _ rfl rfl hs, Identified.created hknown hfind⟩

theorem ensure (name entityType : String) (attributes : Assoc String String) (confidence : F) :
    Asks I [entityName ctx.text name entityType]
      (ensureEntity ctx name entityType attributes confidence) := by
  apply Asks.silent (asks_ofExcept _)
  intro _
  apply Asks.silent (asks_confidence _ _)
  intro value asked
  apply Prog.Triple.bind (h.triple_findEntity _ _ asked)
  intro entity
  apply Prog.Triple.bind (Q := fun row s => I asked s ∧
    Identified ctx s (entityName ctx.text name entityType).1 (ctx.text.trim name) entity.1
      row.entityType row.canonical)
  · intro s hs
    unfold ofExcept
    cases hmerge : mergeEntityAttributes ctx.json
        { entity.2 with
          confidence := max entity.2.confidence value
          updatedAt := ctx.now } attributes with
    | error e => trivial
    | ok row =>
        have hsame := mergeEntityAttributes_ok hmerge
        show I asked s ∧ Identified ctx s _ _ entity.1 row.entityType row.canonical
        rw [hsame.1, hsame.2]
        exact hs
  intro row
  apply Prog.Triple.bind (Q := fun _ => I (asked ++ [entityName ctx.text name entityType]))
  · exact Prog.triple_modify (fun s hs => h.register asked s _ _ (entity.1, row) hs.2 hs.1)
  intro _
  apply Prog.Triple.bind (Q := fun _ => I (asked ++ [entityName ctx.text name entityType]))
  · exact Prog.triple_modify (fun s hs => h.of_pushNameAliases entity.1 _ value hs)
  · intro _ s hs
    exact hs

theorem rules : BuildRules ctx I where
  ensure := h.ensure
  draw := h.asks_drawId
  link := h.asks_link
  beside f hf := h.asks_beside f (fun s => ⟨(hf s).entitiesByKey, (hf s).memoryEntities⟩)

theorem asks_buildExtraction (result : Schema.ExtractionResult F) :
    Asks I (resultNames ctx.text result) (buildExtraction ctx result) :=
  h.rules.asks_buildExtraction result

end BuildClosed

end Facade
end MenteDb
