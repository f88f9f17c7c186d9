import MenteDb.Facade.Completeness
import MenteDb.Facade.Effects
import MenteDb.Facade.EntityExtraction
import MenteDb.Facade.Excerpts
import MenteDb.Facade.ExtractionJobs
import MenteDb.Facade.MergeGroups

/-!
# Sleeptime enrichment

Episodic memories that have not been enriched are given to a language model in
batches; what it extracts is stored, entities are linked, communities summarized and a
profile written.  A run ends by recording the turn it was asked for, and the next run
takes the memories created after that turn: a creation time is compared with the
number of a turn.  A panic, where an excerpt is cut inside a character, unwinds the run
before the turn is recorded.

The language model, the embedder and the cache of resolved names are parameters.  The
statistics that a run returns are left out.
-/

namespace MenteDb
namespace Facade

open Foundation
open Sqlite
open Cognitive
open Consolidation

variable {F : Type}

/-!
## What a run is given
-/

/-- What the extraction pipeline makes of a conversation. -/
structure ProcessedExtraction (F : Type) where
  toStore : List (Schema.ExtractedMemory F)
  contradictions : List (Schema.ExtractedMemory F)
  entities : List Schema.ExtractedEntity

structure EntityLinkResolution (F : Type) where
  canonical : String
  aliases : List String
  confidence : F

structure CognitiveLlm (F : Type) where
  /-- Groups of names for one entity, among names with their contexts. -/
  resolveEntities : List (String × Option String) -> Option (List (EntityMergeGroup F))
  generateCommunitySummary : String -> List (String × String) -> Option String
  generateUserProfile : List String -> List String -> Option String

structure EnrichmentServices (F : Type) where
  maxEnrichmentConfidence : F
  /-- Whether a provider could be created for the extraction. -/
  providerReady : Bool
  /-- The pipeline on a conversation and the memories similar to it. -/
  process : String -> List (MemoryNode F) -> Option (ProcessedExtraction F)
  /-- The embedder of the run. -/
  embed : String -> Option (List F)
  /-- The embedder of the database. -/
  embedText : String -> Option (List F)
  /-- The names that the resolver's cache knows. -/
  resolve : String -> Option String
  llm : Option (CognitiveLlm F)

/-- Why a run or a turn ends early. -/
inductive Stop where
  | failed (e : MenteError)
  | panicked

/-- A part of a run that a panic may unwind. -/
abbrev Unwinding (F α : Type) := Prog (World F) Stop α

/-- An operation that does not panic. -/
def calmly {α : Type} (x : Op F α) : Unwinding F α := Prog.mapError Stop.failed x

/-- A result that a panic prevents. -/
def orPanic {α : Type} : Option α -> Unwinding F α
  | none => Prog.fail Stop.panicked
  | some a => pure a

/-!
## Nodes made from an extraction
-/

def mapExtractionTypeToMemoryType (text : TextOps F) (extractionType : String) : MemoryType :=
  let kind := text.toLowercase extractionType
  if kind ∈ ["decision", "preference", "fact", "entity"] then MemoryType.semantic
  else if kind = "correction" then MemoryType.correction
  else if kind = "anti_pattern" then MemoryType.antiPattern
  else MemoryType.episodic

namespace Schema.ExtractedEntity

def categories (text : TextOps F) (entity : ExtractedEntity) : List String :=
  match entity.attributes.find? "category" with
  | none => []
  | some listed =>
      ((listed.toList.splitOnP (fun c => c == ',')).map (fun part =>
        text.trim (String.ofList part))).filter (fun part => !part.isEmpty)

/-- The attributes but for the categories, in the order of a hash table. -/
def details (order : HashOrder) (entity : ExtractedEntity) : List String :=
  ((order.order entity.attributes.entries).filter (fun a => decide (a.1 ≠ "category"))).map
    (fun a => a.1 ++ ": " ++ a.2)

def toContent (text : TextOps F) (order : HashOrder) (entity : ExtractedEntity) : String :=
  let listed := (entity.categories text).map (replaceText "_" " ")
  (if listed.isEmpty then "" else ", ".intercalate listed ++ " — ")
    ++ entity.name ++ " is a " ++ entity.entityType
    ++ (if (entity.details order).isEmpty then ""
        else ". Attributes: " ++ ", ".intercalate (entity.details order))

def embeddingKey (order : HashOrder) (entity : ExtractedEntity) : String :=
  let listed := (entity.attributes.find? "category").getD ""
  entity.name ++ " (" ++ entity.entityType ++ ")"
    ++ (if listed.isEmpty then "" else " [categories: " ++ listed ++ "]")
    ++ String.join ((entity.details order).map (fun detail => " " ++ detail))

end Schema.ExtractedEntity

section Pipeline

variable [Scalar F]

def newNode (env : Env F) (agentId : AgentId) (memoryType : MemoryType) (content : String)
    (embedding : List F) : Op F (MemoryNode F) := do
  let id ← Prog.gets (fun w => env.freshMemoryId w.ticks)
  let now ← currentTimeUs env
  pure (MemoryNode.new id now agentId memoryType content embedding)

omit [Scalar F] in
def newAgentId (env : Env F) : Op F AgentId :=
  Prog.gets (fun w => ⟨(env.freshMemoryId (w.ticks + 1)).uuid⟩)

omit [Scalar F] in
/-- Run over a list and keep the results there are. -/
def collect {α β : Type} (f : α -> Op F (Option β)) : List α -> Op F (List β)
  | [] => pure []
  | x :: rest => do
      let y ← f x
      let ys ← collect f rest
      pure (y.toList ++ ys)

/-- What cannot be embedded is skipped. -/
def extractedNode (env : Env F) (services : EnrichmentServices F)
    (extracted : Schema.ExtractedMemory F) : Op F (Option (MemoryNode F)) :=
  match services.embed extracted.content with
  | none => pure none
  | some embedding => do
      let node ← newNode env AgentId.nil
        (mapExtractionTypeToMemoryType env.text extracted.memoryType) extracted.content embedding
      pure (some { node with tags := extracted.tags, confidence := extracted.confidence })

def entityNode (env : Env F) (services : EnrichmentServices F)
    (entity : Schema.ExtractedEntity) : Op F (Option (MemoryNode F)) :=
  match services.embed (entity.embeddingKey env.hashOrder) with
  | none => pure none
  | some embedding => do
      let node ← newNode env AgentId.nil MemoryType.semantic
        (entity.toContent env.text env.hashOrder) embedding
      pure (some { node with
        tags :=
          ["entity:" ++ env.text.toLowercase entity.name, "entity_type:" ++ entity.entityType] ++
            (entity.categories env.text).map (fun c => "category:" ++ env.text.toLowercase c) })

/-!
## Storing what was extracted
-/

/-- Tagged as coming from an enrichment, with no more than the given confidence. -/
def enrichmentMemory (maxConfidence : F) (mem : MemoryNode F) : MemoryNode F :=
  { mem with
    tags :=
      if "source:enrichment" ∈ mem.tags then mem.tags else mem.tags ++ ["source:enrichment"]
    confidence := if maxConfidence < mem.confidence then maxConfidence else mem.confidence }

def deriveFrom (env : Env F) (now : Timestamp) (id source : MemoryId) : Op F Unit := do
  let _ ← Prog.attempt (relate env (inferredEdge now id source EdgeType.derived (ratio 8 10)
    (some "enrichment")))
  pure ()

def storeEnrichmentMemory (env : Env F) (maxConfidence : F) (sourceIds : List MemoryId)
    (mem : MemoryNode F) : Op F Unit := do
  store env (enrichmentMemory maxConfidence mem)
  let now ← currentTimeUs env
  Prog.forEach sourceIds (deriveFrom env now mem.id)

def storeEnrichmentMemories (env : Env F) (maxConfidence : F) (memories : List (MemoryNode F))
    (sourceIds : List MemoryId) : Op F Unit :=
  Prog.forEach memories (storeEnrichmentMemory env maxConfidence sourceIds)

omit [Scalar F] in
def conversationOf (batch : List (MemoryNode F)) : String :=
  "\n---\n".intercalate (batch.map MemoryNode.content)

omit [Scalar F] in
/-- What is embedded of a conversation. -/
def conversationPreview (batch : List (MemoryNode F)) : Option String :=
  upTo (conversationOf batch) 500

/-- The memories most similar to the beginning of a conversation. -/
def existingMemories (env : Env F) (services : EnrichmentServices F)
    (batch : List (MemoryNode F)) : Unwinding F (List (MemoryNode F)) := do
  let preview ← orPanic (conversationPreview batch)
  match services.embedText preview with
  | none => pure []
  | some embedding => calmly (do
      let now ← currentTimeUs env
      Prog.gets (fun w =>
        (openRecall env w embedding none 30 now).filterMap (fun hit => w.tables.getMemory hit.1)))

/-- What the pipeline extracted is made into nodes and stored; a failure is passed over. -/
def storeExtraction (env : Env F) (services : EnrichmentServices F)
    (batch : List (MemoryNode F)) (extraction : ProcessedExtraction F) : Op F Unit := do
  let memories ← collect (extractedNode env services)
    (extraction.toStore ++ extraction.contradictions)
  let entities ← collect (entityNode env services) extraction.entities
  let _ ← Prog.attempt (storeEnrichmentMemories env services.maxEnrichmentConfidence
    (memories ++ entities) (batch.map MemoryNode.id))
  pure ()

/-- A batch whose extraction or whose storing fails is passed over. -/
def enrichBatch (env : Env F) (services : EnrichmentServices F) (batch : List (MemoryNode F)) :
    Unwinding F Unit := do
  let existing ← existingMemories env services batch
  match services.process (conversationOf batch) existing with
  | none => pure ()
  | some extraction => calmly (storeExtraction env services batch extraction)

/-!
## The later phases
-/

omit [Scalar F] in
def resolutionMemoryIds (text : TextOps F) (map : Assoc String (List MemoryId))
    (group : EntityLinkResolution F) : List MemoryId :=
  let named := fun name => (map.find? (text.toLowercase name)).getD []
  orderBy idLe (named group.canonical ++ group.aliases.flatMap named).dedup

def linkResolved (env : Env F) (now : Timestamp) (group : EntityLinkResolution F)
    (pair : MemoryId × MemoryId) : Op F Unit := do
  let linked ← Prog.gets (fun w => alreadyLinked w.graph pair.1 pair.2)
  if linked then pure ()
  else do
    let _ ← Prog.attempt (relate env (inferredEdge now pair.1 pair.2 EdgeType.related
      group.confidence (some ("entity_link:" ++ env.text.toLowercase group.canonical))))
    pure ()

def applyEntityLinkResolutions (env : Env F) (groups : List (EntityLinkResolution F)) :
    Op F Unit := do
  let now ← currentTimeUs env
  let map ← Prog.gets (fun w => buildEntityMemoryMap env.text w.tables)
  Prog.forEach groups (fun group =>
    Prog.forEach (laterPairs (resolutionMemoryIds env.text map group)) (linkResolved env now group))

omit [Scalar F] in
def unresolvedEntityNames (text : TextOps F) (services : EnrichmentServices F) (t : Tables F) :
    List String :=
  (allEntityNames text t).filter (fun name => (services.resolve name).isNone)

/-- The model is asked in batches of fifty names, and what it answers is merged. -/
def resolutionsOf (env : Env F) (llm : CognitiveLlm F)
    (named : List (String × Option String)) : List (EntityLinkResolution F) :=
  let candidates := orderBy (fun a b => decide (a.1 <= b.1)) named
  let groups := (candidates.toChunks 50).flatMap (fun chunk =>
    (llm.resolveEntities chunk).getD [])
  let merged :=
    if 1 < groups.length then consolidateMergeGroups env.hashOrder env.text groups else groups
  merged.map (fun group => ⟨group.canonical, group.aliases, group.confidence⟩)

def runLlmEntityLinking (env : Env F) (services : EnrichmentServices F) (llm : CognitiveLlm F) :
    Unwinding F Unit := do
  let contexts ← Prog.gets (fun w => entityNamesWithContext env.hashOrder env.text w.tables)
  let named ← orPanic contexts
  let unresolved ← Prog.gets (fun w => unresolvedEntityNames env.text services w.tables)
  if unresolved.isEmpty ∨ (resolutionsOf env llm named).isEmpty then pure ()
  else calmly (do
    let _ ← Prog.attempt (applyEntityLinkResolutions env (resolutionsOf env llm named))
    pure ())

omit [Scalar F] in
/-- Entity memories by their type, with the beginning of their contents. -/
def entityCommunities (text : TextOps F) (t : Tables F) :
    Assoc String (List (String × String)) :=
  t.allMemories.foldl (fun map mem =>
    if "community_summary" ∈ mem.tags then map
    else
      match mem.tags.findSome? entityTag with
      | none => map
      | some name =>
          map.upsert
            (text.toLowercase ((mem.tags.findSome? (stripPrefix "entity_type:")).getD "general"))
            (fun members => members.getD [] ++
              [(name, String.ofList (mem.content.toList.take 200))]))
    Assoc.empty

omit [Scalar F] in
def communitySummaries (t : Tables F) : List (MemoryNode F) :=
  t.allMemories.filter (fun m => decide ("community_summary" ∈ m.tags))

/-- The memory of a category's summary, rewritten or new. -/
def storeSummaryNode (env : Env F) (services : EnrichmentServices F) (category summary : String) :
    Op F MemoryId := do
  let found ← Prog.gets (fun w =>
    w.tables.allMemories.find? (fun m => decide ("community:" ++ category ∈ m.tags)))
  match found with
  | some mem => do
      dbStoreMemory env { mem with
        content := summary
        embedding := (services.embedText summary).getD mem.embedding }
      pure mem.id
  | none => do
      let agentId ← newAgentId env
      let node ← newNode env agentId MemoryType.semantic summary
        ((services.embedText summary).getD [])
      store env { node with
        tags := ["community_summary", "community:" ++ category, "source:enrichment"]
        confidence := ratio 7 10 }
      pure node.id

def storeCommunitySummary (env : Env F) (services : EnrichmentServices F)
    (category summary : String) (memberNames : List String) : Op F MemoryId :=
  if category.isEmpty then
    Prog.fail (MenteError.storage "community category cannot be empty")
  else do
    let now ← currentTimeUs env
    let nodeId ← storeSummaryNode env services category summary
    let map ← Prog.gets (fun w => buildEntityMemoryMap env.text w.tables)
    Prog.forEach memberNames (fun name =>
      Prog.forEach ((map.find? (env.text.toLowercase name)).getD []) (fun member =>
        relate env (inferredEdge now nodeId member EdgeType.derived (ratio 8 10)
          (some ("community_member:" ++ category)))))
    pure nodeId

def summarizeCommunity (env : Env F) (services : EnrichmentServices F) (llm : CognitiveLlm F)
    (summarized : List String) (community : String × List (String × String)) : Op F Unit :=
  if community.1 ∈ summarized then pure ()
  else
    match llm.generateCommunitySummary community.1 (community.2.take 20) with
    | none => pure ()
    | some summary => do
        let _ ← Prog.attempt (storeCommunitySummary env services community.1 summary
          ((community.2.take 20).map Prod.fst))
        pure ()

def runCommunityDetection (env : Env F) (services : EnrichmentServices F) (llm : CognitiveLlm F) :
    Op F Unit := do
  let communities ← Prog.gets (fun w =>
    (env.hashOrder.order (entityCommunities env.text w.tables).entries).filter
      (fun c => decide (2 <= c.2.length)))
  let summarized ← Prog.gets (fun w =>
    (communitySummaries w.tables).flatMap (fun m => m.tags.filterMap (stripPrefix "community:")))
  Prog.forEach communities (summarizeCommunity env services llm summarized)

/-- The first facts of which a profile is made. -/
def profileFacts (t : Tables F) : List String :=
  ((t.allMemories.filter (fun m =>
    decide (ratio 1 2 <= m.confidence) &&
      decide (m.memoryType = MemoryType.semantic ∨ m.memoryType = MemoryType.procedural) &&
      !(m.tags.any (fun tag => decide (tag = "community_summary") || (entityTag tag).isSome)))).map
    (fun m => String.ofList (m.content.toList.take 300))).take 100

def storeUserProfile (env : Env F) (services : EnrichmentServices F) (profile : String) :
    Op F MemoryId := do
  let found ← Prog.gets (fun w =>
    w.tables.allMemories.find? (fun m => decide ("user_profile" ∈ m.tags)))
  match found with
  | some mem => do
      let updated := { mem with
        content := profile
        embedding := (services.embedText profile).getD mem.embedding }
      dbStoreMemory env updated
      let _ ← Prog.attempt (indexMemoryEntities env updated)
      pure mem.id
  | none => do
      let agentId ← newAgentId env
      let node ← newNode env agentId MemoryType.semantic profile
        ((services.embedText profile).getD [])
      store env { node with
        tags := ["user_profile", "scope:always", "source:enrichment"]
        confidence := ratio 8 10 }
      pure node.id

def runUserModel (env : Env F) (services : EnrichmentServices F) (llm : CognitiveLlm F) :
    Op F Unit := do
  let facts ← Prog.gets (fun w => profileFacts w.tables)
  let texts ← Prog.gets (fun w => (communitySummaries w.tables).map MemoryNode.content)
  if facts.length < 3 ∧ texts.isEmpty then pure ()
  else
    match llm.generateUserProfile facts texts with
    | none => pure ()
    | some profile => do
        let _ ← Prog.attempt (storeUserProfile env services profile)
        pure ()

/-- The phases that need a language model. -/
def runLlmPhases (env : Env F) (services : EnrichmentServices F) : Unwinding F Unit :=
  match services.llm with
  | none => pure ()
  | some llm => do
      runLlmEntityLinking env services llm
      calmly (do
        runCommunityDetection env services llm
        runUserModel env services llm)

def runLaterPhases (env : Env F) (services : EnrichmentServices F) : Unwinding F Unit := do
  let _ ← calmly (Prog.attempt (linkEntities env services.resolve))
  runLlmPhases env services

def runExtractionPhase (env : Env F) (services : EnrichmentServices F)
    (candidates : List (MemoryNode F)) : Unwinding F Unit :=
  Prog.forEach (candidates.toChunks 10) (enrichBatch env services)

end Pipeline

/-!
## A run
-/

/-- An open database with its record of enrichments. -/
structure Database (F : Type) where
  world : World F
  lastEnrichmentTurn : UInt64
  enrichmentPending : Bool

namespace Database

/-- A database that is opened has no record of enrichments. -/
def ofWorld (w : World F) : Database F where
  world := w
  lastEnrichmentTurn := 0
  enrichmentPending := false

def requestEnrichment (db : Database F) : Database F := { db with enrichmentPending := true }

def markEnrichmentComplete (turnId : UInt64) (db : Database F) : Database F :=
  { db with lastEnrichmentTurn := turnId, enrichmentPending := false }

def enrichmentCandidates (db : Database F) : List (MemoryNode F) :=
  orderBy (fun a b => decide (a.createdAt <= b.createdAt))
    (db.world.tables.allMemories.filter (fun m =>
      decide (m.memoryType = MemoryType.episodic) && decide ("source:enrichment" ∉ m.tags) &&
        decide (db.lastEnrichmentTurn < m.createdAt)))

variable [Scalar F]

def run (op : Op F Unit) (db : Database F) : Database F := { db with world := (op db.world).2 }

/-- The candidates that a run gives to the pipeline. -/
def processedBy (services : EnrichmentServices F) (skipExtraction : Bool) (db : Database F) :
    List (MemoryNode F) :=
  if skipExtraction ∨ ¬ services.providerReady then [] else db.enrichmentCandidates

/-- The phases of a run, or none when there is nothing to extract from or with. -/
def enrichmentPhases (env : Env F) (services : EnrichmentServices F) (skipExtraction : Bool)
    (db : Database F) : Unwinding F Unit :=
  if skipExtraction then runLaterPhases env services
  else if db.enrichmentCandidates.isEmpty then pure ()
  else if services.providerReady then do
    runExtractionPhase env services db.enrichmentCandidates
    runLaterPhases env services
  else pure ()

/-- The run is not unwound. -/
def enrichmentReturns (env : Env F) (services : EnrichmentServices F) (skipExtraction : Bool)
    (db : Database F) : Bool :=
  (db.enrichmentPhases env services skipExtraction db.world).1.isOk

def runEnrichment (env : Env F) (services : EnrichmentServices F) (currentTurn : UInt64)
    (skipExtraction : Bool) (db : Database F) : Database F :=
  match db.enrichmentPhases env services skipExtraction db.world with
  | (Except.ok _, w) => { db with world := w }.markEnrichmentComplete currentTurn
  | (Except.error _, w) => { db with world := w }

end Database

/-!
## Assertions that survive a run
-/

section Closed

variable {env : Env F} {I : World F -> Prop}

theorem keeps_orPanic {α : Type} (x : Option α) : Prog.Keeps I (orPanic x) := by
  cases x with
  | none => exact Prog.keeps_fail _
  | some a => exact Prog.keeps_pure a

theorem keeps_collect {α β : Type} {f : α -> Op F (Option β)} (h : forall x, Prog.Keeps I (f x))
    (xs : List α) : Prog.Keeps I (collect f xs) := by
  induction xs with
  | nil => exact Prog.keeps_pure []
  | cons x rest ih =>
      apply Prog.Keeps.bind (h x)
      intro y
      apply Prog.Keeps.bind ih
      intro ys
      exact Prog.keeps_pure (y.toList ++ ys)

namespace WriteClosed

variable [Scalar F] (h : WriteClosed env I)

include h

theorem keeps_newNode (agentId : AgentId) (memoryType : MemoryType) (content : String)
    (embedding : List F) : Prog.Keeps I (newNode env agentId memoryType content embedding) := by
  apply Prog.Keeps.bind (Prog.keeps_gets _)
  intro id
  exact Prog.Keeps.bind h.keeps_now (fun _ => Prog.keeps_pure _)

theorem keeps_extractedNode (services : EnrichmentServices F)
    (extracted : Schema.ExtractedMemory F) :
    Prog.Keeps I (extractedNode env services extracted) := by
  unfold extractedNode
  split
  · exact Prog.keeps_pure none
  · exact Prog.Keeps.bind (h.keeps_newNode _ _ _ _) (fun _ => Prog.keeps_pure _)

theorem keeps_entityNode (services : EnrichmentServices F) (entity : Schema.ExtractedEntity) :
    Prog.Keeps I (entityNode env services entity) := by
  unfold entityNode
  split
  · exact Prog.keeps_pure none
  · exact Prog.Keeps.bind (h.keeps_newNode _ _ _ _) (fun _ => Prog.keeps_pure _)

theorem keeps_storeEnrichmentMemories (maxConfidence : F) (memories : List (MemoryNode F))
    (sourceIds : List MemoryId) :
    Prog.Keeps I (storeEnrichmentMemories env maxConfidence memories sourceIds) := by
  apply Prog.Keeps.forEach
  intro mem _
  apply Prog.Keeps.bind (h.keeps_store _)
  intro _
  apply Prog.Keeps.bind h.keeps_now
  intro now
  apply Prog.Keeps.forEach
  intro source _
  exact Prog.Keeps.bind (h.relate _).attempt (fun _ => Prog.keeps_pure ())

theorem keeps_existingMemories (services : EnrichmentServices F)
    (batch : List (MemoryNode F)) : Prog.Keeps I (existingMemories env services batch) := by
  apply Prog.Keeps.bind (keeps_orPanic _)
  intro preview
  split
  · exact Prog.keeps_pure []
  · exact Prog.Triple.mapError (Prog.Keeps.bind h.keeps_now (fun _ => Prog.keeps_gets _))

theorem keeps_storeExtraction (services : EnrichmentServices F) (batch : List (MemoryNode F))
    (extraction : ProcessedExtraction F) :
    Prog.Keeps I (storeExtraction env services batch extraction) := by
  apply Prog.Keeps.bind (keeps_collect (h.keeps_extractedNode services) _)
  intro memories
  apply Prog.Keeps.bind (keeps_collect (h.keeps_entityNode services) _)
  intro entities
  exact Prog.Keeps.bind (h.keeps_storeEnrichmentMemories _ _ _).attempt
    (fun _ => Prog.keeps_pure ())

theorem keeps_enrichBatch (services : EnrichmentServices F) (batch : List (MemoryNode F)) :
    Prog.Keeps I (enrichBatch env services batch) := by
  apply Prog.Keeps.bind (h.keeps_existingMemories services batch)
  intro existing
  split
  · exact Prog.keeps_pure ()
  · exact Prog.Triple.mapError (h.keeps_storeExtraction services batch _)

theorem keeps_applyEntityLinkResolutions (groups : List (EntityLinkResolution F)) :
    Prog.Keeps I (applyEntityLinkResolutions env groups) := by
  apply Prog.Keeps.bind h.keeps_now
  intro now
  apply Prog.Keeps.bind (Prog.keeps_gets _)
  intro map
  apply Prog.Keeps.forEach
  intro group _
  apply Prog.Keeps.forEach
  intro pair _
  apply Prog.Keeps.bind (Prog.keeps_gets _)
  intro linked
  apply Prog.triple_ite
  · intro _
    exact Prog.keeps_pure ()
  · intro _
    exact Prog.Keeps.bind (h.relate _).attempt (fun _ => Prog.keeps_pure ())

/-- A node that is made for the occasion and stored. -/
theorem keeps_storeNew (memoryType : MemoryType) (content : String) (embedding : List F)
    (finish : MemoryNode F -> MemoryNode F) :
    Prog.Keeps I (do
      let agentId ← newAgentId env
      let node ← newNode env agentId memoryType content embedding
      store env (finish node)
      pure node.id) := by
  apply Prog.Keeps.bind (Prog.keeps_gets _)
  intro agentId
  apply Prog.Keeps.bind (h.keeps_newNode _ _ _ _)
  intro node
  exact Prog.Keeps.bind (h.keeps_store _) (fun _ => Prog.keeps_pure _)

theorem keeps_storeSummaryNode (services : EnrichmentServices F) (category summary : String) :
    Prog.Keeps I (storeSummaryNode env services category summary) := by
  apply Prog.Keeps.bind (Prog.keeps_gets _)
  intro found
  cases found with
  | some mem => exact Prog.Keeps.bind (h.keeps_dbStoreMemory _) (fun _ => Prog.keeps_pure _)
  | none => exact h.keeps_storeNew _ _ _ _

theorem keeps_storeCommunitySummary (services : EnrichmentServices F) (category summary : String)
    (memberNames : List String) :
    Prog.Keeps I (storeCommunitySummary env services category summary memberNames) := by
  apply Prog.triple_ite
  · intro _
    exact Prog.keeps_fail _
  · intro _
    apply Prog.Keeps.bind h.keeps_now
    intro now
    apply Prog.Keeps.bind (h.keeps_storeSummaryNode services category summary)
    intro nodeId
    apply Prog.Keeps.bind (Prog.keeps_gets _)
    intro map
    apply Prog.Keeps.bind
    · apply Prog.Keeps.forEach
      intro name _
      exact Prog.Keeps.forEach (fun member _ => h.relate _)
    · intro _
      exact Prog.keeps_pure nodeId

theorem keeps_runCommunityDetection (services : EnrichmentServices F) (llm : CognitiveLlm F) :
    Prog.Keeps I (runCommunityDetection env services llm) := by
  apply Prog.Keeps.bind (Prog.keeps_gets _)
  intro communities
  apply Prog.Keeps.bind (Prog.keeps_gets _)
  intro summarized
  apply Prog.Keeps.forEach
  intro community _
  apply Prog.triple_ite
  · intro _
    exact Prog.keeps_pure ()
  · intro _
    split
    · exact Prog.keeps_pure ()
    · exact Prog.Keeps.bind (h.keeps_storeCommunitySummary services _ _ _).attempt
        (fun _ => Prog.keeps_pure ())

theorem keeps_storeUserProfile (services : EnrichmentServices F) (profile : String) :
    Prog.Keeps I (storeUserProfile env services profile) := by
  apply Prog.Keeps.bind (Prog.keeps_gets _)
  intro found
  cases found with
  | some mem =>
      apply Prog.Keeps.bind (h.keeps_dbStoreMemory _)
      intro _
      exact Prog.Keeps.bind (keeps_indexMemoryEntities h.views _).attempt
        (fun _ => Prog.keeps_pure _)
  | none => exact h.keeps_storeNew _ _ _ _

theorem keeps_runUserModel (services : EnrichmentServices F) (llm : CognitiveLlm F) :
    Prog.Keeps I (runUserModel env services llm) := by
  apply Prog.Keeps.bind (Prog.keeps_gets _)
  intro facts
  apply Prog.Keeps.bind (Prog.keeps_gets _)
  intro texts
  apply Prog.triple_ite
  · intro _
    exact Prog.keeps_pure ()
  · intro _
    split
    · exact Prog.keeps_pure ()
    · exact Prog.Keeps.bind (h.keeps_storeUserProfile services _).attempt
        (fun _ => Prog.keeps_pure ())

theorem keeps_runLlmEntityLinking (services : EnrichmentServices F) (llm : CognitiveLlm F) :
    Prog.Keeps I (runLlmEntityLinking env services llm) := by
  apply Prog.Keeps.bind (Prog.keeps_gets _)
  intro contexts
  apply Prog.Keeps.bind (keeps_orPanic contexts)
  intro named
  apply Prog.Keeps.bind (Prog.keeps_gets _)
  intro unresolved
  apply Prog.triple_ite
  · intro _
    exact Prog.keeps_pure ()
  · intro _
    exact Prog.Triple.mapError (Prog.Keeps.bind (h.keeps_applyEntityLinkResolutions _).attempt
      (fun _ => Prog.keeps_pure ()))

theorem keeps_runLaterPhases (services : EnrichmentServices F) :
    Prog.Keeps I (runLaterPhases env services) := by
  apply Prog.Keeps.bind (Prog.Triple.mapError (h.keeps_linkEntities services.resolve).attempt)
  intro _
  unfold runLlmPhases
  split
  · exact Prog.keeps_pure ()
  · rename_i llm _
    apply Prog.Keeps.bind (h.keeps_runLlmEntityLinking services llm)
    intro _
    apply Prog.Triple.mapError
    apply Prog.Keeps.bind (h.keeps_runCommunityDetection services llm)
    intro _
    exact h.keeps_runUserModel services llm

theorem keeps_enrichmentPhases (services : EnrichmentServices F) (skipExtraction : Bool)
    (db : Database F) : Prog.Keeps I (db.enrichmentPhases env services skipExtraction) := by
  have hlater := h.keeps_runLaterPhases services
  unfold Database.enrichmentPhases
  split
  · exact hlater
  · split
    · exact Prog.keeps_pure ()
    · split
      · exact Prog.Keeps.bind
          (Prog.Keeps.forEach (fun batch _ => h.keeps_enrichBatch services batch))
          (fun _ => hlater)
      · exact Prog.keeps_pure ()

theorem of_runEnrichment (services : EnrichmentServices F) (currentTurn : UInt64)
    (skipExtraction : Bool) {db : Database F} (hdb : I db.world) :
    I (db.runEnrichment env services currentTurn skipExtraction).world := by
  have hstate := (h.keeps_enrichmentPhases services skipExtraction db).state hdb
  unfold Database.runEnrichment
  rcases hrun : db.enrichmentPhases env services skipExtraction db.world with ⟨outcome, w⟩
  rw [hrun] at hstate
  cases outcome with
  | ok _ => exact hstate
  | error _ => exact hstate

end WriteClosed

end Closed

end Facade
end MenteDb
