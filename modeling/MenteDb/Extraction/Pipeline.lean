import MenteDb.Extraction.Response
import MenteDb.Facade.Enrichment

/-!
# The extraction pipeline

Memories are extracted from a conversation in one pass or two.  Those of low quality are set
aside, then those too similar to an existing memory, then those that contradict one; the rest
is to be stored.

The model, its prompts, the embedder and the source of fresh identifiers are parameters.
-/

namespace MenteDb
namespace Extraction

open Foundation
open Cognitive
open Facade
open Schema (ExtractedMemory ExtractedEntity ExtractedRelationship)

variable {F V : Type}

structure ExtractionConfig (F : Type) where
  maxExtractionsPerConversation : Nat
  qualityThreshold : F
  deduplicationThreshold : F
  enableContradictionCheck : Bool
  enableDeduplication : Bool
  extractionPasses : Nat

def ExtractionConfig.default [Scalar F] : ExtractionConfig F where
  maxExtractionsPerConversation := 50
  qualityThreshold := ratio 6 10
  deduplicationThreshold := ratio 85 100
  enableContradictionCheck := true
  enableDeduplication := true
  extractionPasses := 1

structure ExtractionPipeline (F V : Type) where
  config : ExtractionConfig F
  /-- The answer to a conversation and a prompt. -/
  provider : String -> String -> Except ExtractionError (List Char)
  systemPrompt : String
  verificationPrompt : String -> String
  serde : Serde F V
  text : TextOps F
  embed : String -> Option (List F)
  /-- The identifier and the time of the node made to check a memory, by its place. -/
  freshId : Nat -> MemoryId
  now : Nat -> Timestamp

inductive CognitiveFindingType where
  | contradiction
  | obsolescence
  | related
  | confidenceUpdate
deriving DecidableEq, Repr

structure CognitiveFinding where
  findingType : CognitiveFindingType
  description : String
  relatedMemoryId : Option MemoryId

structure ExtractionStats where
  totalExtracted : Nat
  accepted : Nat
  rejectedQuality : Nat
  rejectedDuplicate : Nat
  contradictionsFound : Nat

structure ProcessedExtractionResult (F : Type) where
  toStore : List (ExtractedMemory F)
  rejectedLowQuality : List (ExtractedMemory F)
  rejectedDuplicate : List (ExtractedMemory F)
  contradictions : List (ExtractedMemory F × List CognitiveFinding)
  entities : List ExtractedEntity
  relationships : List (ExtractedRelationship F)
  stats : ExtractionStats

namespace ExtractionPipeline

/-!
## Extraction
-/

/-- The first result and what a second look at the conversation adds to it. -/
def verificationPass (p : ExtractionPipeline F V) (build : Build) (level : LevelFilter)
    (conversation : String) (result : Schema.ExtractionResult F) :
    Option (Schema.ExtractionResult F) :=
  if 2 <= p.config.extractionPasses ∧ result.memories.isEmpty = false then
    let firstPassFacts := "\n".intercalate (result.memories.map (fun m => "- " ++ m.content))
    match p.provider conversation (p.verificationPrompt firstPassFacts) with
    | Except.error _ => some result
    | Except.ok verifyResponse =>
        (parseExtractionResponse build level p.serde verifyResponse).map (fun verified =>
          match verified with
          | Except.error _ => result
          | Except.ok verifyResult => {
              memories := result.memories ++ verifyResult.memories
              entities := result.entities ++ verifyResult.entities
              relationships := result.relationships ++ verifyResult.relationships })
  else some result

def extractFull (p : ExtractionPipeline F V) (build : Build) (level : LevelFilter)
    (conversation : String) : Option (Except ExtractionError (Schema.ExtractionResult F)) :=
  match p.provider conversation p.systemPrompt with
  | Except.error e => some (Except.error e)
  | Except.ok rawResponse =>
      (parseExtractionResponse build level p.serde rawResponse).bind (fun parsed =>
        match parsed with
        | Except.error e => some (Except.error e)
        | Except.ok first =>
            (p.verificationPass build level conversation first).map (fun result =>
              Except.ok { result with
                memories := result.memories.take p.config.maxExtractionsPerConversation }))

/-!
## Checks
-/

section Checks

variable [Scalar F]

def filterQuality (p : ExtractionPipeline F V) (memories : List (ExtractedMemory F)) :
    List (ExtractedMemory F) :=
  memories.filter (fun m => decide (p.config.qualityThreshold <= m.confidence))

def findingOf (text : TextOps F) : InferredAction F -> Option CognitiveFinding
  | InferredAction.flagContradiction existing _ reason =>
      some ⟨CognitiveFindingType.contradiction, reason, some existing⟩
  | InferredAction.markObsolete memory _ =>
      some ⟨CognitiveFindingType.obsolescence,
        "Memory " ++ uuidText memory.uuid ++ " may be obsolete", some memory⟩
  | InferredAction.updateConfidence memory newConfidence =>
      some ⟨CognitiveFindingType.confidenceUpdate,
        "Confidence for " ++ uuidText memory.uuid ++ " should be updated to "
          ++ text.fixed2 newConfidence, some memory⟩
  | InferredAction.createEdge _ target _ _ =>
      some ⟨CognitiveFindingType.related,
        "Related to existing memory " ++ uuidText target.uuid, some target⟩
  | InferredAction.invalidateMemory _ _ _ => none
  | InferredAction.updateContent _ _ _ => none
  | InferredAction.propagateBeliefChange _ _ => none

def checkContradictions (p : ExtractionPipeline F V) (existing : List (MemoryNode F))
    (newMemory : ExtractedMemory F) (place : Nat) : List CognitiveFinding :=
  if p.config.enableContradictionCheck = false ∨ existing.isEmpty = true then []
  else
    match p.embed newMemory.content with
    | none => []
    | some embedding =>
        let tempNode := MemoryNode.new (p.freshId place) (p.now place) AgentId.nil
          (mapExtractionTypeToMemoryType p.text newMemory.memoryType) newMemory.content embedding
        (inferOnWrite p.text WriteInferenceConfig.default tempNode existing).filterMap
          (findingOf p.text)

def checkDuplicates (p : ExtractionPipeline F V) (existing : List (MemoryNode F))
    (newMemory : ExtractedMemory F) : Bool :=
  if p.config.enableDeduplication = false ∨ existing.isEmpty = true then false
  else
    match p.embed newMemory.content with
    | none => false
    | some newEmbedding =>
        existing.any (fun mem =>
          decide (p.config.deduplicationThreshold <= cosineSimilarity newEmbedding mem.embedding))

def hasContradiction (findings : List CognitiveFinding) : Bool :=
  findings.any (fun f => decide (f.findingType = CognitiveFindingType.contradiction))

/-- Memories sorted out so far. -/
structure Sorted (F : Type) where
  toStore : List (ExtractedMemory F)
  rejectedDuplicate : List (ExtractedMemory F)
  contradictions : List (ExtractedMemory F × List CognitiveFinding)

def sortOut (p : ExtractionPipeline F V) (existing : List (MemoryNode F)) (sorted : Sorted F)
    (item : ExtractedMemory F × Nat) : Sorted F :=
  if p.checkDuplicates existing item.1 = true then
    { sorted with rejectedDuplicate := sorted.rejectedDuplicate ++ [item.1] }
  else
    let findings := p.checkContradictions existing item.1 item.2
    if hasContradiction findings = true then
      { sorted with contradictions := sorted.contradictions ++ [(item.1, findings)] }
    else { sorted with toStore := sorted.toStore ++ [item.1] }

def processed (p : ExtractionPipeline F V) (existing : List (MemoryNode F))
    (fullResult : Schema.ExtractionResult F) : ProcessedExtractionResult F :=
  let rejectedLowQuality := fullResult.memories.filter (fun m =>
    decide (m.confidence < p.config.qualityThreshold))
  let sorted :=
    (p.filterQuality fullResult.memories).zipIdx.foldl (p.sortOut existing) ⟨[], [], []⟩
  { toStore := sorted.toStore
    rejectedLowQuality := rejectedLowQuality
    rejectedDuplicate := sorted.rejectedDuplicate
    contradictions := sorted.contradictions
    entities := fullResult.entities
    relationships := fullResult.relationships
    stats := {
      totalExtracted := fullResult.memories.length
      accepted := sorted.toStore.length
      rejectedQuality := rejectedLowQuality.length
      rejectedDuplicate := sorted.rejectedDuplicate.length
      contradictionsFound := sorted.contradictions.length } }

def process (p : ExtractionPipeline F V) (build : Build) (level : LevelFilter)
    (conversation : String) (existing : List (MemoryNode F)) :
    Option (Except ExtractionError (ProcessedExtractionResult F)) :=
  (p.extractFull build level conversation).map (Except.map (p.processed existing))

end Checks

end ExtractionPipeline
end Extraction
end MenteDb
