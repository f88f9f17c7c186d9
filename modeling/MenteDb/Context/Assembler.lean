import MenteDb.Cognitive.Text
import MenteDb.Foundation.Ranking

/-!
# Context assembly

Scored memories are packed greedily into a token budget, best first, and the
ones that fit are arranged in five attention zones.
-/

namespace MenteDb
namespace Context

open Foundation
open Cognitive

variable {F : Type}

/-- A memory with its relevance score. -/
abbrev ScoredMemory (F : Type) := MemoryNode F × F

/-!
## Token budget
-/

/-- The word count times 1.3, rounded up. -/
def estimateTokens (text : TextOps F) (s : String) : Nat :=
  (13 * (text.splitWhitespace s).length + 9) / 10

structure TokenBudget where
  maxTokens : Nat
  usedTokens : Nat

namespace TokenBudget

def new (maxTokens : Nat) : TokenBudget where
  maxTokens := maxTokens
  usedTokens := 0

def remaining (b : TokenBudget) : Nat := b.maxTokens - b.usedTokens

def canFit (text : TextOps F) (b : TokenBudget) (s : String) : Bool :=
  decide (estimateTokens text s <= b.remaining)

def consume (text : TextOps F) (b : TokenBudget) (s : String) : TokenBudget :=
  { b with usedTokens := b.usedTokens + min (estimateTokens text s) b.remaining }

end TokenBudget

/-- The memories that fit, in order, and the budget that is left. -/
def pack (text : TextOps F) (b : TokenBudget) :
    List (ScoredMemory F) -> List (ScoredMemory F) × TokenBudget
  | [] => ([], b)
  | sm :: rest =>
      if b.canFit text sm.1.content then
        let packed := pack text (b.consume text sm.1.content) rest
        (sm :: packed.1, packed.2)
      else pack text b rest

/-!
## Attention zones
-/

inductive AttentionZone where
  | opening
  | critical
  | primary
  | supporting
  | closing
deriving DecidableEq, Repr

def AttentionZone.allOrdered : List AttentionZone :=
  [AttentionZone.opening, AttentionZone.critical, AttentionZone.primary,
    AttentionZone.supporting, AttentionZone.closing]

structure ContextBlock (F : Type) where
  zone : AttentionZone
  memories : List (ScoredMemory F)
  estimatedTokens : Nat
deriving DecidableEq

structure ZoneThresholds (F : Type) where
  criticalScore : F
  criticalSalience : F
  primaryScore : F
  supportingScore : F

section Layout

variable [Scalar F]

def ZoneThresholds.default : ZoneThresholds F where
  criticalScore := ratio 8 10
  criticalSalience := ratio 7 10
  primaryScore := ratio 5 10
  supportingScore := ratio 2 10

def classify (thresholds : ZoneThresholds F) (sm : ScoredMemory F) : AttentionZone :=
  if sm.1.memoryType = MemoryType.antiPattern ∨ sm.1.memoryType = MemoryType.correction then
    AttentionZone.opening
  else if thresholds.criticalScore <= sm.2 ∧ thresholds.criticalSalience <= sm.1.salience then
    AttentionZone.critical
  else if thresholds.primaryScore <= sm.2 then AttentionZone.primary
  else if thresholds.supportingScore <= sm.2 then AttentionZone.supporting
  else AttentionZone.closing

/-- One block per zone, each sorted by score. -/
def arrange (text : TextOps F) (thresholds : ZoneThresholds F)
    (memories : List (ScoredMemory F)) : List (ContextBlock F) :=
  AttentionZone.allOrdered.map (fun zone =>
    let zoned := rank (memories.filter (fun sm => decide (classify thresholds sm = zone)))
    { zone := zone
      memories := zoned
      estimatedTokens := (zoned.map (fun sm => estimateTokens text sm.1.content)).sum })

end Layout

/-!
## Serialization
-/

def zoneLabel : AttentionZone -> String
  | AttentionZone.opening => "⚠️ Warnings & Corrections"
  | AttentionZone.critical => "🎯 Critical Context"
  | AttentionZone.primary => "📋 Primary Context"
  | AttentionZone.supporting => "📎 Supporting Context"
  | AttentionZone.closing => "🔁 Summary & Reinforcement"

def memoryTypeDebug : MemoryType -> String
  | MemoryType.episodic => "Episodic"
  | MemoryType.semantic => "Semantic"
  | MemoryType.procedural => "Procedural"
  | MemoryType.antiPattern => "AntiPattern"
  | MemoryType.reasoning => "Reasoning"
  | MemoryType.correction => "Correction"

def edgeTypeDebug : EdgeType -> String
  | EdgeType.caused => "Caused"
  | EdgeType.before => "Before"
  | EdgeType.related => "Related"
  | EdgeType.contradicts => "Contradicts"
  | EdgeType.supports => "Supports"
  | EdgeType.supersedes => "Supersedes"
  | EdgeType.derived => "Derived"
  | EdgeType.partOf => "PartOf"

def compactLine (text : TextOps F) (m : MemoryNode F) : String :=
  "M|" ++ memoryTypeDebug m.memoryType ++ "|" ++ text.fixed2 m.salience ++ "|" ++ m.content
    ++ (if m.tags.isEmpty then "" else "|tags:" ++ ",".intercalate m.tags)

def compactFormat (text : TextOps F) (blocks : List (ContextBlock F)) : String :=
  "\n".intercalate ((blocks.filter (fun b => !b.memories.isEmpty)).flatMap (fun b =>
    ("# " ++ zoneLabel b.zone) :: b.memories.map (fun sm => compactLine text sm.1)))

def structuredLine (text : TextOps F) (m : MemoryNode F) : String :=
  "- **[" ++ memoryTypeDebug m.memoryType ++ "]** (salience: " ++ text.fixed2 m.salience ++ ") "
    ++ m.content ++ (if m.tags.isEmpty then "" else " [" ++ ", ".intercalate m.tags ++ "]")

def structuredFormat (text : TextOps F) (blocks : List (ContextBlock F)) : String :=
  "\n".intercalate ((blocks.filter (fun b => !b.memories.isEmpty)).flatMap (fun b =>
    ("## " ++ zoneLabel b.zone) :: (b.memories.map (fun sm => structuredLine text sm.1) ++ [""])))

inductive OutputFormat where
  | compact
  | structured
  | delta
deriving DecidableEq, Repr

/-- Without a tracker the delta format is the structured one. -/
def serializeBlocks (text : TextOps F) (format : OutputFormat)
    (blocks : List (ContextBlock F)) : String :=
  match format with
  | OutputFormat.compact => compactFormat text blocks
  | OutputFormat.structured => structuredFormat text blocks
  | OutputFormat.delta => structuredFormat text blocks

/-- The first eight hexadecimal digits of an identifier. -/
def shortId (id : MemoryId) : String := String.ofList ((uuidText id.uuid).toList.take 8)

def edgeLine (text : TextOps F) (edge : MemoryEdge F) : String :=
  "- " ++ shortId edge.source ++ " --[" ++ edgeTypeDebug edge.edgeType ++ " w="
    ++ text.fixed2 edge.weight ++ "]--> " ++ shortId edge.target

/-!
## Assembly
-/

structure AssemblyConfig where
  tokenBudget : Nat
  format : OutputFormat
  includeEdges : Bool
  includeMetadata : Bool

def AssemblyConfig.default : AssemblyConfig where
  tokenBudget := 4096
  format := OutputFormat.structured
  includeEdges := false
  includeMetadata := true

structure AssemblyMetadata where
  totalCandidates : Nat
  includedCount : Nat
  excludedCount : Nat
  edgesIncluded : Nat
  zonesUsed : Nat
deriving DecidableEq

structure ContextWindow (F : Type) where
  blocks : List (ContextBlock F)
  totalTokens : Nat
  format : String
  metadata : AssemblyMetadata
deriving DecidableEq

/-- The memories a window shows. -/
def ContextWindow.memories (window : ContextWindow F) : List (ScoredMemory F) :=
  window.blocks.flatMap ContextBlock.memories

def edgeSection (text : TextOps F) (config : AssemblyConfig) (edges : List (MemoryEdge F)) :
    String :=
  if config.includeEdges && !edges.isEmpty then
    "\n".intercalate ("\n## 🔗 Relationships" :: edges.map (edgeLine text))
  else ""

def assemble [Scalar F] (text : TextOps F) (memories : List (ScoredMemory F))
    (edges : List (MemoryEdge F)) (config : AssemblyConfig) : ContextWindow F :=
  let packed := pack text (TokenBudget.new config.tokenBudget) (rank memories)
  let blocks := arrange text ZoneThresholds.default packed.1
  let serialized := serializeBlocks text config.format blocks
  let relationships := edgeSection text config edges
  { blocks := blocks
    totalTokens := packed.2.usedTokens
    format := if relationships.isEmpty then serialized else serialized ++ "\n" ++ relationships
    metadata :=
      { totalCandidates := memories.length
        includedCount := packed.1.length
        excludedCount := memories.length - packed.1.length
        edgesIncluded := if config.includeEdges then edges.length else 0
        zonesUsed := (blocks.filter (fun b => !b.memories.isEmpty)).length } }

/-!
## Nothing is added
-/

theorem pack_sublist (text : TextOps F) (b : TokenBudget) (memories : List (ScoredMemory F)) :
    (pack text b memories).1.Sublist memories := by
  induction memories generalizing b with
  | nil => exact List.Sublist.refl []
  | cons sm rest ih =>
      unfold pack
      split
      · exact (ih _).cons_cons sm
      · exact (ih b).cons sm

theorem mem_arrange [Scalar F] {text : TextOps F} {thresholds : ZoneThresholds F}
    {memories : List (ScoredMemory F)} {block : ContextBlock F} {sm : ScoredMemory F}
    (hblock : block ∈ arrange text thresholds memories) (h : sm ∈ block.memories) :
    sm ∈ memories := by
  rcases List.mem_map.mp hblock with ⟨zone, _, heq⟩
  subst heq
  exact List.mem_of_mem_filter (mem_rank.mp h)

/-- A window shows only memories it was given. -/
theorem mem_of_mem_assemble [Scalar F] {text : TextOps F} {memories : List (ScoredMemory F)}
    {edges : List (MemoryEdge F)} {config : AssemblyConfig} {sm : ScoredMemory F}
    (h : sm ∈ (assemble text memories edges config).memories) : sm ∈ memories := by
  rcases List.mem_flatMap.mp h with ⟨block, hblock, hsm⟩
  have hpacked := mem_arrange hblock hsm
  exact mem_rank.mp ((pack_sublist text _ _).mem hpacked)

end Context
end MenteDb
