import MenteDb.Cognitive.Text
import MenteDb.Sqlite.Memory

/-!
# Decay, archival and consolidation

The engines of the maintenance passes.  They compute on loaded memories and
write nothing themselves.
-/

namespace MenteDb
namespace Consolidation

open Cognitive
open Sqlite

variable {F : Type} [Scalar F]

/-- {lit}`saturating_sub` of two instants. -/
def saturatingSub (a b : Timestamp) : Nat := a.toNat - b.toNat

/-- {lit}`f32::clamp` for bounds {lit}`lo <= hi`; with others the original panics. -/
def clamp (lo hi x : F) : F := if x < lo then lo else if hi < x then hi else x

/-!
## Decay
-/

structure DecayConfig (F : Type) where
  halfLifeUs : UInt64
  minSalience : F
  accessBoost : F
  maxSalience : F

def DecayConfig.default : DecayConfig F where
  halfLifeUs := 7 * 24 * 3600 * 1000000
  minSalience := ratio 1 100
  accessBoost := ratio 1 10
  maxSalience := 1

/-- The configurations for which {lit}`computeDecay` is the decay of the code: the bounds do
not make {lit}`clamp` panic, and no time is divided by zero. -/
structure DecayConfig.WellFormed (config : DecayConfig F) : Prop where
  bounds : config.minSalience <= config.maxSalience
  halfLife : 0 < config.halfLifeUs

/-- Exponential decay since the last access plus a bonus for accesses. -/
def computeDecay (config : DecayConfig F) (originalSalience : F) (accessedAt : Timestamp)
    (accessCount : UInt32) (now : Timestamp) : F :=
  let timeSinceAccess : F := (saturatingSub now accessedAt : F)
  let halfLife : F := (config.halfLifeUs.toNat : F)
  let decayFactor := Scalar.exp2 (-timeSinceAccess / halfLife)
  let accessBonus := config.accessBoost * Scalar.ln (1 + (accessCount.toNat : F))
  clamp config.minSalience config.maxSalience (originalSalience * decayFactor + accessBonus)

/-- Memories whose salience moves by more than the threshold, with the new value. -/
def decayUpdates (config : DecayConfig F) (epsilon : F) (now : Timestamp)
    (nodes : List (MemoryNode F)) : List (MemoryNode F) :=
  nodes.filterMap (fun node =>
    let salience := computeDecay config node.salience node.accessedAt node.accessCount now
    if |salience - node.salience| <= epsilon then none
    else some { node with salience := salience })

/-!
## Archival
-/

inductive ArchivalDecision where
  | keep
  | archive
  | delete
  | consolidate (memories : List MemoryId)
deriving DecidableEq

def thirtyDaysUs : Nat := 30 * 24 * 3600 * 1000000

def sevenDaysUs : Nat := 7 * 24 * 3600 * 1000000

def evaluate (memory : MemoryNode F) (now : Timestamp) : ArchivalDecision :=
  let age := saturatingSub now memory.createdAt
  if memory.salience < ratio 5 100 ∧ thirtyDaysUs < age ∧ memory.accessCount < 2 then
    ArchivalDecision.delete
  else if memory.salience < ratio 1 10 ∧ sevenDaysUs < age then ArchivalDecision.archive
  else ArchivalDecision.keep

def memoryIsArchived (memory : MemoryNode F) : Bool := decide ("archived" ∈ memory.tags)

/-- Memories the archive pass marks; a decision to delete only archives. -/
def archiveUpdates (now : Timestamp) (nodes : List (MemoryNode F)) : List (MemoryNode F) :=
  nodes.filterMap (fun node =>
    if memoryIsArchived node then none
    else
      match evaluate node now with
      | ArchivalDecision.archive | ArchivalDecision.delete =>
          some { node with
            tags := node.tags ++ ["archived"]
            salience := min node.salience (ratio 2 100) }
      | ArchivalDecision.keep | ArchivalDecision.consolidate _ => none)

/-!
## Consolidation
-/

structure ConsolidatedMemory (F : Type) where
  summary : String
  sourceMemories : List MemoryId
  newType : MemoryType
  combinedConfidence : F
  combinedEmbedding : List F

/-- Distinct lower-case sentences in order of appearance. -/
def sentences (text : TextOps F) (cluster : List (MemoryNode F)) : List String :=
  cluster.foldl (fun seen m =>
    (m.content.splitOn ".").foldl (fun seen sentence =>
      let trimmed := text.toLowercase (text.trim sentence)
      if trimmed.isEmpty ∨ trimmed ∈ seen then seen else seen ++ [trimmed]) seen) []

/-- Normalized mean of the embeddings that have the dimension of the first; the
divisor counts all of them. -/
def meanEmbedding (dim : Nat) (cluster : List (MemoryNode F)) : List F :=
  let total := cluster.foldl (fun acc m =>
    if m.embedding.length = dim then List.zipWith (fun a b => a + b) acc m.embedding else acc)
    (List.replicate dim 0)
  normalize (total.map (fun v => v / (cluster.length : F)))

def consolidate (text : TextOps F) (cluster : List (MemoryNode F)) : ConsolidatedMemory F :=
  match cluster with
  | [] =>
      { summary := ""
        sourceMemories := []
        newType := MemoryType.semantic
        combinedConfidence := 0
        combinedEmbedding := [] }
  | first :: _ =>
      { summary := String.intercalate ". " (sentences text cluster)
        sourceMemories := cluster.map MemoryNode.id
        newType := MemoryType.semantic
        combinedConfidence := cluster.foldl (fun acc m => max acc m.confidence) 0
        combinedEmbedding := meanEmbedding first.embedding.length cluster }

/-!
## What the passes leave alone

Decay rewrites only the salience, archival only the tags and the salience.
-/

theorem mem_decayUpdates {config : DecayConfig F} {epsilon : F} {now : Timestamp}
    {nodes : List (MemoryNode F)} {u : MemoryNode F}
    (h : u ∈ decayUpdates config epsilon now nodes) :
    exists node, node ∈ nodes ∧ exists s, u = { node with salience := s } := by
  rcases List.mem_filterMap.mp h with ⟨node, hnode, hu⟩
  simp only at hu
  split at hu
  · cases hu
  · cases hu
    exact ⟨node, hnode, _, rfl⟩

theorem mem_archiveUpdates {now : Timestamp} {nodes : List (MemoryNode F)} {u : MemoryNode F}
    (h : u ∈ archiveUpdates now nodes) :
    exists node, node ∈ nodes ∧
      exists tags s, u = { node with tags := tags, salience := s } := by
  rcases List.mem_filterMap.mp h with ⟨node, hnode, hu⟩
  split at hu
  · cases hu
  · split at hu
    · cases hu
      exact ⟨node, hnode, _, _, rfl⟩
    · cases hu
      exact ⟨node, hnode, _, _, rfl⟩
    · cases hu
    · cases hu

end Consolidation
end MenteDb
