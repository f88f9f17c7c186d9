import MenteDb.Graph.Csr

/-!
# Belief propagation

A change of confidence travels breadth-first along causal, supporting,
contradicting and superseding edges, up to a fixed depth.
-/

namespace MenteDb
namespace Graph

open Foundation

variable {F : Type} [Scalar F]

structure PropagationConfig (F : Type) where
  maxDepth : Nat
  causedDampening : F
  supportsFactor : F
  contradictsFactor : F
  supersedesFloor : F

def PropagationConfig.default : PropagationConfig F where
  maxDepth := 5
  causedDampening := ratio 9 10
  supportsFactor := ratio 1 2
  contradictsFactor := ratio 7 10
  supersedesFloor := ratio 1 10

/-- {lit}`clamp(0.0, 1.0)`. -/
def clampUnit (x : F) : F := max 0 (min x 1)

/-- Confidence of a neighbour; other edge types do not propagate. -/
def neighborConfidence (config : PropagationConfig F) (current node weight : F) :
    EdgeType -> Option F
  | EdgeType.caused => some (node * weight * config.causedDampening)
  | EdgeType.supports =>
      some (clampUnit (current + (node - 1) * weight * config.supportsFactor))
  | EdgeType.contradicts =>
      some (clampUnit (current - node * weight * config.contradictsFactor))
  | EdgeType.supersedes => some (min current (node * config.supersedesFloor))
  | _ => none

structure PropagationState (F : Type) where
  confidences : Assoc MemoryId F
  queue : List (MemoryId × F × Nat)
  visited : List MemoryId

def visitNeighbor (config : PropagationConfig F) (node : F) (depth : Nat)
    (s : PropagationState F) (entry : MemoryId × StoredEdge F) : PropagationState F :=
  let current := (s.confidences.find? entry.1).getD 1
  match neighborConfidence config current node entry.2.weight entry.2.edgeType with
  | none => s
  | some confidence =>
      { confidences := s.confidences.insert entry.1 confidence
        queue :=
          if entry.1 ∈ s.visited then s.queue else s.queue ++ [(entry.1, confidence, depth + 1)]
        visited := if entry.1 ∈ s.visited then s.visited else s.visited ++ [entry.1] }

/-- The queue loop; every node enters the queue once, which bounds the fuel. -/
def propagateLoop (config : PropagationConfig F) (g : CsrGraph F) :
    Nat -> PropagationState F -> PropagationState F
  | 0, s => s
  | fuel + 1, s =>
      match s.queue with
      | [] => s
      | (id, confidence, depth) :: rest =>
          if config.maxDepth <= depth then propagateLoop config g fuel { s with queue := rest }
          else
            propagateLoop config g fuel
              ((g.outgoing id).foldl (visitNeighbor config confidence depth)
                { s with queue := rest })

def propagateUpdate (g : CsrGraph F) (changedId : MemoryId) (newConfidence : F) :
    List (MemoryId × F) :=
  if g.containsNode changedId then
    (propagateLoop PropagationConfig.default g (g.nodeCount + 1)
      { confidences := Assoc.empty.insert changedId newConfidence
        queue := [(changedId, newConfidence, 0)]
        visited := [changedId] }).confidences.entries
  else []

end Graph
end MenteDb
