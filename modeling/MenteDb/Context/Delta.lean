import MenteDb.Context.Assembler
import Mathlib.Data.List.Dedup

/-!
# Delta serving

After the first turn only what changed is sent.  The tracker remembers the identifiers
that were served, not the contents.
-/

namespace MenteDb
namespace Context

open Foundation
open Cognitive

variable {F : Type}

/-!
## The tracker
-/

structure DeltaResult where
  added : List MemoryId
  removed : List MemoryId
  unchanged : List MemoryId

structure DeltaTracker where
  lastServed : List MemoryId
  lastTurnId : Nat

namespace DeltaTracker

def new : DeltaTracker where
  lastServed := []
  lastTurnId := 0

/-- The served identifiers are a hash set: what was removed comes in its order. -/
def computeDelta (hash : HashOrder) (current previous : List MemoryId) : DeltaResult where
  added := current.filter (fun id => !previous.contains id)
  removed := (hash.order previous).filter (fun id => !current.contains id)
  unchanged := current.filter (fun id => previous.contains id)

def update (tracker : DeltaTracker) (servedIds : List MemoryId) : DeltaTracker where
  lastServed := servedIds.dedup
  lastTurnId := tracker.lastTurnId + 1

def formatDeltaContext (added : List (MemoryNode F)) (removedSummaries : List String)
    (unchangedCount : Nat) : String :=
  "\n".intercalate (added.map (fun m => "[NEW] " ++ m.content) ++
    (match removedSummaries with
      | [] => []
      | [summary] => ["[REMOVED] " ++ summary]
      | _ => ["[REMOVED] " ++ toString removedSummaries.length ++ " memories no longer relevant"]) ++
    (if 0 < unchangedCount then
      ["[UNCHANGED] " ++ toString unchangedCount ++ " memories from previous turn"] else []))

end DeltaTracker

/-!
## Assembly
-/

def deltaLine (m : MemoryNode F) : String :=
  "- [NEW] " ++ memoryTypeDebug m.memoryType ++ " | " ++ m.content

def deltaFormat (deltaHeader : String) (blocks : List (ContextBlock F)) : String :=
  "\n".intercalate (deltaHeader :: "" ::
    (blocks.filter (fun b => !b.memories.isEmpty)).flatMap (fun b =>
      ("## " ++ zoneLabel b.zone) :: b.memories.map (fun sm => deltaLine sm.1)))

def idsOf (memories : List (ScoredMemory F)) : List MemoryId := memories.map (fun sm => sm.1.id)

/-- The memories that are new, with their contents. -/
def addedMemories (delta : DeltaResult) (current : List (ScoredMemory F)) :
    List (ScoredMemory F) :=
  current.filter (fun sm => delta.added.contains sm.1.id)

def removedSummary (id : MemoryId) : String := "memory " ++ shortId id

def deltaHeader (delta : DeltaResult) (current : List (ScoredMemory F)) : String :=
  DeltaTracker.formatDeltaContext ((addedMemories delta current).map Prod.fst)
    (delta.removed.map removedSummary) delta.unchanged.length

/-- The header is charged to the budget before the memories. -/
def assembleDelta [Scalar F] (hash : HashOrder) (text : TextOps F)
    (current : List (ScoredMemory F)) (edges : List (MemoryEdge F)) (tracker : DeltaTracker)
    (config : AssemblyConfig) : ContextWindow F × DeltaTracker :=
  let delta := DeltaTracker.computeDelta hash (idsOf current) tracker.lastServed
  let added := addedMemories delta current
  let header := deltaHeader delta current
  let totalCandidates := added.length + delta.unchanged.length
  let budget := (TokenBudget.new config.tokenBudget).consume text header
  let packed := pack text budget (rank added)
  let blocks := arrange text ZoneThresholds.default packed.1
  ({ blocks := blocks
     totalTokens := packed.2.usedTokens
     format := deltaFormat header blocks
     metadata :=
       { totalCandidates := totalCandidates
         includedCount := packed.1.length
         excludedCount := totalCandidates - packed.1.length
         edgesIncluded := if config.includeEdges then edges.length else 0
         zonesUsed := (blocks.filter (fun b => !b.memories.isEmpty)).length } },
    tracker.update (idsOf current))

/-!
### Notes
-/

/-- One memory with a content. -/
def note (content : String) : MemoryNode Rat :=
  MemoryNode.new ⟨1⟩ 0 ⟨0⟩ MemoryType.semantic content []

/-- Text operations on the texts of these notes. -/
def noteText : TextOps Rat where
  splitWhitespace := fun s => (Strings.words isWhitespace s.toList).map String.ofList
  toLowercase := String.toLower
  trim := fun s => String.ofList (Strings.trimMatches isWhitespace s.toList)
  fixed2 := fun _ => "1.00"
  fixed3 := fun _ => "1.000"

end Context
end MenteDb
