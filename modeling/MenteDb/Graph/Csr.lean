import MenteDb.Core.Types
import MenteDb.Foundation.Assoc
import MenteDb.Foundation.Bucket

/-!
# Compressed sparse graph

The in-memory graph keeps its edges in three places: compressed rows for
outgoing edges, compressed rows for incoming edges, and a log of recent edges.
A list of index pairs masks compressed edges that have been removed.  Node
indices are 32-bit and never reused.
-/

namespace MenteDb
namespace Graph

open Foundation

/-- Number of values of {lit}`u32`. -/
def u32Size : Nat := 2 ^ 32

structure StoredEdge (F : Type) where
  edgeType : EdgeType
  weight : F
  createdAt : Timestamp
  validFrom : Option Timestamp
  validUntil : Option Timestamp
  label : Option String
deriving DecidableEq, Repr

namespace StoredEdge

variable {F : Type}

def fromMemoryEdge (edge : MemoryEdge F) : StoredEdge F where
  edgeType := edge.edgeType
  weight := edge.weight
  createdAt := edge.createdAt
  validFrom := edge.validFrom
  validUntil := edge.validUntil
  label := edge.label

def isValidAt (e : StoredEdge F) (at_ : Timestamp) : Bool :=
  MenteDb.isValidAt e.validFrom e.validUntil at_

def isInvalidated (e : StoredEdge F) : Bool := e.validUntil.isSome

/-- The edge as it reads back once its end points are known. -/
def toMemoryEdge (e : StoredEdge F) (source target : MemoryId) : MemoryEdge F where
  source := source
  target := target
  edgeType := e.edgeType
  weight := e.weight
  createdAt := e.createdAt
  validFrom := e.validFrom
  validUntil := e.validUntil
  label := e.label

@[simp] theorem toMemoryEdge_fromMemoryEdge (edge : MemoryEdge F) :
    (fromMemoryEdge edge).toMemoryEdge edge.source edge.target = edge := rfl

end StoredEdge

structure DeltaEdge (F : Type) where
  sourceIdx : Nat
  targetIdx : Nat
  data : StoredEdge F

/-!
## Compressed storage
-/

structure CompressedStorage (F : Type) where
  rowOffsets : List Nat
  colIndices : List Nat
  edgeData : List (StoredEdge F)

namespace CompressedStorage

variable {F : Type}

def empty : CompressedStorage F where
  rowOffsets := []
  colIndices := []
  edgeData := []

/-- The slice of a parallel array that belongs to one row. -/
def slice {α : Type} (c : CompressedStorage F) (array : List α) (row : Nat) : List α :=
  if row + 1 >= c.rowOffsets.length then []
  else
    let start := c.rowOffsets.getD row 0
    let stop := c.rowOffsets.getD (row + 1) 0
    (array.drop start).take (stop - start)

def neighbors (c : CompressedStorage F) (row : Nat) : List Nat :=
  c.slice c.colIndices row

def edgeDataFor (c : CompressedStorage F) (row : Nat) : List (StoredEdge F) :=
  c.slice c.edgeData row

/-- Neighbours paired with their edge data, as the loops over a row see them. -/
def row (c : CompressedStorage F) (r : Nat) : List (Nat × StoredEdge F) :=
  (c.neighbors r).zip (c.edgeDataFor r)

end CompressedStorage

/-!
## The graph
-/

structure CsrGraph (F : Type) where
  idToIdx : Assoc MemoryId Nat
  idxToId : List MemoryId
  csr : CompressedStorage F
  csc : CompressedStorage F
  deltaEdges : List (DeltaEdge F)
  removedEdges : List (Nat × Nat)

namespace CsrGraph

variable {F : Type}

def new : CsrGraph F where
  idToIdx := Assoc.empty
  idxToId := []
  csr := CompressedStorage.empty
  csc := CompressedStorage.empty
  deltaEdges := []
  removedEdges := []

/-- Register a node; returns its index and the graph. -/
def addNode (g : CsrGraph F) (id : MemoryId) : Nat × CsrGraph F :=
  match g.idToIdx.find? id with
  | some idx => (idx, g)
  | none =>
      let idx := g.idxToId.length % u32Size
      (idx, { g with
        idToIdx := g.idToIdx.insert id idx
        idxToId := g.idxToId ++ [id] })

def removeNode (g : CsrGraph F) (id : MemoryId) : CsrGraph F :=
  match g.idToIdx.find? id with
  | none => g
  | some idx =>
      { g with
        removedEdges := g.removedEdges
          ++ (g.csr.neighbors idx).map (fun neighbor => (idx, neighbor))
          ++ (g.csc.neighbors idx).map (fun neighbor => (neighbor, idx))
        deltaEdges := g.deltaEdges.filter
          (fun e => decide (e.sourceIdx ≠ idx) && decide (e.targetIdx ≠ idx))
        idToIdx := g.idToIdx.erase id }

def addEdge (g : CsrGraph F) (edge : MemoryEdge F) : CsrGraph F :=
  let (sourceIdx, g) := g.addNode edge.source
  let (targetIdx, g) := g.addNode edge.target
  { g with
    deltaEdges := g.deltaEdges ++
      [{ sourceIdx := sourceIdx
         targetIdx := targetIdx
         data := StoredEdge.fromMemoryEdge edge }] }

def removeEdge (g : CsrGraph F) (source target : MemoryId) : CsrGraph F :=
  match g.idToIdx.find? source, g.idToIdx.find? target with
  | some srcIdx, some tgtIdx =>
      { g with
        removedEdges := g.removedEdges ++ [(srcIdx, tgtIdx)]
        deltaEdges := g.deltaEdges.filter
          (fun e => !(decide (e.sourceIdx = srcIdx) && decide (e.targetIdx = tgtIdx))) }
  | _, _ => g

def isRemoved (g : CsrGraph F) (source target : Nat) : Bool :=
  g.removedEdges.any (fun p => decide (p.1 = source) && decide (p.2 = target))

def outgoingByIdx (g : CsrGraph F) (idx : Nat) : List (MemoryId × StoredEdge F) :=
  (g.csr.row idx).filterMap (fun (neighbor, e) =>
      if g.isRemoved idx neighbor then none
      else g.idxToId[neighbor]?.map (fun id => (id, e)))
    ++ g.deltaEdges.filterMap (fun d =>
      if d.sourceIdx = idx then g.idxToId[d.targetIdx]?.map (fun id => (id, d.data))
      else none)

def incomingByIdx (g : CsrGraph F) (idx : Nat) : List (MemoryId × StoredEdge F) :=
  (g.csc.row idx).filterMap (fun (neighbor, e) =>
      if g.isRemoved neighbor idx then none
      else g.idxToId[neighbor]?.map (fun id => (id, e)))
    ++ g.deltaEdges.filterMap (fun d =>
      if d.targetIdx = idx then g.idxToId[d.sourceIdx]?.map (fun id => (id, d.data))
      else none)

def outgoing (g : CsrGraph F) (id : MemoryId) : List (MemoryId × StoredEdge F) :=
  match g.idToIdx.find? id with
  | none => []
  | some idx => g.outgoingByIdx idx

def incoming (g : CsrGraph F) (id : MemoryId) : List (MemoryId × StoredEdge F) :=
  match g.idToIdx.find? id with
  | none => []
  | some idx => g.incomingByIdx idx

def containsNode (g : CsrGraph F) (id : MemoryId) : Bool := g.idToIdx.contains id

def nodeCount (g : CsrGraph F) : Nat := g.idxToId.length

def nodeIds (g : CsrGraph F) : List MemoryId := g.idxToId

/-!
## Compaction

An index edge is a source index, a target index and the stored data.
-/

abbrev IdxEdge (F : Type) := Nat × Nat × StoredEdge F

def rowOf (transpose : Bool) (e : IdxEdge F) : Nat :=
  if transpose then e.2.1 else e.1

def colOf (transpose : Bool) (e : IdxEdge F) : Nat :=
  if transpose then e.1 else e.2.1

def blankEdge [Zero F] : StoredEdge F where
  edgeType := EdgeType.related
  weight := 0
  createdAt := 0
  validFrom := none
  validUntil := none
  label := none

def buildCompressed [Zero F] (edges : List (IdxEdge F)) (numNodes : Nat)
    (transpose : Bool) : CompressedStorage F :=
  let counts := Bucket.counts u32Size numNodes (edges.map (rowOf transpose))
  let rowOffsets := Bucket.offsets u32Size counts
  let total := rowOffsets.getD numNodes 0
  let cursors := rowOffsets.take numNodes
  -- both parallel arrays are written at the same cursor
  let filled :=
    (Bucket.fill u32Size numNodes (rowOf transpose)
      (fun e => (colOf transpose e, e.2.2)) edges
      (cursors, List.replicate total (0, blankEdge))).2
  { rowOffsets := rowOffsets
    colIndices := filled.map Prod.fst
    edgeData := filled.map Prod.snd }

/-- Existing compressed edges that are not masked, followed by the delta log. -/
def allEdges (g : CsrGraph F) : List (IdxEdge F) :=
  (List.range g.idxToId.length).flatMap (fun row =>
      (g.csr.row row).filterMap (fun (col, e) =>
        if g.isRemoved row col then none else some (row, col, e)))
    ++ g.deltaEdges.map (fun d => (d.sourceIdx, d.targetIdx, d.data))

def compact [Zero F] (g : CsrGraph F) : CsrGraph F :=
  { g with
    csr := buildCompressed g.allEdges g.idxToId.length false
    csc := buildCompressed g.allEdges g.idxToId.length true
    deltaEdges := []
    removedEdges := [] }

/-- Hebbian strengthening: appends a copy of the first edge with a larger weight. -/
def strengthenEdge [Scalar F] (g : CsrGraph F) (source target : MemoryId) (delta : F) :
    CsrGraph F :=
  match (g.outgoing source).find? (fun p => decide (p.1 = target)) with
  | none => g
  | some (_, stored) =>
      let newWeight := min (stored.weight + delta) 1
      let (sourceIdx, g) := g.addNode source
      let (targetIdx, g) := g.addNode target
      { g with
        deltaEdges := g.deltaEdges ++
          [{ sourceIdx := sourceIdx
             targetIdx := targetIdx
             data := { stored with weight := newWeight } }] }

end CsrGraph
end Graph
end MenteDb
