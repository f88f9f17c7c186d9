import Mathlib.Data.Prod.Lex
import MenteDb.Facade.EntityExtraction
import MenteDb.Facade.EntityLinks
import MenteDb.Facade.ForgetScope
import MenteDb.Foundation.Sorting
import MenteDb.Graph.Traversal

/-!
# Graph projections

A client is shown the memories around a node, or all of them, up to a limit: first those of
highest salience, among equals the latest, then by identifier.  With them come the edges between
them, sorted by their ends and their creation, each once where equal edges are neighbours.
-/

namespace MenteDb
namespace Facade

open Foundation
open Sqlite
open MenteDb.Graph
open Cognitive

structure GraphProjectionConfig where
  center : Option MemoryId
  depth : Nat
  limit : Nat
  labelChars : Nat
  previewChars : Nat
  includeInvalidated : Bool
  includeEdges : Bool

def GraphProjectionConfig.default : GraphProjectionConfig where
  center := none
  depth := 2
  limit := 500
  labelChars := 64
  previewChars := 240
  includeInvalidated := false
  includeEdges := true

structure GraphProjectionNode (F : Type) where
  id : MemoryId
  label : String
  preview : String
  memoryType : MemoryType
  salience : F
  confidence : F
  tags : List String
  createdAt : Timestamp
  accessedAt : Timestamp
  validUntil : Option Timestamp
  embeddingDim : Nat
deriving DecidableEq

structure GraphProjectionEdge (F : Type) where
  source : MemoryId
  target : MemoryId
  edgeType : EdgeType
  weight : F
  label : Option String
  createdAt : Timestamp
  validUntil : Option Timestamp
deriving DecidableEq

structure GraphProjection (F : Type) where
  nodes : List (GraphProjectionNode F)
  edges : List (GraphProjectionEdge F)
  /-- Number of nodes before the limit. -/
  availableNodes : Nat
  truncated : Bool

variable {F : Type}

/-!
## Nodes and edges
-/

def truncateChars (content : String) (maxChars : Nat) : String :=
  if maxChars = 0 then "" else String.ofList (content.toList.take maxChars)

def firstLineLabel (text : TextOps F) (content : String) (maxChars : Nat) : String :=
  let firstLine := ((lines content).find? (fun line => !(text.trim line).isEmpty)).getD content
  truncateChars (text.trim firstLine) maxChars

def projectionNode (text : TextOps F) (config : GraphProjectionConfig) (node : MemoryNode F) :
    GraphProjectionNode F where
  id := node.id
  label := firstLineLabel text node.content config.labelChars
  preview := truncateChars node.content config.previewChars
  memoryType := node.memoryType
  salience := node.salience
  confidence := node.confidence
  tags := node.tags
  createdAt := node.createdAt
  accessedAt := node.accessedAt
  validUntil := node.validUntil
  embeddingDim := node.embedding.length

def projectionEdge (edge : MemoryEdge F) : GraphProjectionEdge F where
  source := edge.source
  target := edge.target
  edgeType := edge.edgeType
  weight := edge.weight
  label := edge.label
  createdAt := edge.createdAt
  validUntil := edge.validUntil

/-- Whether a memory or an edge is shown that is invalidated or not. -/
def GraphProjectionConfig.shows (config : GraphProjectionConfig) (invalidated : Bool) : Bool :=
  config.includeInvalidated || !invalidated

def loadProjectionNodes (text : TextOps F) (config : GraphProjectionConfig) (t : Tables F)
    (candidateIds : List MemoryId) : List (GraphProjectionNode F) :=
  (((dedupAdjacent (orderBy idLe candidateIds)).filterMap t.getMemory).filter
    (fun node => config.shows node.isInvalidated)).map (projectionNode text config)

/-- By descending salience, then descending creation, then identifier. -/
def projectedLe [Scalar F] : GraphProjectionNode F -> GraphProjectionNode F -> Bool :=
  descThen GraphProjectionNode.salience (fun a b =>
    decide (b.createdAt < a.createdAt) ||
      (decide (a.createdAt = b.createdAt) && idLe a.id b.id))

/-- By source, then target, then creation. -/
def edgeLe (a b : GraphProjectionEdge F) : Bool :=
  decide (a.source.uuid.toNat < b.source.uuid.toNat) ||
    (decide (a.source = b.source) &&
      (decide (a.target.uuid.toNat < b.target.uuid.toNat) ||
        (decide (a.target = b.target) && decide (a.createdAt <= b.createdAt))))

/-- What the removal of neighbours compares. -/
def edgeIdentity (e : GraphProjectionEdge F) : (MemoryId × MemoryId) × EdgeType × Option String :=
  ((e.source, e.target), e.edgeType, e.label)

/-- The edges before they are sorted. -/
def collectProjectionEdges (config : GraphProjectionConfig) (g : CsrGraph F)
    (centeredEdges : List (MemoryEdge F)) (selectedIds : List MemoryId) :
    List (GraphProjectionEdge F) :=
  match config.center with
  | some _ =>
      (centeredEdges.filter (fun edge => decide (edge.source ∈ selectedIds) &&
        decide (edge.target ∈ selectedIds) && config.shows edge.isInvalidated)).map projectionEdge
  | none =>
      (orderBy idLe selectedIds).flatMap (fun source =>
        ((g.outgoing source).filter (fun p =>
          decide (p.1 ∈ selectedIds) && config.shows p.2.isInvalidated)).map (fun p =>
            projectionEdge (edgeOfStored source p.1 p.2)))

def loadProjectionEdges (config : GraphProjectionConfig) (g : CsrGraph F)
    (centeredEdges : List (MemoryEdge F)) (selectedIds : List MemoryId) :
    List (GraphProjectionEdge F) :=
  dedupBy edgeIdentity (orderBy edgeLe (collectProjectionEdges config g centeredEdges selectedIds))

def projectionCandidates (config : GraphProjectionConfig) (w : World F) :
    List MemoryId × List (MemoryEdge F) :=
  match config.center with
  | some center => extractSubgraph w.graph center config.depth
  | none => (w.tables.allMemoryIds, [])

section Projection

variable [Scalar F] (text : TextOps F) (config : GraphProjectionConfig) (w : World F)

def availableNodes : List (GraphProjectionNode F) :=
  orderBy projectedLe
    (loadProjectionNodes text config w.tables (projectionCandidates config w).1)

def selectedNodes : List (GraphProjectionNode F) :=
  (availableNodes text config w).take config.limit

/-- A set in the source. -/
def selectedIds : List MemoryId :=
  ((selectedNodes text config w).map GraphProjectionNode.id).dedup

def graphProjection : Except MenteError (GraphProjection F) :=
  Except.ok
    { nodes := selectedNodes text config w
      edges :=
        if config.includeEdges then
          loadProjectionEdges config w.graph (projectionCandidates config w).2
            (selectedIds text config w)
        else []
      availableNodes := (availableNodes text config w).length
      truncated := decide (config.limit < (availableNodes text config w).length) }

end Projection

/-!
## Which memories are shown
-/

section Shown

variable [Scalar F]

/-- The order of a projection: salience and creation downward, then the identifier. -/
abbrev ShownOrder (F : Type) := Lex (OrderDual F × Lex (OrderDual Nat × Nat))

def shownOrder (salience : F) (createdAt : Timestamp) (id : MemoryId) : ShownOrder F :=
  toLex (OrderDual.toDual salience, toLex (OrderDual.toDual createdAt.toNat, id.uuid.toNat))

def memoryOrder (m : MemoryNode F) : ShownOrder F := shownOrder m.salience m.createdAt m.id

def nodeOrder (n : GraphProjectionNode F) : ShownOrder F :=
  shownOrder n.salience n.createdAt n.id

/-- The memories a projection can show, each once. -/
def visibleMemories (config : GraphProjectionConfig) (w : World F) : List (MemoryNode F) :=
  ((projectionCandidates config w).1.dedup.filterMap w.tables.getMemory).filter
    (fun m => config.shows m.isInvalidated)

/-- A visible memory that few visible memories come before. -/
def Shown (config : GraphProjectionConfig) (w : World F) (m : MemoryNode F) : Prop :=
  m ∈ visibleMemories config w ∧
    (visibleMemories config w).countP (fun other => decide (memoryOrder other < memoryOrder m)) <
      config.limit

theorem ordersBy_projectedLe :
    OrdersBy nodeOrder (projectedLe : GraphProjectionNode F -> GraphProjectionNode F -> Bool) := by
  intro a b
  unfold projectedLe descThen nodeOrder shownOrder idLe
  rw [Prod.Lex.toLex_le_toLex, Prod.Lex.toLex_le_toLex]
  simp only [OrderDual.toDual_lt_toDual, OrderDual.toDual_inj, Bool.or_eq_true, Bool.and_eq_true,
    decide_eq_true_eq, UInt64.lt_iff_toNat_lt, UInt64.toNat_inj]

omit [Scalar F] in
theorem id_of_nodeOrder_eq {a b : GraphProjectionNode F} (h : nodeOrder a = nodeOrder b) :
    a.id = b.id :=
  uuid_toNat_injective (congrArg (fun o : ShownOrder F => (ofLex (ofLex o).2).2) h)

end Shown

theorem dedupAdjacent_eq_dedupBy {α κ : Type} [DecidableEq α] [DecidableEq κ] {key : α -> κ}
    (hkey : Function.Injective key) (xs : List α) : dedupAdjacent xs = dedupBy key xs := by
  fun_induction dedupAdjacent xs with
  | case1 => rfl
  | case2 x => rfl
  | case3 x rest ih =>
      rw [ih]
      exact (List.destutter'_cons_neg rest (not_not.mpr rfl)).symm
  | case4 x y rest hne ih =>
      rw [ih]
      exact (List.destutter'_cons_pos rest (fun heq => hne (hkey heq))).symm

/-- Sorted ids without repeats are the ids, each once. -/
theorem perm_dedupAdjacent_ids (ids : List MemoryId) :
    (dedupAdjacent (orderBy idLe ids)).Perm ids.dedup := by
  have hnodup : (dedupAdjacent (orderBy idLe ids)).Nodup := by
    rw [dedupAdjacent_eq_dedupBy uuid_toNat_injective]
    apply List.Nodup.of_map (fun id : MemoryId => id.uuid.toNat)
    rw [nodup_dedupBy_iff]
    exact contiguous_of_pairwise (ordersBy_idLe.pairwise ids)
  rw [List.perm_ext_iff_of_nodup hnodup (List.nodup_dedup ids)]
  intro id
  rw [mem_dedupAdjacent, mem_orderBy, List.mem_dedup]

section Nodes

variable (text : TextOps F) (config : GraphProjectionConfig) (w : World F)

theorem perm_loadProjectionNodes :
    (loadProjectionNodes text config w.tables (projectionCandidates config w).1).Perm
      ((visibleMemories config w).map (projectionNode text config)) :=
  (((perm_dedupAdjacent_ids _).filterMap w.tables.getMemory).filter _).map _

theorem nodup_id_visibleMemories :
    ((visibleMemories config w).map MemoryNode.id).Nodup := by
  have hsub : ((visibleMemories config w).map MemoryNode.id).Sublist
      ((projectionCandidates config w).1.dedup.filterMap
        (fun id => (w.tables.getMemory id).map MemoryNode.id)) := by
    rw [← List.map_filterMap]
    exact List.filter_sublist.map MemoryNode.id
  apply hsub.nodup
  apply (List.nodup_dedup _).filterMap
  intro a b id ha hb
  rcases Option.map_eq_some_iff.mp ha with ⟨m, hm, hid⟩
  rcases Option.map_eq_some_iff.mp hb with ⟨m', hm', hid'⟩
  rw [← Tables.getMemory_id hm, ← Tables.getMemory_id hm', hid, hid']

theorem pairwise_availableNodes [Scalar F] :
    (availableNodes text config w).Pairwise (fun a b => nodeOrder a < nodeOrder b) := by
  apply ordersBy_projectedLe.pairwise_lt
  have hids : (((visibleMemories config w).map (projectionNode text config)).map
      GraphProjectionNode.id).Nodup := by
    rw [List.map_map]
    exact nodup_id_visibleMemories config w
  have hloaded := (((perm_loadProjectionNodes text config w).map _).nodup_iff).mpr hids
  apply List.pairwise_map.mpr
  exact (List.pairwise_map.mp hloaded).imp (fun hne heq => hne (id_of_nodeOrder_eq heq))

/-- The nodes of a projection are the memories it shows. -/
theorem mem_selectedNodes [Scalar F] (n : GraphProjectionNode F) :
    n ∈ selectedNodes text config w <->
      exists m, Shown config w m ∧ n = projectionNode text config m := by
  have hperm : (availableNodes text config w).Perm
      ((visibleMemories config w).map (projectionNode text config)) :=
    (List.perm_insertionSort _ _).trans (perm_loadProjectionNodes text config w)
  have hasymm : forall a b : GraphProjectionNode F, decide (nodeOrder a < nodeOrder b) = true ->
      decide (nodeOrder b < nodeOrder a) = false :=
    fun a b hab => decide_eq_false (not_lt_of_gt (of_decide_eq_true hab))
  have hfirst := mem_take_iff_countP hasymm
    ((pairwise_availableNodes text config w).imp (fun hab => decide_eq_true hab)) config.limit n
  unfold selectedNodes
  rw [hfirst, hperm.mem_iff, hperm.countP_eq, List.countP_map, List.mem_map]
  constructor
  · rintro ⟨⟨m, hm, heq⟩, hcount⟩
    rw [← heq] at hcount
    exact ⟨m, ⟨hm, hcount⟩, heq.symm⟩
  · rintro ⟨m, ⟨hm, hcount⟩, heq⟩
    rw [heq]
    exact ⟨⟨m, hm, rfl⟩, hcount⟩

theorem mem_selectedIds [Scalar F] (id : MemoryId) :
    id ∈ selectedIds text config w <-> exists m, Shown config w m ∧ m.id = id := by
  unfold selectedIds
  rw [List.mem_dedup, List.mem_map]
  constructor
  · rintro ⟨n, hn, hid⟩
    rcases (mem_selectedNodes text config w n).mp hn with ⟨m, hm, heq⟩
    rw [heq] at hid
    exact ⟨m, hm, hid⟩
  · rintro ⟨m, hm, hid⟩
    exact ⟨projectionNode text config m, (mem_selectedNodes text config w _).mpr ⟨m, hm, rfl⟩, hid⟩

end Nodes

end Facade
end MenteDb
