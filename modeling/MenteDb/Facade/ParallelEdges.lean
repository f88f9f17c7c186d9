import MenteDb.Facade.Consistency
import MenteDb.Facade.GraphProjection

/-!
# Parallel edges of a projection

The edges of a projection are sorted by their ends and their creation, and then an edge is
removed if it has the ends, the type and the label of the edge before it.  Edges of another kind
between the same memories that were created in between keep two such edges apart.  So nothing is
shown twice if and only if, between any two memories shown, edges of one kind follow each other.
-/

namespace MenteDb
namespace Facade

open Foundation
open Sqlite
open MenteDb.Graph
open Cognitive

variable {F : Type}

/-!
## The edges from one memory to another
-/

def edgeKind (e : StoredEdge F) : EdgeType × Option String := (e.edgeType, e.label)

/-- In order of creation, as the graph lists them where that is the same. -/
def parallelEdges (config : GraphProjectionConfig) (w : World F) (source target : MemoryId) :
    List (StoredEdge F) :=
  orderBy (fun a b => decide (a.createdAt <= b.createdAt))
    (((w.graph.outgoing source).filter (fun p =>
      decide (p.1 = target) && config.shows p.2.isInvalidated)).map Prod.snd)

/-- An edge of the graph as a projection has it. -/
def projectStored (source target : MemoryId) (e : StoredEdge F) : GraphProjectionEdge F :=
  projectionEdge (edgeOfStored source target e)

def edgeOrder (e : GraphProjectionEdge F) : Lex (Lex (Nat × Nat) × Nat) :=
  toLex (toLex (e.source.uuid.toNat, e.target.uuid.toNat), e.createdAt.toNat)

theorem ordersBy_edgeLe :
    OrdersBy edgeOrder (edgeLe : GraphProjectionEdge F -> GraphProjectionEdge F -> Bool) := by
  intro a b
  have hsource : a.source.uuid.toNat = b.source.uuid.toNat <-> a.source = b.source :=
    uuid_toNat_injective.eq_iff
  have htarget : a.target.uuid.toNat = b.target.uuid.toNat <-> a.target = b.target :=
    uuid_toNat_injective.eq_iff
  unfold edgeLe edgeOrder
  rw [Prod.Lex.toLex_le_toLex, Prod.Lex.toLex_lt_toLex, toLex_inj, Prod.mk.injEq]
  simp only [Bool.or_eq_true, Bool.and_eq_true, decide_eq_true_eq, hsource, htarget,
    UInt64.le_iff_toNat_le]
  tauto

/-!
## What is collected
-/

section Collected

variable (config : GraphProjectionConfig) (w : World F)

/-- The edges listed from some nodes. -/
def listedFrom (sources : List MemoryId) (keep : MemoryId -> MemoryId × StoredEdge F -> Bool) :
    List (GraphProjectionEdge F) :=
  sources.flatMap (fun source =>
    ((w.graph.outgoing source).filter (keep source)).map (fun p => projectStored source p.1 p.2))

/-- Where the ends are selected. -/
def keptEdge (selected : List MemoryId) (p : MemoryId × StoredEdge F) : Bool :=
  decide (p.1 ∈ selected) && config.shows p.2.isInvalidated

def collected (selected : List MemoryId) : List (GraphProjectionEdge F) :=
  collectProjectionEdges config w.graph (projectionCandidates config w).2 selected

variable {config w}

/-- Around a node and over all nodes the same edges of a selected node are kept. -/
theorem collected_eq_listedFrom {selected : List MemoryId} (hnodup : selected.Nodup)
    (hsub : forall id, id ∈ selected -> id ∈ (projectionCandidates config w).1) :
    exists sources keep, sources.Nodup ∧ (forall id, id ∈ selected -> id ∈ sources) ∧
      (forall id, id ∈ selected -> keep id = keptEdge config selected) ∧
      collected config w selected = listedFrom w sources keep := by
  unfold collected collectProjectionEdges projectionCandidates at *
  cases hcenter : config.center with
  | none =>
      refine ⟨orderBy idLe selected, fun _ => keptEdge config selected, ?_, ?_, fun _ _ => rfl, rfl⟩
      · exact (List.perm_insertionSort _ selected).nodup_iff.mpr hnodup
      · exact fun id hid => mem_orderBy.mpr hid
  | some center =>
      rw [hcenter] at hsub
      let nodes := (extractSubgraph w.graph center config.depth).1
      have hnodes : forall id, id ∈ selected -> id ∈ nodes := hsub
      refine ⟨nodes, fun source p => decide (p.1 ∈ nodes) && (decide (source ∈ selected) &&
        keptEdge config selected p), nodup_extractSubgraph w.graph center config.depth, hnodes,
        ?_, ?_⟩
      · intro id hid
        funext p
        show (decide (p.1 ∈ nodes) && (decide (id ∈ selected) && keptEdge config selected p)) = _
        by_cases htarget : p.1 ∈ selected
        · rw [decide_eq_true (hnodes p.1 htarget), decide_eq_true hid, Bool.true_and, Bool.true_and]
        · unfold keptEdge
          rw [decide_eq_false htarget, Bool.false_and, Bool.and_false, Bool.and_false]
      · show ((nodes.flatMap _).filter _).map _ = _
        unfold listedFrom
        rw [List.filter_flatMap, List.map_flatMap]
        refine congrArg (fun f => List.flatMap f nodes) (funext fun source => ?_)
        rw [List.filter_map, List.map_map, List.filter_filter]
        refine congrArg (List.map _) (List.filter_congr fun p _ => ?_)
        show (decide (source ∈ selected) && decide (p.1 ∈ selected) &&
          config.shows p.2.isInvalidated && decide (p.1 ∈ nodes)) = _
        rw [Bool.and_comm, Bool.and_assoc]
        rfl

/-- Both ends of a collected edge are selected. -/
theorem ends_of_mem_collected {selected : List MemoryId} {e : GraphProjectionEdge F}
    (h : e ∈ collected config w selected) : e.source ∈ selected ∧ e.target ∈ selected := by
  unfold collected collectProjectionEdges at h
  cases hcenter : config.center with
  | none =>
      rw [hcenter] at h
      rcases List.mem_flatMap.mp h with ⟨source, hsource, hlisted⟩
      rcases List.mem_map.mp hlisted with ⟨p, hp, heq⟩
      have hkept := List.of_mem_filter hp
      rw [Bool.and_eq_true, decide_eq_true_eq] at hkept
      rw [← heq]
      exact ⟨mem_orderBy.mp hsource, hkept.1⟩
  | some center =>
      rw [hcenter] at h
      rcases List.mem_map.mp h with ⟨edge, hedge, heq⟩
      have hkept := List.of_mem_filter hedge
      rw [Bool.and_eq_true, Bool.and_eq_true, decide_eq_true_eq, decide_eq_true_eq] at hkept
      rw [← heq]
      exact hkept.1

/-- What is collected from one selected memory to another. -/
theorem filter_collected {selected : List MemoryId} (hnodup : selected.Nodup)
    (hsub : forall id, id ∈ selected -> id ∈ (projectionCandidates config w).1)
    {source target : MemoryId} (hsource : source ∈ selected) (htarget : target ∈ selected) :
    (collected config w selected).filter
        (fun e => decide ((e.source, e.target) = (source, target))) =
      (((w.graph.outgoing source).filter (fun p =>
        decide (p.1 = target) && config.shows p.2.isInvalidated)).map Prod.snd).map
          (projectStored source target) := by
  rcases collected_eq_listedFrom hnodup hsub with ⟨sources, keep, hsources, hmem, hkeep, heq⟩
  have hends : forall e : GraphProjectionEdge F,
      decide ((e.source, e.target) = (source, target)) =
        (decide (e.target = target) && decide (e.source = source)) := by
    intro e
    rw [Bool.eq_iff_iff, Bool.and_eq_true, decide_eq_true_eq, decide_eq_true_eq,
      decide_eq_true_eq, Prod.mk.injEq, and_comm]
  have hlisted : forall i e, e ∈ ((w.graph.outgoing i).filter (keep i)).map
      (fun p => projectStored i p.1 p.2) -> e.source = i := by
    intro i e he
    rcases List.mem_map.mp he with ⟨p, _, heq⟩
    rw [← heq]
    rfl
  rw [heq, List.filter_congr (fun e _ => hends e), ← List.filter_filter]
  unfold listedFrom
  rw [filter_flatMap_source hlisted hsources (hmem source hsource), hkeep source hsource,
    List.filter_map, List.filter_filter, List.map_map]
  have hsame : forall p : MemoryId × StoredEdge F,
      (decide ((projectStored source p.1 p.2).target = target) && keptEdge config selected p) =
        (decide (p.1 = target) && config.shows p.2.isInvalidated) := by
    intro p
    show (decide (p.1 = target) && (decide (p.1 ∈ selected) && _)) = _
    by_cases hp : p.1 = target
    · rw [hp, decide_eq_true htarget, Bool.true_and]
    · rw [decide_eq_false hp, Bool.false_and, Bool.false_and]
  refine (congrArg (List.map _) (List.filter_congr (fun p _ => hsame p))).trans ?_
  apply List.map_congr_left
  intro p hp
  have hkept := List.of_mem_filter hp
  rw [Bool.and_eq_true, decide_eq_true_eq] at hkept
  show projectStored source p.1 p.2 = projectStored source target p.2
  rw [hkept.1]

/-- Sorted, the edges from one selected memory to another are in order of creation. -/
theorem filter_sorted {selected : List MemoryId} (hnodup : selected.Nodup)
    (hsub : forall id, id ∈ selected -> id ∈ (projectionCandidates config w).1)
    {source target : MemoryId} (hsource : source ∈ selected) (htarget : target ∈ selected) :
    (orderBy edgeLe (collected config w selected)).filter
        (fun e => decide ((e.source, e.target) = (source, target))) =
      (parallelEdges config w source target).map (projectStored source target) := by
  unfold orderBy parallelEdges
  rw [ordersBy_edgeLe.filter, filter_collected hnodup hsub hsource htarget]
  refine (List.map_insertionSort _ _ _ _ (fun a _ b _ => ?_)).symm
  show decide (a.createdAt <= b.createdAt) = true <->
    (decide (source.uuid.toNat < source.uuid.toNat) || (decide (source = source) &&
      (decide (target.uuid.toNat < target.uuid.toNat) || (decide (target = target) &&
        decide (a.createdAt <= b.createdAt))))) = true
  rw [decide_eq_true rfl, decide_eq_true rfl, decide_eq_false (Nat.lt_irrefl _),
    decide_eq_false (Nat.lt_irrefl _)]
  exact Iff.rfl

theorem filter_sorted_of_not_selected {selected : List MemoryId} {source target : MemoryId}
    (h : ¬ (source ∈ selected ∧ target ∈ selected)) :
    (orderBy edgeLe (collected config w selected)).filter
      (fun e => decide ((e.source, e.target) = (source, target))) = [] := by
  rw [List.filter_eq_nil_iff]
  intro e he htrue
  have hpair := of_decide_eq_true htrue
  rw [Prod.mk.injEq] at hpair
  apply h
  rw [← hpair.1, ← hpair.2]
  exact ends_of_mem_collected (mem_orderBy.mp he)

/-- Sorted, edges with the same ends are next to each other. -/
theorem contiguous_ends (edges : List (GraphProjectionEdge F)) :
    Contiguous (fun e : GraphProjectionEdge F => (e.source, e.target)) (orderBy edgeLe edges) := by
  have hnumbers : Contiguous (fun e : GraphProjectionEdge F => (ofLex (edgeOrder e)).1)
      (orderBy edgeLe edges) :=
    contiguous_of_pairwise
      ((ordersBy_edgeLe.pairwise edges).imp (fun hle => Prod.Lex.monotone_fst _ _ hle))
  refine (contiguous_congr (fun a b => ?_) _).mp hnumbers
  show toLex (a.source.uuid.toNat, a.target.uuid.toNat) =
    toLex (b.source.uuid.toNat, b.target.uuid.toNat) <-> _
  rw [toLex_inj, Prod.mk.injEq, Prod.mk.injEq]
  exact and_congr uuid_toNat_injective.eq_iff uuid_toNat_injective.eq_iff

/-- Between two memories, edges are the same for the client if they are of one kind. -/
theorem contiguous_projectStored (source target : MemoryId) (edges : List (StoredEdge F)) :
    Contiguous edgeIdentity (edges.map (projectStored source target)) <->
      Contiguous edgeKind edges := by
  rw [contiguous_map]
  refine contiguous_congr (fun a b => ?_) _
  show ((source, target), edgeKind a) = ((source, target), edgeKind b) <-> _
  rw [Prod.mk.injEq]
  exact and_iff_right rfl

/-- Equal edges are next to each other after the sort if they are between any two memories. -/
theorem contiguous_collected_iff {selected : List MemoryId} (hnodup : selected.Nodup)
    (hsub : forall id, id ∈ selected -> id ∈ (projectionCandidates config w).1) :
    Contiguous edgeIdentity (orderBy edgeLe (collected config w selected)) <->
      forall source target, source ∈ selected -> target ∈ selected ->
        Contiguous edgeKind (parallelEdges config w source target) := by
  have hidentity : forall a b : GraphProjectionEdge F, edgeIdentity a = edgeIdentity b ->
      (a.source, a.target) = (b.source, b.target) :=
    fun a b heq => congrArg Prod.fst heq
  -- edges with the same ends are next to each other, so each pair can be looked at alone
  rw [contiguous_iff_forall_filter hidentity (contiguous_ends _)]
  constructor
  · intro h source target hsource htarget
    rw [← contiguous_projectStored, ← filter_sorted hnodup hsub hsource htarget]
    exact h (source, target)
  · rintro h ⟨source, target⟩
    by_cases hselected : source ∈ selected ∧ target ∈ selected
    · rw [filter_sorted hnodup hsub hselected.1 hselected.2, contiguous_projectStored]
      exact h source target hselected.1 hselected.2
    · rw [filter_sorted_of_not_selected hselected]
      intro x y z hsub
      cases hsub

end Collected

/-!
## Well-formed projections
-/

section WellFormed

variable [Scalar F]

structure WellFormed (text : TextOps F) (config : GraphProjectionConfig) (w : World F)
    (p : GraphProjection F) : Prop where
  connected : forall e, e ∈ p.edges -> e.source ∈ p.nodes.map GraphProjectionNode.id ∧
    e.target ∈ p.nodes.map GraphProjectionNode.id
  limited : p.nodes.length <= config.limit
  ranked : p.nodes.Pairwise (fun a b => nodeOrder a < nodeOrder b)
  highest : forall n, n ∈ p.nodes <-> exists m, Shown config w m ∧ n = projectionNode text config m
  distinct : (p.edges.map edgeIdentity).Nodup

theorem mem_candidates_of_shown {config : GraphProjectionConfig} {w : World F} {m : MemoryNode F}
    (h : Shown config w m) : m.id ∈ (projectionCandidates config w).1 := by
  rcases List.mem_filterMap.mp (List.mem_of_mem_filter h.1) with ⟨id, hid, hget⟩
  rw [Tables.getMemory_id hget]
  exact List.mem_dedup.mp hid

/-- A projection is well formed if and only if the edges of one kind from a memory it shows to
another follow each other in the order of their creation. -/
theorem projection_wellFormed_iff (text : TextOps F) (config : GraphProjectionConfig)
    (w : World F) :
    exists p, graphProjection text config w = Except.ok p ∧
      (WellFormed text config w p <->
        (config.includeEdges = true -> forall a b, Shown config w a -> Shown config w b ->
          Contiguous edgeKind (parallelEdges config w a.id b.id))) := by
  have hnodup : (selectedIds text config w).Nodup := List.nodup_dedup _
  have hsub : forall id, id ∈ selectedIds text config w ->
      id ∈ (projectionCandidates config w).1 := by
    intro id hid
    rcases (mem_selectedIds text config w id).mp hid with ⟨m, hm, heq⟩
    rw [← heq]
    exact mem_candidates_of_shown hm
  have hranked : (selectedNodes text config w).Pairwise (fun a b => nodeOrder a < nodeOrder b) :=
    (pairwise_availableNodes text config w).sublist (List.take_sublist _ _)
  have hdistinct : ((loadProjectionEdges config w.graph (projectionCandidates config w).2
      (selectedIds text config w)).map edgeIdentity).Nodup <->
        forall a b, Shown config w a -> Shown config w b ->
          Contiguous edgeKind (parallelEdges config w a.id b.id) := by
    unfold loadProjectionEdges
    rw [nodup_dedupBy_iff]
    refine (contiguous_collected_iff hnodup hsub).trans ?_
    constructor
    · intro h a b ha hb
      exact h a.id b.id ((mem_selectedIds text config w _).mpr ⟨a, ha, rfl⟩)
        ((mem_selectedIds text config w _).mpr ⟨b, hb, rfl⟩)
    · intro h source target hsource htarget
      rcases (mem_selectedIds text config w source).mp hsource with ⟨a, ha, hsource⟩
      rcases (mem_selectedIds text config w target).mp htarget with ⟨b, hb, htarget⟩
      rw [← hsource, ← htarget]
      exact h a b ha hb
  refine ⟨_, rfl, ?_⟩
  constructor
  · intro h hinclude
    have hedges := h.distinct
    simp only [hinclude, if_true] at hedges
    exact hdistinct.mp hedges
  · intro h
    refine ⟨?_, List.length_take_le _ _, hranked, mem_selectedNodes text config w, ?_⟩
    · intro e he
      split at he
      · have hcollected : e ∈ collected config w (selectedIds text config w) :=
          mem_orderBy.mp ((List.destutter_sublist _ _).subset he)
        rcases ends_of_mem_collected hcollected with ⟨hsource, htarget⟩
        exact ⟨List.mem_dedup.mp hsource, List.mem_dedup.mp htarget⟩
      · cases he
    · split
      · rename_i hinclude
        exact hdistinct.mpr (h hinclude)
      · exact List.nodup_nil

end WellFormed

section Examples

/-- Two memories related twice, and once in between by an edge of another type. -/
def relatedTwice : World Rat :=
  worldAfter [Command.store firstMemory, Command.store secondMemory,
    Command.relate (inferredEdge 1000 ⟨1⟩ ⟨2⟩ EdgeType.related 1 none),
    Command.relate (inferredEdge 2000 ⟨1⟩ ⟨2⟩ EdgeType.supports 1 none),
    Command.relate (inferredEdge 3000 ⟨1⟩ ⟨2⟩ EdgeType.related 1 none)]

def calmText : TextOps Rat := (calmEnv CognitiveConfig.default).text

theorem related_shown_twice :
    exists p, graphProjection calmText GraphProjectionConfig.default relatedTwice =
        Except.ok p ∧
      p.edges.map edgeIdentity = [((⟨1⟩, ⟨2⟩), EdgeType.related, none),
        ((⟨1⟩, ⟨2⟩), EdgeType.supports, none), ((⟨1⟩, ⟨2⟩), EdgeType.related, none)] ∧
      ¬ WellFormed calmText GraphProjectionConfig.default relatedTwice p := by
  have hedges : (loadProjectionEdges GraphProjectionConfig.default relatedTwice.graph
      (projectionCandidates GraphProjectionConfig.default relatedTwice).2
      (selectedIds calmText GraphProjectionConfig.default relatedTwice)).map edgeIdentity =
      [((⟨1⟩, ⟨2⟩), EdgeType.related, none), ((⟨1⟩, ⟨2⟩), EdgeType.supports, none),
        ((⟨1⟩, ⟨2⟩), EdgeType.related, none)] := by
    decide +kernel
  refine ⟨_, rfl, hedges, ?_⟩
  intro h
  have htwice : ¬ ([((⟨1⟩, ⟨2⟩), EdgeType.related, none), ((⟨1⟩, ⟨2⟩), EdgeType.supports, none),
      ((⟨1⟩, ⟨2⟩), EdgeType.related, none)] :
        List ((MemoryId × MemoryId) × EdgeType × Option String)).Nodup := by
    decide
  apply htwice
  rw [← hedges]
  exact h.distinct

end Examples

end Facade
end MenteDb
