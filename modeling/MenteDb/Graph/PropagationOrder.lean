import Mathlib.Algebra.Order.BigOperators.Group.List
import Mathlib.Tactic.Ring
import MenteDb.Graph.Propagation

/-!
# Propagation and the order of the edges

A propagation follows the edges of a node in the order in which they are listed, which is
the order in which they were added.  What it reaches does not depend on that order.  What
it computes does not either where the edges into a node from nodes of one distance are a
single edge or of types whose updates commute, and the nodes that pass a confidence on
have a single edge to take it from.
-/

namespace MenteDb
namespace Graph

open Foundation

variable {F : Type}

/-!
## Two graphs with the same edges
-/

theorem mem_outgoing_iff_liveEdges {g : CsrGraph F} {node : MemoryId}
    {n : MemoryId × StoredEdge F} :
    n ∈ g.outgoing node <-> (node, n.1, n.2) ∈ g.liveEdges := by
  unfold CsrGraph.liveEdges
  rw [Multiset.mem_coe, List.mem_flatMap]
  constructor
  · intro hn
    by_cases hnode : node ∈ g.idToIdx.keys
    · exact ⟨node, hnode, List.mem_map_of_mem hn⟩
    · rw [outgoing_of_not_mem_keys hnode] at hn
      cases hn
  · rintro ⟨s, _, hlisted⟩
    rcases List.mem_map.mp hlisted with ⟨n', hn', heq⟩
    rcases n' with ⟨id, e⟩
    cases heq
    exact hn'

theorem mem_successors_congr {g g' : CsrGraph F} (hedges : g.liveEdges = g'.liveEdges)
    (keep : EdgeType -> Bool) (node id : MemoryId) :
    id ∈ successors g keep node <-> id ∈ successors g' keep node := by
  simp only [mem_successors, mem_outgoing_iff_liveEdges, hedges]

theorem reachesOver_congr {g g' : CsrGraph F} (hedges : g.liveEdges = g'.liveEdges)
    (edgeTypes : List EdgeType) (start : MemoryId) :
    ReachesOver g edgeTypes start = ReachesOver g' edgeTypes start := by
  funext n id
  refine propext ⟨fun h => ?_, fun h => ?_⟩
  · exact Bfs.Reaches.mono (fun y z hz => (mem_successors_congr hedges _ y z).mp hz) h
  · exact Bfs.Reaches.mono (fun y z hz => (mem_successors_congr hedges _ y z).mpr hz) h

theorem containsNode_congr {g g' : CsrGraph F} (hnodes : g.liveNodes = g'.liveNodes)
    (id : MemoryId) : g.containsNode id = g'.containsNode id := by
  rw [Bool.eq_iff_iff]
  unfold CsrGraph.containsNode
  rw [Assoc.contains_iff_mem_keys, Assoc.contains_iff_mem_keys, ← List.mem_toFinset,
    ← List.mem_toFinset]
  change id ∈ g.liveNodes <-> id ∈ g'.liveNodes
  rw [hnodes]

/-!
## The edges into a node, by the distance they come from
-/

/-- The distance over the edges that carry belief. -/
def AtDistance (g : CsrGraph F) (changedId : MemoryId) : Nat -> MemoryId -> Prop :=
  Bfs.Shortest (ReachesOver g propagatingTypes changedId)

open Classical in
noncomputable def edgesInto (g : CsrGraph F) (changedId id : MemoryId) (depth : Nat) :
    Multiset (MemoryId × MemoryId × StoredEdge F) :=
  g.liveEdges.filter (fun e => AtDistance g changedId depth e.1 ∧
    (e.2.1 = id ∧ propagates e.2.2.edgeType = true))

theorem atDistance_congr {g g' : CsrGraph F} (hedges : g.liveEdges = g'.liveEdges)
    (changedId : MemoryId) : AtDistance g changedId = AtDistance g' changedId := by
  unfold AtDistance
  rw [reachesOver_congr hedges]

theorem edgesInto_congr {g g' : CsrGraph F} (hedges : g.liveEdges = g'.liveEdges)
    (changedId id : MemoryId) (depth : Nat) :
    edgesInto g changedId id depth = edgesInto g' changedId id depth := by
  unfold edgesInto
  rw [hedges, atDistance_congr hedges]

open Classical in
theorem mem_edgesInto {g : CsrGraph F} {changedId id : MemoryId} {depth : Nat}
    {e : MemoryId × MemoryId × StoredEdge F} :
    e ∈ edgesInto g changedId id depth <->
      e ∈ g.liveEdges ∧ AtDistance g changedId depth e.1 ∧ e.2.1 = id ∧
        propagates e.2.2.edgeType = true :=
  Multiset.mem_filter

theorem AtDistance.unique {g : CsrGraph F} {changedId id : MemoryId} {m n : Nat}
    (hm : AtDistance g changedId m id) (hn : AtDistance g changedId n id) : m = n :=
  Nat.le_antisymm (hm.2 n hn.1) (hn.2 m hm.1)

/-!
## Updates by distance
-/

section Layers

variable [Scalar F]

theorem mem_spots_iff {config : PropagationConfig F} {g : CsrGraph F} {changedId : MemoryId}
    {newConfidence : F} {id : MemoryId} {depth : Nat} :
    (id, depth) ∈ (popsFrom config g changedId newConfidence).map spot <->
      AtDistance g changedId depth id ∧ depth <= config.maxDepth :=
  (popsFrom_byDistance config g changedId newConfidence).mem_iff id depth

theorem atDistance_of_mem_popsFrom {config : PropagationConfig F} {g : CsrGraph F}
    {changedId : MemoryId} {newConfidence : F} {entry : MemoryId × F × Nat}
    (hentry : entry ∈ popsFrom config g changedId newConfidence) :
    AtDistance g changedId entry.2.2 entry.1 :=
  (mem_spots_iff.mp (List.mem_map_of_mem hentry)).1

theorem edgesInto_of_update {config : PropagationConfig F} {g : CsrGraph F}
    {changedId : MemoryId} {newConfidence : F} {source : MemoryId × F × Nat} {u : Update F}
    (hsource : source ∈ popsFrom config g changedId newConfidence)
    (hu : u ∈ updatesFrom g source) :
    (source.1, u.1, u.2.2) ∈ edgesInto g changedId u.1 source.2.2 := by
  have hfrom := mem_updatesFrom.mp hu
  exact mem_edgesInto.mpr ⟨mem_outgoing_iff_liveEdges.mp hfrom.1,
    atDistance_of_mem_popsFrom hsource, rfl, hfrom.2.1⟩

theorem mem_layer_iff {config : PropagationConfig F} {g : CsrGraph F} {changedId : MemoryId}
    {newConfidence : F} {id : MemoryId} {depth : Nat} (hdepth : depth <= config.maxDepth) :
    id ∈ ((popsFrom config g changedId newConfidence).filter
        (fun entry => decide (entry.2.2 = depth))).map Prod.fst <->
      AtDistance g changedId depth id := by
  constructor
  · intro hid
    rcases List.mem_map.mp hid with ⟨entry, hentry, heq⟩
    rcases List.mem_filter.mp hentry with ⟨hmem, hat⟩
    rw [← heq, ← decide_eq_true_iff.mp hat]
    exact atDistance_of_mem_popsFrom hmem
  · intro hid
    rcases List.mem_map.mp (mem_spots_iff.mpr ⟨hid, hdepth⟩) with ⟨entry, hentry, heq⟩
    cases heq
    exact List.mem_map_of_mem (List.mem_filter.mpr ⟨hentry, decide_eq_true rfl⟩)

/-- What every node passes on, where it passes anything on. -/
def Passes (config : PropagationConfig F) (g : CsrGraph F) (changedId : MemoryId)
    (newConfidence : F) (passed : MemoryId -> F) : Prop :=
  forall entry, entry ∈ popsFrom config g changedId newConfidence ->
    entry.2.2 < config.maxDepth -> successors g propagates entry.1 ≠ [] ->
      entry.2.1 = passed entry.1

/-- The updates of a node for the entries of one depth. -/
def layerUpdates (config : PropagationConfig F) (g : CsrGraph F) (changedId : MemoryId)
    (newConfidence : F) (id : MemoryId) (depth : Nat) : List (Update F) :=
  (((popsFrom config g changedId newConfidence).filter
    (fun entry => decide (entry.2.2 = depth))).flatMap (updatesFrom g)).filter
      (fun u => decide (u.1 = id))

omit [Scalar F] in
/-- The updates of a node, read off the edges listed from the entries. -/
theorem filter_flatMap_updatesFrom {g : CsrGraph F} {passed : MemoryId -> F}
    {entries : List (MemoryId × F × Nat)}
    (hpassed : forall entry, entry ∈ entries -> successors g propagates entry.1 ≠ [] ->
      entry.2.1 = passed entry.1) (id : MemoryId) :
    (entries.flatMap (updatesFrom g)).filter (fun u => decide (u.1 = id)) =
      (((entries.map Prod.fst).flatMap (fun s =>
        (g.outgoing s).map (fun n => (s, n.1, n.2)))).filter
          (fun e => decide (e.2.1 = id ∧ propagates e.2.2.edgeType = true))).map
            (fun e => (e.2.1, passed e.1, e.2.2)) := by
  induction entries with
  | nil => rfl
  | cons entry rest ih =>
      have hrest := ih (fun e he => hpassed e (List.mem_cons_of_mem entry he))
      rw [List.flatMap_cons, List.filter_append, hrest, List.map_cons, List.flatMap_cons,
        List.filter_append, List.map_append]
      congr 1
      unfold updatesFrom
      rw [List.filter_map, List.filter_filter, List.filter_map, List.map_map]
      have hfilter : forall n : MemoryId × StoredEdge F,
          (decide (n.1 = id) && propagates n.2.edgeType) =
            decide (n.1 = id ∧ propagates n.2.edgeType = true) := by
        intro n
        rw [Bool.decide_and, Bool.decide_eq_true]
      simp only [Function.comp_def, hfilter]
      refine List.map_congr_left ?_
      intro n hn
      rcases List.mem_filter.mp hn with ⟨hmem, hkept⟩
      have hpasses : successors g propagates entry.1 ≠ [] := by
        refine List.ne_nil_of_mem (mem_successors.mpr ⟨n.2, hmem, ?_⟩)
        exact (decide_eq_true_iff.mp hkept).2
      rw [hpassed entry List.mem_cons_self hpasses]

open Classical in
/-- As a multiset, the updates of a node for the entries of one depth depend on the edges
and on what is passed on. -/
theorem coe_layerUpdates {config : PropagationConfig F} {g : CsrGraph F}
    {changedId : MemoryId} {newConfidence : F} {passed : MemoryId -> F}
    (hpasses : Passes config g changedId newConfidence passed) (id : MemoryId) {depth : Nat}
    (hdepth : depth < config.maxDepth) :
    (layerUpdates config g changedId newConfidence id depth : Multiset (Update F)) =
      (edgesInto g changedId id depth).map (fun e => (e.2.1, passed e.1, e.2.2)) := by
  have hlayer : forall entry, entry ∈ (popsFrom config g changedId newConfidence).filter
      (fun entry => decide (entry.2.2 = depth)) -> successors g propagates entry.1 ≠ [] ->
        entry.2.1 = passed entry.1 := by
    intro entry hentry hsome
    rcases List.mem_filter.mp hentry with ⟨hmem, hat⟩
    exact hpasses entry hmem ((decide_eq_true_iff.mp hat).symm ▸ hdepth) hsome
  have hnodup : (((popsFrom config g changedId newConfidence).filter
      (fun entry => decide (entry.2.2 = depth))).map Prod.fst).Nodup := by
    have hall := (popsFrom_complete config g changedId newConfidence).nodup
    rw [map_fst_spot] at hall
    exact hall.sublist (List.filter_sublist.map Prod.fst)
  unfold layerUpdates edgesInto
  rw [filter_flatMap_updatesFrom hlayer, ← Multiset.map_coe, ← Multiset.filter_coe,
    listed_eq_filter_liveEdges hnodup, Multiset.filter_filter]
  refine congrArg (Multiset.map _) (Multiset.filter_congr (fun e _ => ?_))
  rw [and_comm]
  exact and_congr_left (fun _ => mem_layer_iff (Nat.le_of_lt hdepth))

/-- The updates of a node up to a depth come before those for the entries at it. -/
theorem filter_updatesBelow_succ (config : PropagationConfig F) (g : CsrGraph F)
    (changedId : MemoryId) (newConfidence : F) (id : MemoryId) (depth : Nat) :
    (((popsFrom config g changedId newConfidence).filter
      (fun entry => decide (entry.2.2 < depth + 1))).flatMap (updatesFrom g)).filter
        (fun u => decide (u.1 = id)) =
      (((popsFrom config g changedId newConfidence).filter
        (fun entry => decide (entry.2.2 < depth))).flatMap (updatesFrom g)).filter
          (fun u => decide (u.1 = id)) ++
        layerUpdates config g changedId newConfidence id depth := by
  have hspots := (popsFrom_byDistance config g changedId newConfidence).sorted
  rw [List.pairwise_map] at hspots
  have hsorted : (popsFrom config g changedId newConfidence).Pairwise
      (fun p q => p.2.2 <= q.2.2) := hspots
  rw [Bfs.filter_lt_succ hsorted, List.flatMap_append, List.filter_append]
  rfl

end Layers

/-!
## Updates that commute
-/

section Commuting

variable [Scalar F]

/-- What a supporting or a contradicting edge takes away. -/
def dampingOf (config : PropagationConfig F) (u : Update F) : F :=
  if u.2.2.edgeType = EdgeType.supports then
    (1 - u.2.1) * u.2.2.weight * config.supportsFactor
  else u.2.1 * u.2.2.weight * config.contradictsFactor

def Damps (u : Update F) : Prop :=
  u.2.2.edgeType = EdgeType.supports ∨ u.2.2.edgeType = EdgeType.contradicts

theorem updated_of_damps {config : PropagationConfig F} {u : Update F} (hdamps : Damps u)
    (hdamping : 0 <= dampingOf config u) {x : F} (hx : x <= 1) :
    updated config x u = max 0 (x - dampingOf config u) := by
  have hclamp : updated config x u = clampUnit (x - dampingOf config u) := by
    unfold updated dampingOf
    rcases hdamps with htype | htype
    · rw [htype, if_pos rfl]
      simp only [neighborConfidence, Option.getD_some]
      congr 1
      ring
    · rw [htype, if_neg (by decide)]
      rfl
  have hle : x - dampingOf config u <= 1 := (sub_le_self x hdamping).trans hx
  rw [hclamp, clampUnit, min_eq_left hle]

theorem max_sub_max {x a b : F} (hb : 0 <= b) :
    max 0 (max 0 (x - a) - b) = max 0 (x - (a + b)) := by
  rcases le_total 0 (x - a) with hpos | hneg
  · rw [max_eq_right hpos, sub_sub]
  · rw [max_eq_left hneg, max_eq_left (by linarith), max_eq_left (by linarith)]

/-- What is taken away adds up. -/
theorem foldl_updated_of_damps {config : PropagationConfig F} {updates : List (Update F)}
    (hdamps : forall u, u ∈ updates -> Damps u ∧ 0 <= dampingOf config u) {x : F}
    (hx : InUnit x) :
    updates.foldl (updated config) x = max 0 (x - (updates.map (dampingOf config)).sum) := by
  induction updates generalizing x with
  | nil =>
      rw [List.map_nil, List.sum_nil, sub_zero, max_eq_right hx.1]
      rfl
  | cons u rest ih =>
      have hu := hdamps u List.mem_cons_self
      have hrest := fun u' hu' => hdamps u' (List.mem_cons_of_mem u hu')
      have hsum : 0 <= (rest.map (dampingOf config)).sum := by
        refine List.sum_nonneg ?_
        intro y hy
        rcases List.mem_map.mp hy with ⟨u', hu', heq⟩
        rw [← heq]
        exact (hrest u' hu').2
      have hnext : InUnit (max 0 (x - dampingOf config u)) :=
        ⟨le_max_left _ _, max_le zero_le_one ((sub_le_self x hu.2).trans hx.2)⟩
      rw [List.foldl_cons, updated_of_damps hu.1 hu.2 hx.2, ih hrest hnext, max_sub_max hsum,
        List.map_cons, List.sum_cons]

theorem dampingOf_nonneg {config : PropagationConfig F} (hfactors : config.UnitFactors)
    {u : Update F} (hpassed : InUnit u.2.1) (hweight : InUnit u.2.2.weight) :
    0 <= dampingOf config u := by
  unfold dampingOf
  split
  · exact mul_nonneg (mul_nonneg (sub_nonneg.mpr hpassed.2) hweight.1) hfactors.supports.1
  · exact mul_nonneg (mul_nonneg hpassed.1 hweight.1) hfactors.contradicts.1

theorem foldl_updated_of_supersedes {config : PropagationConfig F}
    {updates updates' : List (Update F)} (hperm : updates.Perm updates')
    (htype : forall u, u ∈ updates -> u.2.2.edgeType = EdgeType.supersedes) (x : F) :
    updates.foldl (updated config) x = updates'.foldl (updated config) x := by
  refine hperm.foldl_eq' ?_ x
  intro u hu u' hu' z
  unfold updated
  rw [htype u hu, htype u' hu']
  simp only [neighborConfidence, Option.getD_some]
  rw [min_assoc, min_assoc, min_comm (u.2.1 * _)]

end Commuting

/-!
## When the order does not matter
-/

section Order

variable [Scalar F]

/-- Edges into a node from nodes of one distance are a single edge, or supersede the node,
or, between zero and one, support and contradict it; and a node that passes a confidence
on takes it from a single edge. -/
structure OrderFree (g : CsrGraph F) (changedId : MemoryId) (newConfidence : F)
    (maxDepth : Nat) : Prop where
  layers : forall id depth, depth < maxDepth ->
    Multiset.card (edgesInto g changedId id depth) <= 1 ∨
      (forall e, e ∈ edgesInto g changedId id depth ->
        e.2.2.edgeType = EdgeType.supersedes) ∨
      (InUnit newConfidence ∧ (forall id n, n ∈ g.outgoing id -> InUnit n.2.weight) ∧
        forall e, e ∈ edgesInto g changedId id depth ->
          e.2.2.edgeType = EdgeType.supports ∨ e.2.2.edgeType = EdgeType.contradicts)
  passes : forall id depth, depth + 1 < maxDepth -> AtDistance g changedId (depth + 1) id ->
    Multiset.card (edgesInto g changedId id depth) <= 1 ∨ successors g propagates id = []

variable {config : PropagationConfig F} {g g' : CsrGraph F} {changedId : MemoryId}
  {newConfidence : F}

theorem eq_of_card_le_one {α : Type} {s : Multiset α} (h : Multiset.card s <= 1) {x y : α}
    (hx : x ∈ s) (hy : y ∈ s) : x = y := by
  cases Nat.le_one_iff_eq_zero_or_eq_one.mp h with
  | inl hzero =>
      rw [Multiset.card_eq_zero.mp hzero] at hx
      cases Multiset.notMem_zero x hx
  | inr hone =>
      rcases Multiset.card_eq_one.mp hone with ⟨a, ha⟩
      rw [ha, Multiset.mem_singleton] at hx hy
      rw [hx, hy]

theorem eq_of_perm_of_length_le_one {α : Type} {xs ys : List α} (hperm : xs.Perm ys)
    (hlength : xs.length <= 1) : xs = ys := by
  cases xs with
  | nil => exact hperm.nil_eq
  | cons x rest =>
      have hrest : rest = [] := List.length_eq_zero_iff.mp (Nat.le_zero.mp
        (Nat.le_of_succ_le_succ hlength))
      subst hrest
      exact List.singleton_perm.mp hperm

/-- In two graphs with the same edges a node passes on the same confidence. -/
theorem passed_eq (hedges : g.liveEdges = g'.liveEdges)
    (hfree : OrderFree g changedId newConfidence config.maxDepth) {depth : Nat}
    (hdepth : depth < config.maxDepth) {id : MemoryId} {x x' : F}
    (hx : (id, x, depth) ∈ popsFrom config g changedId newConfidence)
    (hx' : (id, x', depth) ∈ popsFrom config g' changedId newConfidence)
    (hsome : successors g propagates id ≠ []) : x = x' := by
  induction depth generalizing id x x' with
  | zero =>
      rcases sourced_popsFrom config g changedId newConfidence hx with
        heq | ⟨_, _, _, _, _, heq⟩
      · rcases sourced_popsFrom config g' changedId newConfidence hx' with
          heq' | ⟨_, _, _, _, _, heq'⟩
        · cases heq
          cases heq'
          rfl
        · cases heq'
      · cases heq
  | succ depth ih =>
      rcases sourced_popsFrom config g changedId newConfidence hx with
        heq | ⟨source, hsource, _, u, hu, heq⟩
      · cases heq
      · rcases sourced_popsFrom config g' changedId newConfidence hx' with
          heq' | ⟨source', hsource', _, u', hu', heq'⟩
        · cases heq'
        · rcases source with ⟨w, y, d⟩
          rcases source' with ⟨w', y', d'⟩
          rcases u with ⟨target, passed, e⟩
          rcases u' with ⟨target', passed', e'⟩
          have hedge := edgesInto_of_update hsource hu
          have hedge' := edgesInto_of_update hsource' hu'
          have hpassed := (mem_updatesFrom.mp hu).2.2
          have hpassed' := (mem_updatesFrom.mp hu').2.2
          simp only [Prod.mk.injEq, Nat.add_right_cancel_iff] at heq heq'
          simp only at hedge hedge' hpassed hpassed'
          rcases heq with ⟨rfl, rfl, rfl⟩
          rcases heq' with ⟨rfl, rfl, rfl⟩
          rw [← edgesInto_congr hedges] at hedge'
          have hcard : Multiset.card (edgesInto g changedId id depth) <= 1 := by
            cases hfree.passes id depth hdepth (atDistance_of_mem_popsFrom hx) with
            | inl hle => exact hle
            | inr hnone => exact absurd hnone hsome
          have hsame := eq_of_card_le_one hcard hedge hedge'
          simp only [Prod.mk.injEq, true_and] at hsame
          rcases hsame with ⟨rfl, rfl⟩
          have hnext : successors g propagates w ≠ [] := by
            rw [← map_fst_updatesFrom g (w, y, depth)]
            exact List.ne_nil_of_mem (List.mem_map_of_mem hu)
          rw [hpassed, hpassed', ih (Nat.lt_of_succ_lt hdepth) hsource hsource' hnext]

theorem exists_passes (hfree : OrderFree g changedId newConfidence config.maxDepth) :
    exists passed : MemoryId -> F, forall g' : CsrGraph F, g.liveEdges = g'.liveEdges ->
      Passes config g' changedId newConfidence passed := by
  classical
  refine ⟨fun id => if h : exists x d, (id, x, d) ∈ popsFrom config g changedId newConfidence
    then h.choose else 0, ?_⟩
  intro g' hedges entry hentry hdepth hsome
  rcases entry with ⟨id, x', depth⟩
  have hat := atDistance_of_mem_popsFrom hentry
  rw [← atDistance_congr hedges] at hat
  have hlisted : (id, depth) ∈ (popsFrom config g changedId newConfidence).map spot :=
    mem_spots_iff.mpr ⟨hat, Nat.le_of_lt hdepth⟩
  rcases List.mem_map.mp hlisted with ⟨entry, hmem, heq⟩
  rcases entry with ⟨id', x, depth'⟩
  have hid : id = id' := congrArg Prod.fst heq.symm
  have hdepth' : depth = depth' := congrArg Prod.snd heq.symm
  subst hid
  subst hdepth'
  have hexists : exists x d, (id, x, d) ∈ popsFrom config g changedId newConfidence :=
    ⟨x, depth, hmem⟩
  simp only [dif_pos hexists]
  rcases hexists.choose_spec with ⟨d, hd⟩
  have hsame : d = depth := (atDistance_of_mem_popsFrom hd).unique hat
  subst hsame
  have hsome' : successors g propagates id ≠ [] := by
    rcases List.exists_mem_of_ne_nil _ hsome with ⟨next, hnext⟩
    exact List.ne_nil_of_mem ((mem_successors_congr hedges propagates id next).mpr hnext)
  exact (passed_eq hedges hfree hdepth hd hentry hsome').symm

theorem mem_updatesOf_of_layer {id : MemoryId} {depth : Nat} (hdepth : depth < config.maxDepth)
    {u : Update F} (hu : u ∈ layerUpdates config g changedId newConfidence id depth) :
    u ∈ updatesOf config g (popsFrom config g changedId newConfidence) := by
  rcases List.mem_flatMap.mp (List.mem_of_mem_filter hu) with ⟨entry, hentry, hfrom⟩
  rcases List.mem_filter.mp hentry with ⟨hmem, hat⟩
  rw [decide_eq_true_iff] at hat
  exact mem_updatesOf.mpr ⟨entry, hmem, hat.symm ▸ hdepth, hfrom⟩

/-- The updates for the entries of one depth have the same outcome in any order. -/
theorem foldl_layer_congr (hfactors : config.UnitFactors)
    (hfree : OrderFree g changedId newConfidence config.maxDepth)
    (hedges : g.liveEdges = g'.liveEdges) (id : MemoryId) {depth : Nat}
    (hdepth : depth < config.maxDepth) {x : F} (hx : InUnit newConfidence ->
      (forall id n, n ∈ g.outgoing id -> InUnit n.2.weight) -> InUnit x) :
    (layerUpdates config g changedId newConfidence id depth).foldl (updated config) x =
      (layerUpdates config g' changedId newConfidence id depth).foldl (updated config) x := by
  rcases exists_passes hfree with ⟨passed, hpasses⟩
  have hlayer := coe_layerUpdates (hpasses g rfl) id hdepth
  have hlayer' := coe_layerUpdates (hpasses g' hedges) id hdepth
  rw [← edgesInto_congr hedges, ← hlayer] at hlayer'
  have hperm : (layerUpdates config g changedId newConfidence id depth).Perm
      (layerUpdates config g' changedId newConfidence id depth) :=
    (Multiset.coe_eq_coe.mp hlayer').symm
  have hedge : forall u, u ∈ layerUpdates config g changedId newConfidence id depth ->
      exists e, e ∈ edgesInto g changedId id depth ∧ u.2.2 = e.2.2 := by
    intro u hu
    rw [← Multiset.mem_coe, hlayer] at hu
    rcases Multiset.mem_map.mp hu with ⟨e, he, heq⟩
    exact ⟨e, he, heq ▸ rfl⟩
  rcases hfree.layers id depth hdepth with hsingle | hsupersedes | ⟨hnew, hweights, hdamps⟩
  · have hlength : (layerUpdates config g changedId newConfidence id depth).length <= 1 := by
      rw [← Multiset.coe_card, hlayer, Multiset.card_map]
      exact hsingle
    rw [eq_of_perm_of_length_le_one hperm hlength]
  · refine foldl_updated_of_supersedes hperm ?_ x
    intro u hu
    rcases hedge u hu with ⟨e, he, heq⟩
    rw [heq]
    exact hsupersedes e he
  · have hdamping : forall u, u ∈ layerUpdates config g changedId newConfidence id depth ->
        Damps u ∧ 0 <= dampingOf config u := by
      intro u hu
      have hunit := inUnit_passed hweights hfactors hnew (mem_updatesOf_of_layer hdepth hu)
      rcases hedge u hu with ⟨e, he, heq⟩
      refine ⟨?_, dampingOf_nonneg hfactors hunit.1 hunit.2⟩
      unfold Damps
      rw [heq]
      exact hdamps e he
    have hrange := hx hnew hweights
    rw [foldl_updated_of_damps hdamping hrange,
      foldl_updated_of_damps (fun u hu => hdamping u (hperm.mem_iff.mpr hu)) hrange,
      (hperm.map (dampingOf config)).sum_eq]

/-- The confidence of a node after the updates for the entries below a depth. -/
theorem foldl_below_congr (hfactors : config.UnitFactors)
    (hfree : OrderFree g changedId newConfidence config.maxDepth)
    (hedges : g.liveEdges = g'.liveEdges) (id : MemoryId) {depth : Nat}
    (hdepth : depth <= config.maxDepth) {x : F} (hx : InUnit newConfidence -> InUnit x) :
    ((((popsFrom config g changedId newConfidence).filter
      (fun entry => decide (entry.2.2 < depth))).flatMap (updatesFrom g)).filter
        (fun u => decide (u.1 = id))).foldl (updated config) x =
      ((((popsFrom config g' changedId newConfidence).filter
        (fun entry => decide (entry.2.2 < depth))).flatMap (updatesFrom g')).filter
          (fun u => decide (u.1 = id))).foldl (updated config) x := by
  induction depth with
  | zero => simp
  | succ depth ih =>
      rw [filter_updatesBelow_succ, filter_updatesBelow_succ, List.foldl_append,
        List.foldl_append, ← ih (Nat.le_of_succ_le hdepth)]
      refine foldl_layer_congr hfactors hfree hedges id hdepth ?_
      intro hnew hweights
      have hupdates : forall u, u ∈ (((popsFrom config g changedId newConfidence).filter
          (fun entry => decide (entry.2.2 < depth))).flatMap (updatesFrom g)).filter
            (fun u => decide (u.1 = id)) ->
          u ∈ updatesOf config g (popsFrom config g changedId newConfidence) := by
        intro u hu
        rcases List.mem_flatMap.mp (List.mem_of_mem_filter hu) with ⟨entry, hentry, hfrom⟩
        rcases List.mem_filter.mp hentry with ⟨hmem, hbelow⟩
        rw [decide_eq_true_iff] at hbelow
        exact mem_updatesOf.mpr
          ⟨entry, hmem, Nat.lt_of_lt_of_le hbelow (Nat.le_of_succ_le hdepth), hfrom⟩
      exact inUnit_foldl_updated hweights hfactors hnew (hx hnew) hupdates

/-- Two graphs with the same nodes and the same edges, whatever the order in which the
edges were added and whether or not they were compacted, give a confidence to the same
nodes; and where the order does not matter, the same one. -/
theorem propagateUpdate_orderFree (hnodes : g.liveNodes = g'.liveNodes)
    (hedges : g.liveEdges = g'.liveEdges) :
    ((propagateUpdate g changedId newConfidence).map Prod.fst).Perm
        ((propagateUpdate g' changedId newConfidence).map Prod.fst) ∧
      (OrderFree g changedId newConfidence 5 ->
        (propagateUpdate g changedId newConfidence).Perm
          (propagateUpdate g' changedId newConfidence)) := by
  rw [propagateUpdate_eq, propagateUpdate_eq]
  by_cases hstart : g.containsNode changedId = true
  · have hstart' : g'.containsNode changedId = true := by
      rw [← containsNode_congr hnodes]
      exact hstart
    rw [propagateUpdateWithConfig_eq _ _ _ _ hstart, propagateUpdateWithConfig_eq _ _ _ _ hstart']
    have hkeys : forall id,
        (propagateLoop PropagationConfig.default g (g.nodeCount + 1)
          (propagateStart changedId newConfidence)).confidences.contains id = true <->
        (propagateLoop PropagationConfig.default g' (g'.nodeCount + 1)
          (propagateStart changedId newConfidence)).confidences.contains id = true := by
      intro id
      rw [contains_final_iff, contains_final_iff, reachesOver_congr hedges]
    constructor
    · rw [List.perm_ext_iff_of_nodup (Assoc.nodup _) (Assoc.nodup _)]
      intro id
      have hid := hkeys id
      rw [Assoc.contains_iff_mem_keys, Assoc.contains_iff_mem_keys] at hid
      exact hid
    · intro hfree
      refine Assoc.entries_perm (fun id => ?_)
      have hvalue := getD_final PropagationConfig.default g changedId newConfidence id
      have hvalue' := getD_final PropagationConfig.default g' changedId newConfidence id
      have hsame := foldl_below_congr unitFactors_default hfree hedges id (Nat.le_refl _)
        (inUnit_first changedId id)
      exact Assoc.find?_congr_of_getD (hvalue.trans (hsame.trans hvalue'.symm)) (hkeys id)
  · have hstart' : ¬ g'.containsNode changedId = true := by
      rw [← containsNode_congr hnodes]
      exact hstart
    unfold propagateUpdateWithConfig
    rw [if_neg hstart, if_neg hstart']
    exact ⟨List.Perm.refl _, fun _ => List.Perm.refl _⟩

end Order

section Examples

/-- One node is both supported and contradicted by another. -/
def disputed : CsrGraph Rat :=
  GraphOp.run CsrGraph.new
    [linkOf 1 2 EdgeType.caused, linkOf 2 3 EdgeType.supports, linkOf 2 3 EdgeType.contradicts]

def disputedReversed : CsrGraph Rat :=
  GraphOp.run CsrGraph.new
    [linkOf 2 3 EdgeType.contradicts, linkOf 2 3 EdgeType.supports, GraphOp.compact,
      linkOf 1 2 EdgeType.caused]

theorem weight_disputed (id : MemoryId) (n : MemoryId × StoredEdge Rat)
    (hn : n ∈ disputed.outgoing id) : n.2.weight = 1 :=
  forall_outgoing (P := fun _ n => n.2.weight = 1) (by decide) id n hn

theorem card_edgesInto_disputed {id : MemoryId} (hid : id ≠ ⟨3⟩) (depth : Nat) :
    Multiset.card (edgesInto disputed ⟨1⟩ id depth) <= 1 := by
  classical
  have hle : Multiset.card (edgesInto disputed ⟨1⟩ id depth) <=
      Multiset.card (disputed.liveEdges.filter (fun e => e.2.1 = id)) := by
    refine Multiset.card_le_card (Multiset.monotone_filter_right _ ?_)
    intro e he
    exact he.2.1
  refine hle.trans ?_
  by_cases hsecond : id = ⟨2⟩
  · subst hsecond
    decide
  · have htargets : forall e, e ∈ disputed.liveEdges -> e.2.1 = ⟨2⟩ ∨ e.2.1 = ⟨3⟩ := by decide
    have hnone : disputed.liveEdges.filter (fun e => e.2.1 = id) = 0 := by
      rw [Multiset.filter_eq_nil]
      intro e he heq
      cases htargets e he with
      | inl htwo => exact hsecond (heq.symm.trans htwo)
      | inr hthree => exact hid (heq.symm.trans hthree)
    rw [hnone]
    decide

theorem orderFree_disputed : OrderFree disputed ⟨1⟩ (1 / 2) 5 := by
  constructor
  · intro id depth _
    by_cases hid : id = ⟨3⟩
    · subst hid
      refine Or.inr (Or.inr ⟨?_, ?_, ?_⟩)
      · unfold InUnit
        decide +kernel
      · intro id n hn
        rw [weight_disputed id n hn]
        exact InUnit.one
      · intro e he
        have hinto : forall e, e ∈ disputed.liveEdges -> e.2.1 = ⟨3⟩ ->
            e.2.2.edgeType = EdgeType.supports ∨ e.2.2.edgeType = EdgeType.contradicts := by
          decide
        rcases mem_edgesInto.mp he with ⟨hmem, _, htarget, _⟩
        exact hinto e hmem htarget
    · exact Or.inl (card_edgesInto_disputed hid depth)
  · intro id depth _ _
    by_cases hid : id = ⟨3⟩
    · subst hid
      exact Or.inr (by decide)
    · exact Or.inl (card_edgesInto_disputed hid depth)

/-- Two edges between the same nodes, added in two orders. -/
def causedFirst : CsrGraph Rat :=
  GraphOp.run CsrGraph.new [linkOf 1 2 EdgeType.caused, linkOf 1 2 EdgeType.contradicts]

def contradictsFirst : CsrGraph Rat :=
  GraphOp.run CsrGraph.new [linkOf 1 2 EdgeType.contradicts, linkOf 1 2 EdgeType.caused]

end Examples

theorem propagateUpdate_orderFree_disputed :
    disputed.liveNodes = disputedReversed.liveNodes ∧
      disputed.liveEdges = disputedReversed.liveEdges ∧
      OrderFree disputed ⟨1⟩ (1 / 2) 5 ∧
      (propagateUpdate disputed ⟨1⟩ (1 / 2)).Perm
        (propagateUpdate disputedReversed ⟨1⟩ (1 / 2)) := by
  have hnodes : disputed.liveNodes = disputedReversed.liveNodes := by decide
  have hedges : disputed.liveEdges = disputedReversed.liveEdges := by decide
  exact ⟨hnodes, hedges, orderFree_disputed,
    (propagateUpdate_orderFree hnodes hedges).2 orderFree_disputed⟩

theorem propagateUpdate_order_matters :
    causedFirst.liveNodes = contradictsFirst.liveNodes ∧
      causedFirst.liveEdges = contradictsFirst.liveEdges ∧
      propagateUpdate causedFirst ⟨1⟩ (1 / 2) = [(⟨1⟩, 1 / 2), (⟨2⟩, 1 / 10)] ∧
      propagateUpdate contradictsFirst ⟨1⟩ (1 / 2) = [(⟨1⟩, 1 / 2), (⟨2⟩, 9 / 20)] ∧
      ¬ (propagateUpdate causedFirst ⟨1⟩ (1 / 2)).Perm
        (propagateUpdate contradictsFirst ⟨1⟩ (1 / 2)) := by
  exact ⟨by decide, by decide, by decide +kernel, by decide +kernel, by decide +kernel⟩

end Graph
end MenteDb
