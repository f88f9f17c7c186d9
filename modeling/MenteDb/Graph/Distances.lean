import MenteDb.Graph.Refinement
import MenteDb.Graph.Traversal

/-!
# Distances

What the traversals find, in terms of distances.  Breadth-first search lists nodes
with their distances, a path that is found is a shortest one, and depth-first search
finds what is within its depth unless it takes a detour.  In a graph that represents
a multigraph, walks over the lists of a node are walks over the edges of the
multigraph.
-/

namespace MenteDb
namespace Graph

open Foundation

variable {F : Type}

/-!
## Walks over the edges of the multigraph
-/

/-- A walk over edges with a label that is kept, with its number of steps. -/
inductive LabelledWalk {V L : Type} (G : Multigraph V L) (keep : L -> Prop) (s : V) :
    Nat -> V -> Prop where
  | nil : LabelledWalk G keep s 0 s
  | snoc {n : Nat} {v t : V} {l : L} : LabelledWalk G keep s n v -> (v, t, l) ∈ G.edges ->
      keep l -> LabelledWalk G keep s (n + 1) t

theorem mem_outgoing_iff {g : CsrGraph F} {G : Multigraph MemoryId (StoredEdge F)}
    (h : g.Represents G) {node : MemoryId} {n : MemoryId × StoredEdge F} :
    n ∈ g.outgoing node <-> (node, n.1, n.2) ∈ G.edges := by
  rcases h with ⟨base, hpictures⟩
  rw [← Multiset.mem_coe, hpictures.outgoing_eq node]
  unfold Multigraph.outEdges
  simp only [Multiset.mem_map, Multiset.mem_filter, Prod.exists]
  constructor
  · rintro ⟨s, t, e, ⟨hmem, hs⟩, heq⟩
    cases heq
    rw [← hs]
    exact hmem
  · intro hmem
    exact ⟨node, n.1, n.2, ⟨hmem, rfl⟩, rfl⟩

theorem mem_incoming_iff {g : CsrGraph F} {G : Multigraph MemoryId (StoredEdge F)}
    (h : g.Represents G) {node : MemoryId} {n : MemoryId × StoredEdge F} :
    n ∈ g.incoming node <-> (n.1, node, n.2) ∈ G.edges := by
  rcases h with ⟨base, hpictures⟩
  rw [← Multiset.mem_coe, hpictures.incoming_eq node]
  unfold Multigraph.inEdges
  simp only [Multiset.mem_map, Multiset.mem_filter, Prod.exists]
  constructor
  · rintro ⟨s, t, e, ⟨hmem, ht⟩, heq⟩
    cases heq
    rw [← ht]
    exact hmem
  · intro hmem
    exact ⟨n.1, node, n.2, ⟨hmem, rfl⟩, rfl⟩

theorem mem_successors_iff {g : CsrGraph F} {G : Multigraph MemoryId (StoredEdge F)}
    (h : g.Represents G) {keep : EdgeType -> Bool} {node next : MemoryId} :
    next ∈ successors g keep node <->
      exists e, (node, next, e) ∈ G.edges ∧ keep e.edgeType = true := by
  rw [mem_successors]
  simp only [mem_outgoing_iff h]

theorem reaches_iff_labelledWalk {g : CsrGraph F} {G : Multigraph MemoryId (StoredEdge F)}
    (h : g.Represents G) {keep : EdgeType -> Bool} {kept : StoredEdge F -> Prop}
    (hkept : forall e, kept e <-> keep e.edgeType = true) {start node : MemoryId} {n : Nat} :
    Bfs.Reaches (successors g keep) start n node <-> LabelledWalk G kept start n node := by
  constructor
  · intro hreach
    induction hreach with
    | refl => exact LabelledWalk.nil
    | step _ hnext ih =>
        rcases (mem_successors_iff h).mp hnext with ⟨e, hmem, hkeep⟩
        exact LabelledWalk.snoc ih hmem ((hkept e).mpr hkeep)
  · intro hwalk
    induction hwalk with
    | nil => exact Bfs.Reaches.refl
    | @snoc n v t e _ hmem hkeep ih =>
        exact Bfs.Reaches.step ih ((mem_successors_iff h).mpr ⟨e, hmem, (hkept e).mp hkeep⟩)

/-!
## Breadth-first search
-/

/-- Both searches list every node up to the depth once, with its distance over the edges
they follow, nearest first; in a graph that represents a multigraph these are the
distances over its edges. -/
theorem searches_exact {g : CsrGraph F} {start : MemoryId}
    (hstart : g.containsNode start = true) (maxDepth : Nat) (edgeFilter : List EdgeType) :
    Bfs.ByDistance (Walk g start) maxDepth (bfs g start maxDepth) ∧
      Bfs.ByDistance (ReachesOver g edgeFilter start) maxDepth
        (bfsFiltered g start maxDepth edgeFilter) ∧
      forall G, g.Represents G -> forall n node,
        (Walk g start n node <-> LabelledWalk G (fun _ => True) start n node) ∧
          (ReachesOver g edgeFilter start n node <->
            LabelledWalk G (fun e => e.edgeType ∈ edgeFilter) start n node) := by
  have hsearches := searches_byDistance hstart maxDepth edgeFilter
  refine ⟨hsearches.1, hsearches.2, ?_⟩
  intro G hG n node
  constructor
  · rw [walk_iff_reaches]
    exact reaches_iff_labelledWalk hG (fun _ => by simp)
  · exact reaches_iff_labelledWalk hG (fun _ => by simp)

section Examples

def linkOf (source target : Nat) (edgeType : EdgeType) : GraphOp Rat :=
  GraphOp.addEdge
    { source := ⟨source⟩, target := ⟨target⟩, edgeType := edgeType, weight := 1,
      createdAt := 1000, validFrom := none, validUntil := none, label := none }

/-- Two ways from the first node to the third, and one from there to the fourth. -/
def detourGraph : CsrGraph Rat :=
  GraphOp.run CsrGraph.new
    [linkOf 1 3 EdgeType.related, linkOf 1 2 EdgeType.caused, linkOf 2 3 EdgeType.caused,
      linkOf 3 4 EdgeType.caused]

end Examples

theorem searches_exact_detourGraph :
    detourGraph.containsNode ⟨1⟩ = true ∧
      Bfs.ByDistance (Walk detourGraph ⟨1⟩) 2 (bfs detourGraph ⟨1⟩ 2) ∧
      Bfs.ByDistance (ReachesOver detourGraph [EdgeType.caused] ⟨1⟩) 2
        (bfsFiltered detourGraph ⟨1⟩ 2 [EdgeType.caused]) := by
  have hstart : detourGraph.containsNode ⟨1⟩ = true := by decide
  have hexact := searches_exact hstart 2 [EdgeType.caused]
  exact ⟨hstart, hexact.1, hexact.2.1⟩

/-!
## Shortest paths
-/

theorem mem_neighborIds {g : CsrGraph F} {node id : MemoryId} :
    id ∈ neighborIds g node <-> exists e, (id, e) ∈ g.outgoing node := by
  unfold neighborIds
  rw [List.mem_map]
  constructor
  · rintro ⟨n, hn, heq⟩
    subst heq
    exact ⟨n.2, hn⟩
  · rintro ⟨e, he⟩
    exact ⟨(id, e), he, rfl⟩

theorem walk_iff_neighborIds {g : CsrGraph F} {start node : MemoryId} {n : Nat} :
    Walk g start n node <-> Bfs.Reaches (neighborIds g) start n node := by
  have hsame : successors g (fun _ => true) = neighborIds g := by
    funext id
    exact successors_all g id
  rw [walk_iff_reaches, hsame]

theorem mem_nodes_of_neighborIds {g : CsrGraph F} {start : MemoryId} (n : Nat) (y : MemoryId)
    (hy : Bfs.Reaches (neighborIds g) start n y) : y ∈ start :: g.nodeIds :=
  mem_nodes_of_reaches n y (walk_iff_reaches.mp (walk_iff_neighborIds.mpr hy))

/-- A path in the graph that repeats no node and that no walk undercuts. -/
structure IsShortestPath (g : CsrGraph F) (source target : MemoryId) (path : List MemoryId) :
    Prop where
  head : path.head? = some source
  last : path.getLast? = some target
  edges : path.IsChain (fun x y => exists e, (y, e) ∈ g.outgoing x)
  nodup : path.Nodup
  shortest : forall n, Walk g source n target -> path.length <= n + 1

/-- Both loops end on every graph.  The answer is a path exactly when both nodes are
registered and a walk joins them, and it is then a shortest one. -/
theorem shortestPath_correct (g : CsrGraph F) {source target : MemoryId}
    (hne : source ≠ target) :
    (forall rounds, g.nodeCount + 2 <= rounds ->
      shortestPathWithin g source target rounds = some (shortestPath g source target)) ∧
    ((exists path, shortestPath g source target = some path) <->
      g.containsNode source = true ∧ g.containsNode target = true ∧
        exists n, Walk g source n target) ∧
    forall path, shortestPath g source target = some path ->
      IsShortestPath g source target path := by
  by_cases hnodes : g.containsNode source = true ∧ g.containsNode target = true
  · have hwithin : forall rounds, shortestPathWithin g source target rounds =
        ShortestPath.search (neighborIds g) source target rounds rounds
          (ShortestPath.start source) := by
      intro rounds
      unfold shortestPathWithin
      rw [if_neg hne, if_pos hnodes]
    have hcount : (source :: g.nodeIds).length < g.nodeCount + 2 := Nat.lt_succ_self _
    rcases ShortestPath.search_start mem_nodes_of_neighborIds hne (Nat.le_of_lt hcount) hcount
      with ⟨answer, hsearch, hanswer⟩
    have hpath : shortestPath g source target = answer := by
      unfold shortestPath
      rw [hwithin, hsearch]
      rfl
    rw [hpath]
    refine ⟨?_, ?_, ?_⟩
    · intro rounds hrounds
      rw [hwithin]
      exact ShortestPath.search_mono hrounds hrounds hsearch
    · rw [hanswer.exists_iff]
      constructor
      · rintro ⟨n, hn⟩
        exact ⟨hnodes.1, hnodes.2, n, walk_iff_neighborIds.mpr hn⟩
      · rintro ⟨_, _, n, hn⟩
        exact ⟨n, walk_iff_neighborIds.mp hn⟩
    · intro path hsome
      have hshortest := hanswer.shortest path hsome
      exact
        { head := hshortest.head
          last := hshortest.last
          edges := hshortest.steps.imp (fun x y hy => mem_neighborIds.mp hy)
          nodup := hshortest.nodup
          shortest := fun n hn => hshortest.shortest n (walk_iff_neighborIds.mp hn) }
  · have hwithin : forall rounds, shortestPathWithin g source target rounds = some none := by
      intro rounds
      unfold shortestPathWithin
      rw [if_neg hne, if_neg hnodes]
    have hpath : shortestPath g source target = none := by
      unfold shortestPath
      rw [hwithin]
      rfl
    rw [hpath]
    refine ⟨fun rounds _ => hwithin rounds, ?_, fun path hsome => by cases hsome⟩
    constructor
    · rintro ⟨path, hsome⟩
      cases hsome
    · rintro ⟨hsource, htarget, _⟩
      exact absurd ⟨hsource, htarget⟩ hnodes

theorem shortestPath_correct_detourGraph :
    (⟨1⟩ : MemoryId) ≠ ⟨4⟩ ∧ shortestPath detourGraph ⟨1⟩ ⟨4⟩ = some [⟨1⟩, ⟨3⟩, ⟨4⟩] ∧
      IsShortestPath detourGraph ⟨1⟩ ⟨4⟩ [⟨1⟩, ⟨3⟩, ⟨4⟩] := by
  have hne : (⟨1⟩ : MemoryId) ≠ ⟨4⟩ := by decide
  have hpath : shortestPath detourGraph ⟨1⟩ ⟨4⟩ = some [⟨1⟩, ⟨3⟩, ⟨4⟩] := by decide
  exact ⟨hne, hpath, (shortestPath_correct detourGraph hne).2.2 _ hpath⟩

/-!
## Depth-first search
-/

theorem dfs_listing {g : CsrGraph F} {start : MemoryId} (hstart : g.containsNode start = true)
    (maxDepth : Nat) :
    Dfs.Listing (neighborIds g) start maxDepth (dfs g start maxDepth) := by
  unfold dfs
  rw [if_pos hstart]
  exact Dfs.search_listing mem_nodes_of_neighborIds (Nat.le_refl _)

/-- Where no detour as long as the depth cuts a nearer node off, depth-first search finds
the nodes that breadth-first search finds, those up to the depth, in whatever order the
edges are listed. -/
theorem dfs_finds_bfs {g : CsrGraph F} {start : MemoryId} {maxDepth : Nat}
    (hdetour : Dfs.NoDetour (neighborIds g) start maxDepth) :
    forall g' : CsrGraph F,
      (forall node id, id ∈ neighborIds g' node <-> id ∈ neighborIds g node) ->
      (forall id, id ∈ (dfs g' start maxDepth).map Prod.fst <->
        id ∈ (bfs g' start maxDepth).map Prod.fst) ∧
      (g'.containsNode start = true -> forall id,
        id ∈ (dfs g' start maxDepth).map Prod.fst <->
          exists n, n <= maxDepth ∧ Walk g' start n id) := by
  intro g' hsame
  have hdetour' := hdetour.congr hsame
  have hball : g'.containsNode start = true -> forall id,
      id ∈ (dfs g' start maxDepth).map Prod.fst <->
        exists n, n <= maxDepth ∧ Walk g' start n id := by
    intro hstart id
    have hlisting := dfs_listing hstart maxDepth
    constructor
    · intro hid
      rcases List.mem_map.mp hid with ⟨p, hp, heq⟩
      subst heq
      have hreached := hlisting.reached hp
      exact ⟨p.2, hreached.2, walk_iff_neighborIds.mpr hreached.1⟩
    · rintro ⟨n, hn, hwalk⟩
      have hexact := (searches_byDistance hstart maxDepth []).1
      rcases (bfs_complete hstart maxDepth).depth_le (walk_iff_reaches.mp hwalk) hn with
        ⟨d, _, hmem⟩
      have hshortest := (hexact.mem_iff id d).mp hmem
      refine hlisting.mem_of_noDetour hdetour' hshortest.2 id ⟨?_, ?_⟩
      · exact walk_iff_neighborIds.mp hshortest.1.1
      · intro m hm
        exact hshortest.1.2 m (walk_iff_neighborIds.mpr hm)
  refine ⟨?_, hball⟩
  intro id
  by_cases hstart : g'.containsNode start = true
  · rw [hball hstart id, (bfs_complete hstart maxDepth).mem_iff]
    simp only [walk_iff_reaches]
  · unfold dfs bfs
    rw [if_neg hstart, if_neg hstart]

/-- The third node is at the end of no path of three edges. -/
theorem no_long_path_detourGraph {path : List MemoryId} (hlength : path.length = 3) :
    ¬ Dfs.IsPath (neighborIds detourGraph) ⟨1⟩ (path ++ [⟨3⟩]) := by
  intro hpath
  rcases List.length_eq_three.mp hlength with ⟨a, b, c, heq⟩
  subst heq
  have ha : a = ⟨1⟩ := Option.some.inj hpath.head
  subst ha
  have hsteps := hpath.steps
  simp only [List.cons_append, List.nil_append, List.isChain_cons_cons] at hsteps
  have hnodup := hpath.nodup
  have hb : b = ⟨3⟩ ∨ b = ⟨2⟩ := by
    have hfirst : neighborIds detourGraph ⟨1⟩ = [⟨3⟩, ⟨2⟩] := by decide
    have hmem := hsteps.1
    rw [hfirst] at hmem
    simpa using hmem
  rcases hb with hb | hb
  · subst hb
    simp at hnodup
  · subst hb
    have hsecond : neighborIds detourGraph ⟨2⟩ = [⟨3⟩] := by decide
    have hc := hsteps.2.1
    rw [hsecond, List.mem_singleton] at hc
    subst hc
    simp at hnodup

/-- One step deeper than the detour, nothing is cut off. -/
theorem noDetour_detourGraph : Dfs.NoDetour (neighborIds detourGraph) ⟨1⟩ 3 := by
  have hstart : detourGraph.containsNode ⟨1⟩ = true := by decide
  have hbfs : bfs detourGraph ⟨1⟩ 3 = [(⟨1⟩, 0), (⟨3⟩, 1), (⟨2⟩, 1), (⟨4⟩, 2)] := by decide
  have hback : forall (y : MemoryId) (path : List MemoryId), path.length = 3 ->
      Dfs.IsPath (neighborIds detourGraph) ⟨1⟩ (path ++ [⟨1⟩]) -> y ∈ path := by
    intro y path hlength hpath
    rw [hpath.eq_nil] at hlength
    cases hlength
  intro n y hn hy
  have hmem : (y, n + 1) ∈ bfs detourGraph ⟨1⟩ 3 := by
    refine ((searches_byDistance hstart 3 []).1.mem_iff y (n + 1)).mpr ⟨⟨?_, ?_⟩, hn⟩
    · exact walk_iff_neighborIds.mpr hy.1
    · intro m hm
      exact hy.2 m (walk_iff_neighborIds.mp hm)
  rw [hbfs] at hmem
  simp only [List.mem_cons, Prod.mk.injEq, List.not_mem_nil, or_false] at hmem
  rcases hmem with ⟨_, hlabel⟩ | ⟨hthird, hlabel⟩ | ⟨hsecond, hlabel⟩ | ⟨hfourth, hlabel⟩
  · cases hlabel
  · cases Nat.succ.inj hlabel
    rw [hthird]
    exact ⟨⟨1⟩, Bfs.Reaches.refl, by decide, hback _⟩
  · cases Nat.succ.inj hlabel
    rw [hsecond]
    exact ⟨⟨1⟩, Bfs.Reaches.refl, by decide, hback _⟩
  · cases Nat.succ.inj hlabel
    rw [hfourth]
    refine ⟨⟨3⟩, Bfs.Reaches.step Bfs.Reaches.refl (by decide), by decide, ?_⟩
    intro path hlength hpath
    exact absurd hpath (no_long_path_detourGraph hlength)

theorem dfs_finds_bfs_detourGraph :
    Dfs.NoDetour (neighborIds detourGraph) ⟨1⟩ 3 ∧
      forall id, id ∈ (dfs detourGraph ⟨1⟩ 3).map Prod.fst <->
        id ∈ (bfs detourGraph ⟨1⟩ 3).map Prod.fst :=
  ⟨noDetour_detourGraph, (dfs_finds_bfs noDetour_detourGraph detourGraph (fun _ _ => Iff.rfl)).1⟩

/-- With the longer way listed last, and so taken first, the third node is met at the
bound and the fourth is never found. -/
theorem dfs_misses_node :
    ¬ forall id, id ∈ (dfs detourGraph ⟨1⟩ 2).map Prod.fst <->
      id ∈ (bfs detourGraph ⟨1⟩ 2).map Prod.fst := by
  intro h
  exact absurd ((h ⟨4⟩).mpr (by decide)) (by decide)

end Graph
end MenteDb
