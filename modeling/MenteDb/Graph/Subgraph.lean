import MenteDb.Graph.Distances
import MenteDb.Graph.Manager

/-!
# Subgraphs

The subgraph around a node is induced: it has the nodes up to the radius, each once, and
every edge of the graph between two of them, as often as the graph has it.
-/

namespace MenteDb
namespace Graph

open Foundation

variable {F : Type}

/-- An edge of the graph as the subgraph lists it. -/
def listedEdge (e : MemoryId × MemoryId × StoredEdge F) : MemoryEdge F :=
  edgeOfStored e.1 e.2.1 e.2.2

theorem outgoing_of_not_mem_keys {g : CsrGraph F} {id : MemoryId} (h : id ∉ g.idToIdx.keys) :
    g.outgoing id = [] := by
  unfold CsrGraph.outgoing
  cases hfind : g.idToIdx.find? id with
  | none => rfl
  | some idx =>
      have hcontains := Assoc.contains_iff_exists.mpr ⟨idx, hfind⟩
      exact absurd (Assoc.contains_iff_mem_keys.mp hcontains) h

/-- The edges listed from some nodes are the live edges that start at one of them. -/
theorem listed_eq_filter_liveEdges {g : CsrGraph F} {nodes : List MemoryId}
    (hnodup : nodes.Nodup) :
    (nodes.flatMap (fun s => (g.outgoing s).map (fun p => (s, p.1, p.2))) : Multiset _) =
      g.liveEdges.filter (fun e => e.1 ∈ nodes) := by
  classical
  have hkeys : g.idToIdx.keys.Nodup := g.idToIdx.nodup
  ext x
  rcases x with ⟨s, t, e⟩
  rw [CsrGraph.count_listed hnodup, Multiset.count_filter, CsrGraph.liveEdges,
    CsrGraph.count_listed hkeys]
  by_cases hs : s ∈ g.idToIdx.keys
  · rw [if_pos hs]
  · rw [outgoing_of_not_mem_keys hs, if_neg hs]
    simp

/-- The edges of a subgraph are those listed from its nodes whose target it has too. -/
theorem extractSubgraph_edges (g : CsrGraph F) (center : MemoryId) (radius : Nat) :
    (extractSubgraph g center radius).2 =
      (((extractSubgraph g center radius).1.flatMap (fun s =>
        (g.outgoing s).map (fun p => (s, p.1, p.2)))).filter
          (fun e => decide (e.2.1 ∈ (extractSubgraph g center radius).1))).map listedEdge := by
  unfold extractSubgraph
  simp only
  rw [List.filter_flatMap, List.map_flatMap]
  refine congrArg (fun f => List.flatMap f _) (funext fun node => ?_)
  rw [List.filter_map, List.map_map]
  rfl

/-- The subgraph is induced. -/
theorem extractSubgraph_induced (g : CsrGraph F) (center : MemoryId) (radius : Nat) :
    (extractSubgraph g center radius).1.Nodup ∧
      (forall id, id ∈ (extractSubgraph g center radius).1 <->
        g.containsNode center = true ∧
          exists d, d <= radius ∧ Bfs.Shortest (Walk g center) d id) ∧
      ((extractSubgraph g center radius).2 : Multiset (MemoryEdge F)) =
        (g.liveEdges.filter (fun e => e.1 ∈ (extractSubgraph g center radius).1 ∧
          e.2.1 ∈ (extractSubgraph g center radius).1)).map listedEdge ∧
      forall G, g.Represents G -> g.liveEdges = G.edges ∧
        forall n id, Walk g center n id <-> LabelledWalk G (fun _ => True) center n id := by
  classical
  have hnodup := nodup_extractSubgraph g center radius
  refine ⟨hnodup, ?_, ?_, ?_⟩
  · intro id
    by_cases hcenter : g.containsNode center = true
    · have hexact := (searches_byDistance hcenter radius []).1
      show id ∈ (bfs g center radius).map Prod.fst <-> _
      rw [List.mem_map]
      constructor
      · rintro ⟨p, hp, heq⟩
        have hshortest := (hexact.mem_iff p.1 p.2).mp hp
        rw [← heq]
        exact ⟨hcenter, p.2, hshortest.2, hshortest.1⟩
      · rintro ⟨_, d, hd, hshortest⟩
        exact ⟨(id, d), (hexact.mem_iff id d).mpr ⟨hshortest, hd⟩, rfl⟩
    · have hnone : (extractSubgraph g center radius).1 = [] := by
        unfold extractSubgraph bfs
        rw [if_neg hcenter]
        rfl
      rw [hnone]
      constructor
      · intro h
        cases h
      · rintro ⟨h, _⟩
        exact absurd h hcenter
  · rw [extractSubgraph_edges, ← Multiset.map_coe, ← Multiset.filter_coe,
      listed_eq_filter_liveEdges hnodup, Multiset.filter_filter]
    exact congrArg (Multiset.map listedEdge) (Multiset.filter_congr (fun e _ => And.comm))
  · intro G hG
    refine ⟨hG.liveEdges_eq, ?_⟩
    intro n id
    rw [walk_iff_reaches]
    exact reaches_iff_labelledWalk hG (fun _ => by simp)

/-- Around the first node the detour is cut before the fourth, and the edge between the two
nodes of the outermost layer is kept. -/
theorem extractSubgraph_induced_detourGraph :
    (extractSubgraph detourGraph ⟨1⟩ 1).1 = [⟨1⟩, ⟨3⟩, ⟨2⟩] ∧
      ((extractSubgraph detourGraph ⟨1⟩ 1).2 : Multiset (MemoryEdge Rat)) =
        (detourGraph.liveEdges.filter (fun e =>
          e.1 ∈ (extractSubgraph detourGraph ⟨1⟩ 1).1 ∧
            e.2.1 ∈ (extractSubgraph detourGraph ⟨1⟩ 1).1)).map listedEdge ∧
      (extractSubgraph detourGraph ⟨1⟩ 1).2.map (fun e => (e.source, e.target)) =
        [(⟨1⟩, ⟨3⟩), (⟨1⟩, ⟨2⟩), (⟨2⟩, ⟨3⟩)] := by
  have hinduced := extractSubgraph_induced detourGraph ⟨1⟩ 1
  exact ⟨by decide, hinduced.2.2.1, by decide⟩

end Graph
end MenteDb
