import MenteDb.Foundation.Dfs
import MenteDb.Foundation.ShortestPath
import MenteDb.Graph.Csr

/-!
# Traversal

Breadth-first and depth-first search from a node up to a depth, the subgraph a search
spans, and a shortest path between two nodes.
-/

namespace MenteDb
namespace Graph

open Foundation

variable {F : Type}

/-- The nodes to visit, with their depths, and the nodes already seen. -/
structure BfsState where
  queue : List (MemoryId × Nat)
  visited : List MemoryId

def bfsVisit (depth : Nat) (s : BfsState) (neighbor : MemoryId × StoredEdge F) : BfsState :=
  if neighbor.1 ∈ s.visited then s
  else
    { queue := s.queue ++ [(neighbor.1, depth + 1)]
      visited := s.visited ++ [neighbor.1] }

/-- The queue loop; every node enters the queue once, which bounds the fuel. -/
def bfsLoop (g : CsrGraph F) (maxDepth : Nat) : Nat -> BfsState -> List (MemoryId × Nat)
  | 0, _ => []
  | fuel + 1, s =>
      match s.queue with
      | [] => []
      | (node, depth) :: rest =>
          if maxDepth <= depth then
            (node, depth) :: bfsLoop g maxDepth fuel { s with queue := rest }
          else
            (node, depth) :: bfsLoop g maxDepth fuel
              ((g.outgoing node).foldl (bfsVisit depth) { s with queue := rest })

def bfs (g : CsrGraph F) (start : MemoryId) (maxDepth : Nat) : List (MemoryId × Nat) :=
  if g.containsNode start then
    bfsLoop g maxDepth (g.nodeCount + 1) { queue := [(start, 0)], visited := [start] }
  else []

def bfsFilteredVisit (edgeFilter : List EdgeType) (depth : Nat) (s : BfsState)
    (neighbor : MemoryId × StoredEdge F) : BfsState :=
  if neighbor.2.edgeType ∈ edgeFilter then bfsVisit depth s neighbor else s

def bfsFilteredLoop (g : CsrGraph F) (edgeFilter : List EdgeType) (maxDepth : Nat) :
    Nat -> BfsState -> List (MemoryId × Nat)
  | 0, _ => []
  | fuel + 1, s =>
      match s.queue with
      | [] => []
      | (node, depth) :: rest =>
          if maxDepth <= depth then
            (node, depth) :: bfsFilteredLoop g edgeFilter maxDepth fuel { s with queue := rest }
          else
            (node, depth) :: bfsFilteredLoop g edgeFilter maxDepth fuel
              ((g.outgoing node).foldl (bfsFilteredVisit edgeFilter depth)
                { s with queue := rest })

/-- Search along edges of the given types only. -/
def bfsFiltered (g : CsrGraph F) (start : MemoryId) (maxDepth : Nat)
    (edgeFilter : List EdgeType) : List (MemoryId × Nat) :=
  if g.containsNode start then
    bfsFilteredLoop g edgeFilter maxDepth (g.nodeCount + 1)
      { queue := [(start, 0)], visited := [start] }
  else []

def edgeOfStored (source target : MemoryId) (stored : StoredEdge F) : MemoryEdge F where
  source := source
  target := target
  edgeType := stored.edgeType
  weight := stored.weight
  createdAt := stored.createdAt
  validFrom := stored.validFrom
  validUntil := stored.validUntil
  label := stored.label

/-- The nodes within the radius and the edges between them. -/
def extractSubgraph (g : CsrGraph F) (center : MemoryId) (radius : Nat) :
    List MemoryId × List (MemoryEdge F) :=
  let nodes := (bfs g center radius).map Prod.fst
  (nodes, nodes.flatMap (fun node =>
    ((g.outgoing node).filter (fun n => decide (n.1 ∈ nodes))).map (fun n =>
      edgeOfStored node n.1 n.2)))

/-- The ends of the outgoing edges, as a loop over them sees them. -/
def neighborIds (g : CsrGraph F) (node : MemoryId) : List MemoryId :=
  (g.outgoing node).map Prod.fst

/-- An edge is pushed once, when its source is listed; that bounds the rounds. -/
def dfsRounds (g : CsrGraph F) (start : MemoryId) : Nat :=
  1 + ((start :: g.nodeIds).map (fun node => (neighborIds g node).length)).sum

def dfs (g : CsrGraph F) (start : MemoryId) (maxDepth : Nat) : List (MemoryId × Nat) :=
  if g.containsNode start then
    Dfs.loop (neighborIds g) maxDepth (dfsRounds g start) (Dfs.start start)
  else []

/-- The search and the climb back, each with the given rounds. -/
def shortestPathWithin (g : CsrGraph F) (source target : MemoryId) (rounds : Nat) :
    Option (Option (List MemoryId)) :=
  if source = target then some (some [source])
  else if g.containsNode source ∧ g.containsNode target then
    ShortestPath.search (neighborIds g) source target rounds rounds
      (ShortestPath.start source)
  else some none

def shortestPath (g : CsrGraph F) (source target : MemoryId) : Option (List MemoryId) :=
  (shortestPathWithin g source target (g.nodeCount + 2)).join

/-!
## Both searches are complete

They are breadth-first searches along two successor functions.
-/

/-- A walk along outgoing edges, with its number of steps. -/
inductive Walk (g : CsrGraph F) (start : MemoryId) : Nat -> MemoryId -> Prop where
  | nil : Walk g start 0 start
  | snoc {n : Nat} {node : MemoryId} {next : MemoryId × StoredEdge F} :
      Walk g start n node -> next ∈ g.outgoing node -> Walk g start (n + 1) next.1

/-- The ends of the outgoing edges of the types kept. -/
def successors (g : CsrGraph F) (keep : EdgeType -> Bool) (node : MemoryId) : List MemoryId :=
  ((g.outgoing node).filter (fun n => keep n.2.edgeType)).map Prod.fst

theorem mem_successors {g : CsrGraph F} {keep : EdgeType -> Bool} {node next : MemoryId} :
    next ∈ successors g keep node <->
      exists e, (next, e) ∈ g.outgoing node ∧ keep e.edgeType = true := by
  unfold successors
  rw [List.mem_map]
  constructor
  · rintro ⟨n, hn, heq⟩
    rcases List.mem_filter.mp hn with ⟨hmem, hkeep⟩
    subst heq
    exact ⟨n.2, hmem, hkeep⟩
  · rintro ⟨e, hmem, hkeep⟩
    exact ⟨(next, e), List.mem_filter.mpr ⟨hmem, hkeep⟩, rfl⟩

/-- The node is at the end of a walk over edges of the given types. -/
def ReachesOver (g : CsrGraph F) (edgeTypes : List EdgeType) (start : MemoryId) :
    Nat -> MemoryId -> Prop :=
  Bfs.Reaches (successors g (fun t => decide (t ∈ edgeTypes))) start

theorem successors_all (g : CsrGraph F) (node : MemoryId) :
    successors g (fun _ => true) node = (g.outgoing node).map Prod.fst := by
  unfold successors
  rw [List.filter_eq_self.mpr (fun _ _ => rfl)]

theorem walk_iff_reaches {g : CsrGraph F} {start node : MemoryId} {n : Nat} :
    Walk g start n node <-> Bfs.Reaches (successors g (fun _ => true)) start n node := by
  constructor
  · intro h
    induction h with
    | nil => exact Bfs.Reaches.refl
    | snoc _ hnext ih =>
        refine Bfs.Reaches.step ih ?_
        rw [successors_all]
        exact List.mem_map_of_mem hnext
  · intro h
    induction h with
    | refl => exact Walk.nil
    | step _ hz ih =>
        rw [successors_all] at hz
        rcases List.mem_map.mp hz with ⟨next, hnext, heq⟩
        subst heq
        exact Walk.snoc ih hnext

theorem Walk.of_reachesOver {g : CsrGraph F} {edgeTypes : List EdgeType}
    {start node : MemoryId} {n : Nat} (h : ReachesOver g edgeTypes start n node) :
    Walk g start n node := by
  refine walk_iff_reaches.mpr (h.mono ?_)
  intro y z hz
  rw [successors_all]
  exact List.map_subset Prod.fst (List.filter_subset_self _) hz

def BfsState.toState (s : BfsState) : Bfs.State MemoryId where
  queue := s.queue
  visited := s.visited

theorem toState_bfsVisit (depth : Nat) (s : BfsState) (n : MemoryId × StoredEdge F) :
    (bfsVisit depth s n).toState = Bfs.visit depth s.toState n.1 := by
  unfold bfsVisit Bfs.visit BfsState.toState
  by_cases hseen : n.1 ∈ s.visited
  · simp only [if_pos hseen]
  · simp only [if_neg hseen]

theorem toState_foldl_bfsVisit (depth : Nat) (neighbors : List (MemoryId × StoredEdge F))
    (s : BfsState) :
    (neighbors.foldl (bfsVisit depth) s).toState =
      (neighbors.map Prod.fst).foldl (Bfs.visit depth) s.toState := by
  induction neighbors generalizing s with
  | nil => rfl
  | cons n rest ih =>
      rw [List.map_cons, List.foldl_cons, List.foldl_cons, ih, toState_bfsVisit]

theorem foldl_bfsFilteredVisit (edgeFilter : List EdgeType) (depth : Nat)
    (neighbors : List (MemoryId × StoredEdge F)) (s : BfsState) :
    neighbors.foldl (bfsFilteredVisit edgeFilter depth) s =
      (neighbors.filter (fun n => decide (n.2.edgeType ∈ edgeFilter))).foldl
        (bfsVisit depth) s := by
  induction neighbors generalizing s with
  | nil => rfl
  | cons n rest ih =>
      rw [List.foldl_cons, ih]
      unfold bfsFilteredVisit
      by_cases hkept : n.2.edgeType ∈ edgeFilter
      · simp only [if_pos hkept, List.filter_cons, decide_eq_true hkept, if_true,
          List.foldl_cons]
      · simp only [if_neg hkept, List.filter_cons, decide_eq_false hkept, Bool.false_eq_true,
          if_false]

theorem bfsLoop_eq (g : CsrGraph F) (maxDepth fuel : Nat) (s : BfsState) :
    bfsLoop g maxDepth fuel s =
      Bfs.loop (successors g (fun _ => true)) maxDepth fuel s.toState := by
  induction fuel generalizing s with
  | zero => rfl
  | succ fuel ih =>
      rcases s with ⟨queue, visited⟩
      cases queue with
      | nil => rfl
      | cons head rest =>
          simp only [bfsLoop, Bfs.loop, BfsState.toState]
          rw [ih, ih, toState_foldl_bfsVisit, successors_all]
          rfl

theorem bfsFilteredLoop_eq (g : CsrGraph F) (edgeFilter : List EdgeType) (maxDepth fuel : Nat)
    (s : BfsState) :
    bfsFilteredLoop g edgeFilter maxDepth fuel s =
      Bfs.loop (successors g (fun t => decide (t ∈ edgeFilter))) maxDepth fuel s.toState := by
  induction fuel generalizing s with
  | zero => rfl
  | succ fuel ih =>
      rcases s with ⟨queue, visited⟩
      cases queue with
      | nil => rfl
      | cons head rest =>
          simp only [bfsFilteredLoop, Bfs.loop, BfsState.toState]
          rw [ih, ih, foldl_bfsFilteredVisit, toState_foldl_bfsVisit]
          rfl

theorem mem_nodeIds_of_mem_outgoing {g : CsrGraph F} {id : MemoryId}
    {n : MemoryId × StoredEdge F} (h : n ∈ g.outgoing id) : n.1 ∈ g.nodeIds := by
  unfold CsrGraph.outgoing at h
  split at h
  · cases h
  · unfold CsrGraph.outgoingByIdx at h
    have hindex : forall {i : Nat} {e : StoredEdge F},
        g.idxToId[i]?.map (fun id => (id, e)) = some n -> n.1 ∈ g.nodeIds := by
      intro i e hmap
      rcases Option.map_eq_some_iff.mp hmap with ⟨id, hid, heq⟩
      subst heq
      exact List.mem_of_getElem? hid
    cases List.mem_append.mp h with
    | inl hrow =>
        rcases List.mem_filterMap.mp hrow with ⟨entry, _, hentry⟩
        simp only at hentry
        split at hentry
        · cases hentry
        · exact hindex hentry
    | inr hdelta =>
        rcases List.mem_filterMap.mp hdelta with ⟨d, _, hd⟩
        split at hd
        · exact hindex hd
        · cases hd

theorem successors_subset_nodeIds (g : CsrGraph F) (keep : EdgeType -> Bool) (id : MemoryId) :
    successors g keep id ⊆ g.nodeIds := by
  intro y hy
  rcases mem_successors.mp hy with ⟨e, hmem, _⟩
  exact mem_nodeIds_of_mem_outgoing hmem

theorem mem_nodes_of_reaches {g : CsrGraph F} {keep : EdgeType -> Bool} {start : MemoryId}
    (n : Nat) (y : MemoryId) (hy : Bfs.Reaches (successors g keep) start n y) :
    y ∈ start :: g.nodeIds := by
  cases hy with
  | refl => exact List.mem_cons_self
  | step _ hz => exact List.mem_cons_of_mem start (successors_subset_nodeIds g keep _ hz)

/-- The rounds the searches have are enough in every graph. -/
theorem search_successors_complete (g : CsrGraph F) (keep : EdgeType -> Bool)
    (start : MemoryId) (maxDepth : Nat) :
    Bfs.Complete (successors g keep) start maxDepth
      (Bfs.loop (successors g keep) maxDepth (g.nodeCount + 1) (Bfs.start start)) :=
  Bfs.search_complete mem_nodes_of_reaches (Nat.le_refl _)

theorem bfs_complete {g : CsrGraph F} {start : MemoryId} (hstart : g.containsNode start = true)
    (maxDepth : Nat) :
    Bfs.Complete (successors g (fun _ => true)) start maxDepth (bfs g start maxDepth) := by
  unfold bfs
  rw [if_pos hstart, bfsLoop_eq]
  exact search_successors_complete g _ start maxDepth

theorem bfsFiltered_complete {g : CsrGraph F} {start : MemoryId}
    (hstart : g.containsNode start = true) (maxDepth : Nat) (edgeFilter : List EdgeType) :
    Bfs.Complete (successors g (fun t => decide (t ∈ edgeFilter))) start maxDepth
      (bfsFiltered g start maxDepth edgeFilter) := by
  unfold bfsFiltered
  rw [if_pos hstart, bfsFilteredLoop_eq]
  exact search_successors_complete g _ start maxDepth

/-- Breadth-first search finds only nodes at the end of a walk of the depth it
reports. -/
theorem mem_bfs {g : CsrGraph F} {start : MemoryId} {maxDepth : Nat} {p : MemoryId × Nat}
    (h : p ∈ bfs g start maxDepth) : Walk g start p.2 p.1 ∧ p.2 <= maxDepth := by
  by_cases hstart : g.containsNode start = true
  · have hreached := (bfs_complete hstart maxDepth).reached p h
    exact ⟨walk_iff_reaches.mpr hreached.1, hreached.2⟩
  · unfold bfs at h
    rw [if_neg hstart] at h
    cases h

theorem mem_extractSubgraph {g : CsrGraph F} {center : MemoryId} {radius : Nat} {id : MemoryId}
    (h : id ∈ (extractSubgraph g center radius).1) :
    exists n, n <= radius ∧ Walk g center n id := by
  rcases List.mem_map.mp h with ⟨p, hp, hid⟩
  rw [← hid]
  exact ⟨p.2, (mem_bfs hp).2, (mem_bfs hp).1⟩

/-- A subgraph around a node of the graph has every node within its radius, once. -/
theorem mem_extractSubgraph_iff {g : CsrGraph F} {center : MemoryId}
    (hcenter : g.containsNode center = true) {radius : Nat} {id : MemoryId} :
    id ∈ (extractSubgraph g center radius).1 <-> exists n, n <= radius ∧ Walk g center n id := by
  simp only [walk_iff_reaches]
  exact (bfs_complete hcenter radius).mem_iff

theorem nodup_extractSubgraph (g : CsrGraph F) (center : MemoryId) (radius : Nat) :
    (extractSubgraph g center radius).1.Nodup := by
  by_cases hcenter : g.containsNode center = true
  · exact (bfs_complete hcenter radius).nodup
  · show ((bfs g center radius).map Prod.fst).Nodup
    unfold bfs
    rw [if_neg hcenter]
    exact List.nodup_nil

/-- The filtered search finds exactly the nodes within the depth over edges of the
given types. -/
theorem mem_bfsFiltered_iff {g : CsrGraph F} {start : MemoryId}
    (hstart : g.containsNode start = true) {maxDepth : Nat} {edgeFilter : List EdgeType}
    {id : MemoryId} :
    id ∈ (bfsFiltered g start maxDepth edgeFilter).map Prod.fst <->
      exists n, n <= maxDepth ∧ ReachesOver g edgeFilter start n id :=
  (bfsFiltered_complete hstart maxDepth edgeFilter).mem_iff

/-- Both searches list every node up to the depth once, with its distance over the edges
they follow, nearest first. -/
theorem searches_byDistance {g : CsrGraph F} {start : MemoryId}
    (hstart : g.containsNode start = true) (maxDepth : Nat) (edgeFilter : List EdgeType) :
    Bfs.ByDistance (Walk g start) maxDepth (bfs g start maxDepth) ∧
      Bfs.ByDistance (ReachesOver g edgeFilter start) maxDepth
        (bfsFiltered g start maxDepth edgeFilter) := by
  have hwalk : Walk g start = Bfs.Reaches (successors g (fun _ => true)) start := by
    funext n node
    exact propext walk_iff_reaches
  constructor
  · rw [hwalk]
    unfold bfs
    rw [if_pos hstart, bfsLoop_eq]
    exact Bfs.search_byDistance mem_nodes_of_reaches (Nat.le_refl _)
  · unfold bfsFiltered
    rw [if_pos hstart, bfsFilteredLoop_eq]
    exact Bfs.search_byDistance mem_nodes_of_reaches (Nat.le_refl _)

end Graph
end MenteDb
