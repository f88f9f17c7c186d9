import MenteDb.Graph.Refinement
import Mathlib.Data.Finset.Lattice.Lemmas
import Mathlib.Data.Finset.Card

/-!
# Graph manager

The manager registers memories, drops them, and adds relationships between
registered memories only.  Opening a database hydrates a new graph from the
stored memories and edges.
-/

namespace MenteDb
namespace Graph

open Foundation

variable {F : Type}

namespace GraphManager

def addMemory (g : CsrGraph F) (id : MemoryId) : CsrGraph F := (g.addNode id).2

def removeMemory (g : CsrGraph F) (id : MemoryId) : CsrGraph F := g.removeNode id

def addRelationship (g : CsrGraph F) (edge : MemoryEdge F) :
    Except MenteError (CsrGraph F) :=
  if g.containsNode edge.source = false then
    Except.error (MenteError.memoryNotFound edge.source)
  else if g.containsNode edge.target = false then
    Except.error (MenteError.memoryNotFound edge.target)
  else Except.ok (g.addEdge edge)

/-- A caller that drops the error keeps the graph it had. -/
def addRelationshipOrSkip (g : CsrGraph F) (edge : MemoryEdge F) : CsrGraph F :=
  match addRelationship g edge with
  | Except.ok g' => g'
  | Except.error _ => g

def hydrate (ids : List MemoryId) (edges : List (MemoryEdge F)) : CsrGraph F :=
  edges.foldl addRelationshipOrSkip (ids.foldl addMemory CsrGraph.new)

end GraphManager

namespace CsrGraph

/-!
## What a reader of the graph sees
-/

/-- The registered memories. -/
def liveNodes (g : CsrGraph F) : Finset MemoryId := g.idToIdx.keys.toFinset

/-- All edges, listed from their sources. -/
def liveEdges (g : CsrGraph F) : Multiset (MemoryId × MemoryId × StoredEdge F) :=
  (g.idToIdx.keys.flatMap (fun s => (g.outgoing s).map (fun p => (s, p.1, p.2))) : List _)

theorem Represents.liveNodes_eq {g : CsrGraph F} {G : Multigraph MemoryId (StoredEdge F)}
    (h : g.Represents G) : g.liveNodes = G.nodes := by
  rcases h with ⟨base, hpic⟩
  ext id
  rw [hpic.nodes, liveNodes, List.mem_toFinset, containsNode, Assoc.contains_iff_mem_keys]

theorem count_listed [DecidableEq F] {g : CsrGraph F} {ids : List MemoryId}
    (hnodup : ids.Nodup) (s t : MemoryId) (e : StoredEdge F) :
    Multiset.count (s, t, e)
        (ids.flatMap (fun s => (g.outgoing s).map (fun p => (s, p.1, p.2))) : List _) =
      if s ∈ ids then Multiset.count (t, e) (g.outgoing s : Multiset _) else 0 := by
  induction ids with
  | nil => simp
  | cons head rest ih =>
      rcases List.nodup_cons.mp hnodup with ⟨hfresh, hrest⟩
      rw [List.flatMap_cons, ← Multiset.coe_add, Multiset.count_add, ih hrest,
        ← Multiset.map_coe]
      by_cases hs : s = head
      · subst hs
        have hinj : Function.Injective
            (fun p : MemoryId × StoredEdge F => (s, p.1, p.2)) := by
          intro p q hpq
          simpa [Prod.ext_iff] using hpq
        have hcount := Multiset.count_map_eq_count' _ (Multiset.ofList (g.outgoing s)) hinj (t, e)
        simp only at hcount
        rw [hcount]
        simp [hfresh]
      · have hzero : Multiset.count (s, t, e)
            ((g.outgoing head : Multiset (MemoryId × StoredEdge F)).map
              (fun p => (head, p.1, p.2))) = 0 := by
          rw [Multiset.count_eq_zero]
          intro hmem
          rcases Multiset.mem_map.mp hmem with ⟨p, _, hp⟩
          exact hs (congrArg Prod.fst hp).symm
        rw [hzero]
        simp [hs]

theorem Represents.liveEdges_eq [DecidableEq F] {g : CsrGraph F}
    {G : Multigraph MemoryId (StoredEdge F)} (h : g.Represents G) :
    g.liveEdges = G.edges := by
  rcases h with ⟨base, hpic⟩
  have hnodup : g.idToIdx.keys.Nodup := g.idToIdx.nodup
  ext x
  rcases x with ⟨s, t, e⟩
  rw [liveEdges, count_listed hnodup]
  split
  · rw [hpic.outgoing_eq s, Multigraph.count_outEdges]
  · rename_i hs
    symm
    rw [Multiset.count_eq_zero]
    intro hmem
    rcases (hpic.endpoints_registered hmem).1 with ⟨i, hi⟩
    exact hs (Assoc.contains_iff_mem_keys.mp (Assoc.contains_iff_exists.mpr ⟨i, hi⟩))

theorem Represents.closed {g : CsrGraph F} {G : Multigraph MemoryId (StoredEdge F)}
    (h : g.Represents G) : G.Closed := by
  intro e he
  rcases h with ⟨base, hpic⟩
  rcases hpic.endpoints_registered he with ⟨hs, ht⟩
  exact ⟨(hpic.nodes _).mpr (Assoc.contains_iff_exists.mpr hs),
    (hpic.nodes _).mpr (Assoc.contains_iff_exists.mpr ht)⟩

/-!
## The manager on the represented multigraph
-/

variable {g : CsrGraph F} {G : Multigraph MemoryId (StoredEdge F)}

theorem Represents.addMemory (h : g.Represents G) (hroom : g.idxToId.length < u32Size)
    (id : MemoryId) : (GraphManager.addMemory g id).Represents (G.addNode id) := by
  rcases h with ⟨base, hpic⟩
  exact ⟨base, hpic.addNode hroom id⟩

theorem Represents.removeMemory (h : g.Represents G) (id : MemoryId) :
    (GraphManager.removeMemory g id).Represents (G.removeNode id) := by
  rcases h with ⟨base, hpic⟩
  exact ⟨base, hpic.removeNode id⟩

/-- The abstract edge of a stored relationship. -/
def labelled (edge : MemoryEdge F) : MemoryId × MemoryId × StoredEdge F :=
  (edge.source, edge.target, StoredEdge.fromMemoryEdge edge)

theorem Represents.addRelationship_ok (h : g.Represents G) {edge : MemoryEdge F}
    (hs : edge.source ∈ G.nodes) (ht : edge.target ∈ G.nodes) :
    exists g', GraphManager.addRelationship g edge = Except.ok g' ∧
      g'.idxToId = g.idxToId ∧
      g'.Represents { G with edges := labelled edge ::ₘ G.edges } := by
  rcases h with ⟨base, hpic⟩
  have hsource := (hpic.nodes _).mp hs
  have htarget := (hpic.nodes _).mp ht
  rcases Assoc.contains_iff_exists.mp hsource with ⟨i, hi⟩
  rcases Assoc.contains_iff_exists.mp htarget with ⟨j, hj⟩
  -- registering a node that is there changes nothing, so only the log grows
  have hadd : g.addEdge edge =
      { g with deltaEdges := g.deltaEdges ++
          [{ sourceIdx := i, targetIdx := j, data := StoredEdge.fromMemoryEdge edge }] } := by
    unfold addEdge
    rw [addNode_of_find?_some hi]
    simp only
    rw [addNode_of_find?_some hj]
  refine ⟨g.addEdge edge, ?_, ?_, ?_⟩
  · unfold GraphManager.addRelationship
    rw [hsource, htarget]
    rfl
  · rw [hadd]
  · rw [hadd]
    exact ⟨base, hpic.pushDelta _ hi hj⟩

theorem Represents.addRelationship_error (h : g.Represents G) {edge : MemoryEdge F}
    (hmissing : edge.source ∉ G.nodes ∨ edge.target ∉ G.nodes) :
    exists e, GraphManager.addRelationship g edge = Except.error e := by
  rcases h with ⟨base, hpic⟩
  rw [hpic.nodes, hpic.nodes] at hmissing
  unfold GraphManager.addRelationship
  split
  · exact ⟨_, rfl⟩
  · split
    · exact ⟨_, rfl⟩
    · simp_all

/-- Skipping a relationship whose end points are not both registered. -/
theorem Represents.addRelationshipOrSkip (h : g.Represents G) (edge : MemoryEdge F) :
    (GraphManager.addRelationshipOrSkip g edge).idxToId = g.idxToId ∧
      (GraphManager.addRelationshipOrSkip g edge).Represents
        (if edge.source ∈ G.nodes ∧ edge.target ∈ G.nodes then
          { G with edges := labelled edge ::ₘ G.edges } else G) := by
  unfold GraphManager.addRelationshipOrSkip
  split
  · rename_i g' hok
    by_cases hboth : edge.source ∈ G.nodes ∧ edge.target ∈ G.nodes
    · rcases h.addRelationship_ok hboth.1 hboth.2 with ⟨g'', hok', hids, hrep⟩
      rw [hok] at hok'
      cases hok'
      rw [if_pos hboth]
      exact ⟨hids, hrep⟩
    · rcases h.addRelationship_error (not_and_or.mp hboth) with ⟨e, herr⟩
      rw [hok] at herr
      cases herr
  · rename_i e herr
    have hnot : ¬ (edge.source ∈ G.nodes ∧ edge.target ∈ G.nodes) := by
      intro hboth
      rcases h.addRelationship_ok hboth.1 hboth.2 with ⟨g', hok, _⟩
      rw [herr] at hok
      cases hok
    rw [if_neg hnot]
    exact ⟨rfl, h⟩

theorem removeMemory_idxToId (g : CsrGraph F) (id : MemoryId) :
    (GraphManager.removeMemory g id).idxToId = g.idxToId := by
  unfold GraphManager.removeMemory removeNode
  split <;> rfl

theorem Represents.removeMemories (h : g.Represents G) (ids : List MemoryId) :
    (ids.foldl GraphManager.removeMemory g).idxToId = g.idxToId ∧
      (ids.foldl GraphManager.removeMemory g).Represents
        (ids.foldl Multigraph.removeNode G) := by
  induction ids generalizing g G with
  | nil => exact ⟨rfl, h⟩
  | cons id rest ih =>
      rcases ih (h.removeMemory id) with ⟨hlen, hrep⟩
      rw [removeMemory_idxToId] at hlen
      exact ⟨hlen, hrep⟩

/-- Registered memories have distinct indices. -/
theorem Represents.card_nodes_le (h : g.Represents G) :
    G.nodes.card <= g.idxToId.length := by
  rw [← h.liveNodes_eq]
  rcases h with ⟨base, hpic⟩
  have hsub : g.liveNodes ⊆ g.idxToId.toFinset := by
    intro id hid
    rw [liveNodes, List.mem_toFinset, ← Assoc.contains_iff_mem_keys] at hid
    rcases Assoc.contains_iff_exists.mp hid with ⟨idx, hidx⟩
    rw [List.mem_toFinset]
    exact List.mem_of_getElem? (hpic.layout.registered id idx hidx)
  exact (Finset.card_le_card hsub).trans (List.toFinset_card_le g.idxToId)

/-!
## Hydration
-/

theorem addMemory_length_le (g : CsrGraph F) (id : MemoryId) :
    (GraphManager.addMemory g id).idxToId.length <= g.idxToId.length + 1 := by
  unfold GraphManager.addMemory addNode
  split <;> simp

theorem addRelationship_length_le {g g' : CsrGraph F} {edge : MemoryEdge F}
    (h : GraphManager.addRelationship g edge = Except.ok g') :
    g.idxToId.length <= g'.idxToId.length := by
  unfold GraphManager.addRelationship at h
  split at h
  · cases h
  · split at h
    · cases h
    · cases h
      exact (addNode_length_le g edge.source).trans (addNode_length_le _ edge.target)

theorem Represents.addMemories (h : g.Represents G) (ids : List MemoryId)
    (hroom : g.idxToId.length + ids.length <= u32Size) :
    (ids.foldl GraphManager.addMemory g).idxToId.length <= g.idxToId.length + ids.length ∧
      (ids.foldl GraphManager.addMemory g).Represents
        { G with nodes := G.nodes ∪ ids.toFinset } := by
  induction ids generalizing g G with
  | nil =>
      refine ⟨Nat.le_refl _, ?_⟩
      rw [List.toFinset_nil, Finset.union_empty]
      exact h
  | cons id rest ih =>
      rw [List.length_cons] at hroom
      have hlen := addMemory_length_le g id
      have hstep := h.addMemory (by omega) id
      rcases ih hstep (by omega) with ⟨hlen', hrep⟩
      refine ⟨by rw [List.foldl_cons, List.length_cons]; omega, ?_⟩
      have hnodes : (G.addNode id).nodes ∪ rest.toFinset = G.nodes ∪ (id :: rest).toFinset := by
        rw [Multigraph.addNode, List.toFinset_cons, Finset.insert_union, Finset.union_insert]
      rw [List.foldl_cons, ← hnodes]
      exact hrep

theorem Represents.addRelationships (h : g.Represents G) (edges : List (MemoryEdge F)) :
    (edges.foldl GraphManager.addRelationshipOrSkip g).idxToId = g.idxToId ∧
      (edges.foldl GraphManager.addRelationshipOrSkip g).Represents
        { G with edges := (edges.filter (fun e =>
            decide (e.source ∈ G.nodes ∧ e.target ∈ G.nodes))).map labelled + G.edges } := by
  induction edges generalizing g G with
  | nil => exact ⟨rfl, by simpa using h⟩
  | cons edge rest ih =>
      rw [List.foldl_cons]
      rcases ih (h.addRelationshipOrSkip edge).2 with ⟨hlen, hrep⟩
      rw [(h.addRelationshipOrSkip edge).1] at hlen
      refine ⟨hlen, ?_⟩
      have hedges : forall (p : Prop) [Decidable p],
          (if p then { G with edges := labelled edge ::ₘ G.edges } else G) =
            ({ G with edges := if p then labelled edge ::ₘ G.edges else G.edges } :
              Multigraph MemoryId (StoredEdge F)) := by
        intro p _
        split <;> rfl
      rw [hedges] at hrep
      convert hrep using 2
      by_cases hboth : edge.source ∈ G.nodes ∧ edge.target ∈ G.nodes
      · rw [List.filter_cons_of_pos (by simpa using hboth), if_pos hboth, List.map_cons,
          ← Multiset.cons_coe, Multiset.cons_add, Multiset.add_cons]
      · rw [List.filter_cons_of_neg (by simpa using hboth), if_neg hboth]

/-- Hydration represents the stored memories and the edges between them. -/
theorem hydrate_represents (ids : List MemoryId) (edges : List (MemoryEdge F))
    (hroom : ids.length <= u32Size) :
    (GraphManager.hydrate ids edges).idxToId.length <= ids.length ∧
      (GraphManager.hydrate ids edges).Represents
        { nodes := ids.toFinset
          edges := (edges.filter (fun e =>
            decide (e.source ∈ ids.toFinset ∧ e.target ∈ ids.toFinset))).map labelled } := by
  have hempty : (CsrGraph.new : CsrGraph F).Represents Multigraph.empty := represents_new
  rcases hempty.addMemories ids (by simpa [CsrGraph.new] using hroom) with ⟨hlen, hnodes⟩
  have hunion : (Multigraph.empty : Multigraph MemoryId (StoredEdge F)).nodes ∪ ids.toFinset =
      ids.toFinset := Finset.empty_union _
  rw [hunion] at hnodes
  rcases hnodes.addRelationships edges with ⟨hsame, hboth⟩
  have hzero : (Multigraph.empty : Multigraph MemoryId (StoredEdge F)).edges = 0 := rfl
  rw [hzero] at hboth
  simp only [add_zero] at hboth
  refine ⟨?_, hboth⟩
  rw [GraphManager.hydrate, hsame]
  simpa [CsrGraph.new] using hlen

end CsrGraph
end Graph
end MenteDb
