import Mathlib.Data.Multiset.Filter
import Mathlib.Data.Finset.Basic
import Mathlib.Algebra.Order.Group.Multiset

/-!
# Directed multigraphs

Finitely many vertices and a multiset of labelled edges.  This is the abstract
object that an adjacency data structure is meant to represent; it has no storage
order and no indices.
-/

namespace Foundation

structure Multigraph (V L : Type) where
  nodes : Finset V
  edges : Multiset (V × V × L)

namespace Multigraph

variable {V L : Type}

@[ext] theorem ext {G H : Multigraph V L} (hnodes : G.nodes = H.nodes)
    (hedges : G.edges = H.edges) : G = H := by
  cases G
  cases H
  simp only at hnodes hedges
  rw [hnodes, hedges]

def empty : Multigraph V L where
  nodes := ∅
  edges := 0

section Operations

variable [DecidableEq V]

def addNode (G : Multigraph V L) (v : V) : Multigraph V L where
  nodes := insert v G.nodes
  edges := G.edges

def addEdge (G : Multigraph V L) (s t : V) (l : L) : Multigraph V L where
  nodes := insert t (insert s G.nodes)
  edges := (s, t, l) ::ₘ G.edges

/-- Remove all parallel edges from {lit}`s` to {lit}`t`. -/
def removeEdge (G : Multigraph V L) (s t : V) : Multigraph V L where
  nodes := G.nodes
  edges := G.edges.filter (fun e => ¬ (e.1 = s ∧ e.2.1 = t))

/-- Remove a vertex with its incident edges. -/
def removeNode (G : Multigraph V L) (v : V) : Multigraph V L where
  nodes := G.nodes.erase v
  edges := G.edges.filter (fun e => e.1 ≠ v ∧ e.2.1 ≠ v)

def outEdges (G : Multigraph V L) (v : V) : Multiset (V × L) :=
  (G.edges.filter (fun e => e.1 = v)).map (fun e => (e.2.1, e.2.2))

def inEdges (G : Multigraph V L) (v : V) : Multiset (V × L) :=
  (G.edges.filter (fun e => e.2.1 = v)).map (fun e => (e.1, e.2.2))

/-- Every edge joins vertices of the graph. -/
def Closed (G : Multigraph V L) : Prop :=
  forall e, e ∈ G.edges -> e.1 ∈ G.nodes ∧ e.2.1 ∈ G.nodes

theorem Closed.removeNode {G : Multigraph V L} (h : G.Closed) (v : V) :
    (G.removeNode v).Closed := by
  intro e he
  rcases Multiset.mem_filter.mp he with ⟨hmem, hs, ht⟩
  have hends := h e hmem
  exact ⟨Finset.mem_erase.mpr ⟨hs, hends.1⟩, Finset.mem_erase.mpr ⟨ht, hends.2⟩⟩

theorem Closed.removeNode_of_notMem {G : Multigraph V L} (h : G.Closed) {v : V}
    (hv : v ∉ G.nodes) : G.removeNode v = G := by
  have hedges : G.edges.filter (fun e => e.1 ≠ v ∧ e.2.1 ≠ v) = G.edges := by
    rw [Multiset.filter_eq_self]
    intro e he
    have hends := h e he
    constructor
    · intro heq
      exact hv (heq ▸ hends.1)
    · intro heq
      exact hv (heq ▸ hends.2)
  unfold Multigraph.removeNode
  rw [hedges, Finset.erase_eq_of_notMem hv]

theorem addNode_of_mem {G : Multigraph V L} {v : V} (h : v ∈ G.nodes) : G.addNode v = G := by
  unfold Multigraph.addNode
  rw [Finset.insert_eq_of_mem h]

end Operations

/-!
## Handshake

An edge is counted as often at its source as at its target.
-/

theorem count_outEdges [DecidableEq V] [DecidableEq L]
    (G : Multigraph V L) (s t : V) (l : L) :
    (G.outEdges s).count (t, l) = G.edges.count (s, t, l) := by
  rw [outEdges, Multiset.count_map, Multiset.filter_filter, Multiset.count_eq_card_filter_eq]
  congr 1
  apply Multiset.filter_congr
  rintro ⟨s', t', l'⟩ _
  simp only [Prod.mk.injEq]
  constructor
  · rintro ⟨⟨ht, hl⟩, hs⟩
    exact ⟨hs.symm, ht, hl⟩
  · rintro ⟨hs, ht, hl⟩
    exact ⟨⟨ht, hl⟩, hs.symm⟩

theorem count_inEdges [DecidableEq V] [DecidableEq L]
    (G : Multigraph V L) (s t : V) (l : L) :
    (G.inEdges t).count (s, l) = G.edges.count (s, t, l) := by
  rw [inEdges, Multiset.count_map, Multiset.filter_filter, Multiset.count_eq_card_filter_eq]
  congr 1
  apply Multiset.filter_congr
  rintro ⟨s', t', l'⟩ _
  simp only [Prod.mk.injEq]
  constructor
  · rintro ⟨⟨hs, hl⟩, ht⟩
    exact ⟨hs, ht.symm, hl⟩
  · rintro ⟨hs, ht, hl⟩
    exact ⟨⟨hs, hl⟩, ht.symm⟩

theorem handshake [DecidableEq V] [DecidableEq L]
    (G : Multigraph V L) (s t : V) (l : L) :
    (G.outEdges s).count (t, l) = (G.inEdges t).count (s, l) := by
  rw [count_outEdges, count_inEdges]

end Multigraph
end Foundation
