import MenteDb.Facade.World

/-!
# The multigraph of the tables

Stored memories and edge rows form a multigraph, which is what opening the
tables hydrates.  Each transaction is described by its effect on it.
-/

namespace MenteDb
namespace Facade

open Foundation
open Sqlite
open MenteDb.Graph
open Graph.CsrGraph

variable {F : Type}

/-- Stored memories and all edge rows, dangling or not. -/
def storedGraph (t : Tables F) : Multigraph MemoryId (StoredEdge F) where
  nodes := t.allMemoryIds.toFinset
  edges := (t.allEdges.map labelled : List _)

theorem mem_storedGraph_nodes {t : Tables F} {id : MemoryId} :
    id ∈ (storedGraph t).nodes <-> t.memories.contains id = true := by
  rw [storedGraph, List.mem_toFinset, Tables.allMemoryIds, MemoryTable.mem_ids]

/-- Only which memories are stored and the edge rows matter. -/
theorem storedGraph_congr {t t' : Tables F}
    (hids : forall id, t'.memories.contains id = t.memories.contains id)
    (hedges : t'.edges = t.edges) : storedGraph t' = storedGraph t := by
  apply Multigraph.ext
  · ext id
    rw [mem_storedGraph_nodes, mem_storedGraph_nodes, hids]
  · simp only [storedGraph, Tables.allEdges]
    rw [hedges]

theorem contains_modify (m : MemoryTable F) (id j : MemoryId)
    (f : MemoryRow F -> MemoryRow F) : (m.modify id f).contains j = m.contains j := by
  rw [MemoryTable.contains_eq, MemoryTable.contains_eq, MemoryTable.find?_modify]
  cases m.find? j <;> simp

/-- Every edge row joins stored memories. -/
def EdgesStored (t : Tables F) : Prop := (storedGraph t).Closed

theorem hydrateGraph_represents {t : Tables F} (h : EdgesStored t)
    (hroom : t.allMemoryIds.length <= u32Size) :
    (hydrateGraph t).idxToId.length <= t.allMemoryIds.length ∧
      (hydrateGraph t).Represents (storedGraph t) := by
  rcases hydrate_represents t.allMemoryIds t.allEdges hroom with ⟨hlen, hrep⟩
  have hall : t.allEdges.filter (fun e => decide
      (e.source ∈ t.allMemoryIds.toFinset ∧ e.target ∈ t.allMemoryIds.toFinset)) =
      t.allEdges := by
    rw [List.filter_eq_self]
    intro e he
    exact decide_eq_true (h (labelled e) (List.mem_map_of_mem he))
  rw [hall] at hrep
  exact ⟨hlen, hrep⟩

/-!
## Effects of the transactions
-/

section Effects

theorem storedGraph_addEdgeOn {t t' : Tables F} {edge : MemoryEdge F}
    (h : Tables.addEdgeOn edge t = Except.ok t') :
    storedGraph t' =
      { storedGraph t with edges := labelled edge ::ₘ (storedGraph t).edges } := by
  cases h
  simp only [storedGraph, Tables.allEdges, List.map_append, List.map_cons, List.map_nil,
    Tables.edgeOfRow_rowOfEdge]
  congr 1
  rw [← Multiset.coe_add, Multiset.coe_singleton, Multiset.add_comm, Multiset.singleton_add]

theorem storedGraph_storeMemoryOn [Scalar F] {t t' : Tables F} {node : MemoryNode F} {dim : Nat}
    (h : Tables.storeMemoryOn node dim t = Except.ok t') :
    storedGraph t' = (storedGraph t).addNode node.id := by
  apply Multigraph.ext
  · ext id
    rw [mem_storedGraph_nodes, Tables.contains_storeMemoryOn h, Multigraph.addNode,
      Finset.mem_insert, mem_storedGraph_nodes]
    simp
  · simp only [storedGraph, Tables.allEdges, Multigraph.addNode]
    rw [Tables.storeMemoryOn_edges h]

/-- Writing back memories that are stored changes nothing here. -/
theorem storedGraph_rewrite [Scalar F] {t t' : Tables F} {node : MemoryNode F} {dim : Nat}
    (h : Tables.storeMemoryOn node dim t = Except.ok t')
    (hstored : t.memories.contains node.id = true) : storedGraph t' = storedGraph t := by
  rw [storedGraph_storeMemoryOn h]
  exact Multigraph.addNode_of_mem (mem_storedGraph_nodes.mpr hstored)

theorem storedGraph_storeMemoryBatch [Scalar F] {nodes : List (MemoryNode F)} {dim : Nat} :
    forall {t t' : Tables F},
      Atomic.forEach nodes (fun node => Tables.storeMemoryOn node dim) t = Except.ok t' ->
      storedGraph t' =
        { storedGraph t with
          nodes := (storedGraph t).nodes ∪ (nodes.map MemoryNode.id).toFinset } := by
  induction nodes with
  | nil =>
      intro t t' h
      cases h
      simp
  | cons node rest ih =>
      intro t t' h
      rcases Atomic.andThen_eq_ok.mp h with ⟨mid, hmid, hend⟩
      rw [ih hend, storedGraph_storeMemoryOn hmid]
      simp only [Multigraph.addNode, List.map_cons, List.toFinset_cons]
      rw [Finset.insert_union, Finset.union_insert]

theorem storedGraph_invalidateMemoryOn {id : MemoryId} {at_ : Timestamp} (t0 : Tables F) :
    Atomic.Keeps (fun t => storedGraph t = storedGraph t0)
      (Tables.invalidateMemoryOn id at_) := by
  intro t t' ht h
  cases h
  rw [← ht]
  apply storedGraph_congr
  · intro j
    exact contains_modify t.memories id j _
  · rfl

theorem storedGraph_markClaimStatusOn {c status : String} {at_ : Timestamp} (t0 : Tables F) :
    Atomic.Keeps (fun t => storedGraph t = storedGraph t0)
      (Tables.markClaimStatusOn c status at_) := by
  intro t t' ht h
  cases h
  exact ht

theorem storedGraph_markRelationshipStatusOn {r status : String} {at_ : Timestamp}
    (t0 : Tables F) :
    Atomic.Keeps (fun t => storedGraph t = storedGraph t0)
      (Tables.markRelationshipStatusOn r status at_) := by
  intro t t' ht h
  cases h
  exact ht

theorem storedGraph_addEdges {edges : List (MemoryEdge F)} :
    forall {t t' : Tables F}, Atomic.forEach edges Tables.addEdgeOn t = Except.ok t' ->
      storedGraph t' =
        { storedGraph t with
          edges := (edges.map labelled : List _) + (storedGraph t).edges } := by
  induction edges with
  | nil =>
      intro t t' h
      cases h
      simp
  | cons edge rest ih =>
      intro t t' h
      rcases Atomic.andThen_eq_ok.mp h with ⟨mid, hmid, hend⟩
      rw [ih hend, storedGraph_addEdgeOn hmid]
      simp only [List.map_cons]
      rw [← Multiset.cons_coe, Multiset.cons_add, Multiset.add_cons]

theorem storedGraph_applyCorrectionPolicy {mutation : CorrectionPolicyMutation F}
    {t t' : Tables F} (h : Tables.applyCorrectionPolicy mutation t = Except.ok t') :
    storedGraph t' =
      { storedGraph t with
        edges := (mutation.edges.map labelled : List _) + (storedGraph t).edges } := by
  rcases Atomic.andThen_eq_ok.mp h with ⟨t1, h1, h⟩
  rcases Atomic.andThen_eq_ok.mp h with ⟨t2, h2, h⟩
  rcases Atomic.andThen_eq_ok.mp h with ⟨t3, h3, h4⟩
  have hsame1 := Atomic.Keeps.forEach
    (fun m _ => storedGraph_invalidateMemoryOn t) t t1 rfl h1
  have hsame2 := Atomic.Keeps.forEach
    (fun c _ => storedGraph_markClaimStatusOn t) t1 t2 hsame1 h2
  have hsame3 := Atomic.Keeps.forEach
    (fun r _ => storedGraph_markRelationshipStatusOn t) t2 t3 hsame2 h3
  rw [storedGraph_addEdges h4, hsame3]

theorem storedGraph_softForgetOn {a : PolicyAffected} {at_ : Timestamp} {t t' : Tables F}
    (h : Tables.softForgetOn a at_ t = Except.ok t') : storedGraph t' = storedGraph t := by
  have hkeeps : Atomic.Keeps (fun s => storedGraph s = storedGraph t)
      (Tables.softForgetOn a at_) := by
    apply Atomic.Keeps.andThen
    · exact Atomic.Keeps.forEach (fun m _ => storedGraph_invalidateMemoryOn t)
    · apply Atomic.Keeps.andThen
      · exact Atomic.Keeps.forEach (fun c _ => storedGraph_markClaimStatusOn t)
      · exact Atomic.Keeps.forEach (fun r _ => storedGraph_markRelationshipStatusOn t)
  exact hkeeps t t' rfl h

/-- With no dangling edges, deleting a memory is removing its vertex. -/
theorem storedGraph_deleteMemory {t : Tables F} (h : EdgesStored t) (id : MemoryId) :
    storedGraph (t.deleteMemory id) = (storedGraph t).removeNode id := by
  unfold Tables.deleteMemory
  split
  · rename_i hnone
    have hout : id ∉ (storedGraph t).nodes := by
      rw [mem_storedGraph_nodes, MemoryTable.contains_eq, Option.isSome_iff_exists]
      intro hstored
      rcases hstored with ⟨row, hrow⟩
      rw [MemoryTable.rowidOf, hrow] at hnone
      cases hnone
    exact (h.removeNode_of_notMem hout).symm
  · apply Multigraph.ext
    · ext j
      rw [mem_storedGraph_nodes, Multigraph.removeNode, Finset.mem_erase, mem_storedGraph_nodes]
      simp only [Tables.deleteMemoryRow, Tables.deleteVec]
      rw [MemoryTable.contains_eq, MemoryTable.find?_delete, MemoryTable.contains_eq]
      by_cases hj : j = id <;> simp [hj]
    · simp only [storedGraph, Tables.deleteMemoryRow, Tables.allEdges, Tables.deleteVec,
        Multigraph.removeNode, Multiset.filter_coe]
      rw [List.filter_map, List.filter_map]
      congr 3
      apply List.filter_congr
      intro e _
      by_cases hs : e.source = id
      · simp [labelled, Tables.edgeOfRow, hs]
      · by_cases ht : e.target = id
        · simp [labelled, Tables.edgeOfRow, ht]
        · simp [labelled, Tables.edgeOfRow, hs, ht]

theorem storedGraph_deleteMemories {ids : List MemoryId} :
    forall {t t' : Tables F}, EdgesStored t ->
      Atomic.forEach ids Tables.deleteMemoryOn t = Except.ok t' ->
      storedGraph t' = ids.foldl Multigraph.removeNode (storedGraph t) := by
  induction ids with
  | nil =>
      intro t t' _ h
      cases h
      rfl
  | cons id rest ih =>
      intro t t' hedges h
      rcases Atomic.andThen_eq_ok.mp h with ⟨mid, hmid, hend⟩
      cases hmid
      have hstep := storedGraph_deleteMemory hedges id
      rw [List.foldl_cons, ← hstep]
      have hnext : EdgesStored (t.deleteMemory id) := by
        unfold EdgesStored
        rw [hstep]
        exact hedges.removeNode id
      exact ih hnext hend

theorem storedGraph_hardForgetOn {a : PolicyAffected} {t t' : Tables F} (hedges : EdgesStored t)
    (h : Tables.hardForgetOn a t = Except.ok t') :
    storedGraph t' = a.memoryIds.foldl Multigraph.removeNode (storedGraph t) := by
  have hrelationship : forall r, Atomic.Keeps (fun s => storedGraph s = storedGraph t)
      (fun s : Tables F => (Except.ok (s.deleteRelationship r) : Except MenteError _)) := by
    intro r s s' hs hrun
    cases hrun
    exact hs
  have hclaim : forall c, Atomic.Keeps (fun s => storedGraph s = storedGraph t)
      (fun s : Tables F => (Except.ok (s.deleteClaim c) : Except MenteError _)) := by
    intro c s s' hs hrun
    cases hrun
    unfold Tables.deleteClaim
    split
    · exact hs
    · exact hs
  have hentity : forall (t0 : Tables F) e, Atomic.Keeps (fun s => storedGraph s = storedGraph t0)
      (fun s : Tables F => (Except.ok (s.deleteEntity e) : Except MenteError _)) := by
    intro t0 e s s' hs hrun
    cases hrun
    unfold Tables.deleteEntity
    split
    · exact hs
    · exact hs
  rcases Atomic.andThen_eq_ok.mp h with ⟨t1, h1, h⟩
  rcases Atomic.andThen_eq_ok.mp h with ⟨t2, h2, h⟩
  rcases Atomic.andThen_eq_ok.mp h with ⟨t3, h3, h4⟩
  have hsame1 := Atomic.Keeps.forEach (fun r _ => hrelationship r) t t1 rfl h1
  have hsame2 := Atomic.Keeps.forEach (fun c _ => hclaim c) t1 t2 hsame1 h2
  have hstored : EdgesStored t2 := by
    unfold EdgesStored
    rw [hsame2]
    exact hedges
  have hsame4 := Atomic.Keeps.forEach (fun e _ => hentity t3 e) t3 t' rfl h4
  rw [hsame4, storedGraph_deleteMemories hstored h3, hsame2]

end Effects

end Facade
end MenteDb
