import MenteDb.Graph.Manager

/-!
# Listing the nodes

An id is registered in a map and appended to a vector.  Removal takes it out of the map
and leaves the vector as it is.  So the vector lists the registered ids until a registered
node is removed for the first time, and never again after that: what it has too much stays.
-/

namespace MenteDb
namespace Graph

open Foundation

variable {F : Type}

/-- The listing names the registered nodes, each once, and counts them. -/
structure ListsLive (g : CsrGraph F) : Prop where
  nodup : g.nodeIds.Nodup
  mem_iff : forall id, id ∈ g.nodeIds <-> g.containsNode id = true
  count : g.nodeCount = g.liveNodes.card

theorem card_liveNodes (g : CsrGraph F) : g.liveNodes.card = g.idToIdx.keys.length :=
  List.toFinset_card_of_nodup g.idToIdx.nodup

theorem listsLive_of_eq_keys {g : CsrGraph F} (h : g.idxToId = g.idToIdx.keys) :
    ListsLive g where
  nodup := by
    rw [CsrGraph.nodeIds, h]
    exact g.idToIdx.nodup
  mem_iff id := by
    rw [CsrGraph.nodeIds, h, CsrGraph.containsNode, Assoc.contains_iff_mem_keys]
  count := by
    rw [CsrGraph.nodeCount, h, card_liveNodes]

/-!
## One operation
-/

/-- The ids that an operation registers are appended on both sides. -/
def Registers (g g' : CsrGraph F) : Prop :=
  exists added, g'.idToIdx.keys = g.idToIdx.keys ++ added ∧ g'.idxToId = g.idxToId ++ added

theorem Registers.refl (g : CsrGraph F) : Registers g g :=
  ⟨[], (List.append_nil _).symm, (List.append_nil _).symm⟩

theorem Registers.trans {g g' g'' : CsrGraph F} (h : Registers g g') (h' : Registers g' g'') :
    Registers g g'' := by
  rcases h with ⟨added, hkeys, hids⟩
  rcases h' with ⟨added', hkeys', hids'⟩
  refine ⟨added ++ added', ?_, ?_⟩
  · rw [hkeys', hkeys, List.append_assoc]
  · rw [hids', hids, List.append_assoc]

theorem registers_addNode (g : CsrGraph F) (id : MemoryId) : Registers g (g.addNode id).2 := by
  unfold CsrGraph.addNode
  cases hfind : g.idToIdx.find? id with
  | some idx => exact Registers.refl g
  | none =>
      have hnew : ¬ g.idToIdx.contains id = true := by
        rw [Assoc.contains, hfind]
        simp
      refine ⟨[id], ?_, rfl⟩
      show (g.idToIdx.upsert id (fun _ => g.idxToId.length % u32Size)).keys = _
      rw [Assoc.keys_upsert, if_neg hnew]

theorem registers_removeEdge (g : CsrGraph F) (source target : MemoryId) :
    Registers g (g.removeEdge source target) := by
  unfold CsrGraph.removeEdge
  split
  · exact Registers.refl g
  · exact Registers.refl g

theorem removeNode_keys {g : CsrGraph F} {id : MemoryId} (h : g.containsNode id = true) :
    (g.removeNode id).idToIdx.keys.length + 1 = g.idToIdx.keys.length := by
  rcases Assoc.contains_iff_exists.mp h with ⟨idx, hfind⟩
  simp only [CsrGraph.removeNode, hfind]
  exact Assoc.length_keys_erase h

theorem removeNode_of_not_containsNode {g : CsrGraph F} {id : MemoryId}
    (h : ¬ g.containsNode id = true) : g.removeNode id = g := by
  rw [CsrGraph.containsNode, Assoc.contains_iff_mem_keys, ← Assoc.find?_eq_none_iff] at h
  simp only [CsrGraph.removeNode, h]

/-- An operation registers ids, or it takes a registered one out of the map alone. -/
theorem apply_listing [Zero F] (g : CsrGraph F) (op : GraphOp F) :
    Registers g (GraphOp.apply g op) ∨
      exists id, op = GraphOp.removeNode id ∧ g.containsNode id = true ∧
        (GraphOp.apply g op).idToIdx.keys.length + 1 = g.idToIdx.keys.length ∧
        (GraphOp.apply g op).idxToId = g.idxToId := by
  cases op with
  | addNode id => exact Or.inl (registers_addNode g id)
  | addEdge edge =>
      exact Or.inl ((registers_addNode g edge.source).trans
        (registers_addNode (g.addNode edge.source).2 edge.target))
  | removeEdge source target => exact Or.inl (registers_removeEdge g source target)
  | compact => exact Or.inl (Registers.refl g)
  | removeNode id =>
      by_cases hcontains : g.containsNode id = true
      · exact Or.inr ⟨id, rfl, hcontains, removeNode_keys hcontains,
          CsrGraph.removeNode_idxToId g id⟩
      · refine Or.inl ?_
        rw [GraphOp.apply, removeNode_of_not_containsNode hcontains]
        exact Registers.refl g

/-- What the vector has too much never gets less. -/
theorem apply_excess [Zero F] (g : CsrGraph F) (op : GraphOp F) :
    (GraphOp.apply g op).idToIdx.keys.length + g.idxToId.length <=
      g.idToIdx.keys.length + (GraphOp.apply g op).idxToId.length := by
  rcases apply_listing g op with ⟨added, hkeys, hids⟩ | ⟨id, _, _, hkeys, hids⟩
  · rw [hkeys, hids, List.length_append, List.length_append]
    omega
  · rw [hids]
    omega

/-!
## Runs
-/

theorem run_excess [Zero F] (g : CsrGraph F) (ops : List (GraphOp F)) :
    (GraphOp.run g ops).idToIdx.keys.length + g.idxToId.length <=
      g.idToIdx.keys.length + (GraphOp.run g ops).idxToId.length := by
  induction ops generalizing g with
  | nil => exact Nat.le_refl _
  | cons op rest ih =>
      have hstep := apply_excess g op
      have hrest := ih (GraphOp.apply g op)
      show (GraphOp.run (GraphOp.apply g op) rest).idToIdx.keys.length + _ <=
        _ + (GraphOp.run (GraphOp.apply g op) rest).idxToId.length
      omega

/-- No operation of the run removes a node that is registered at the time. -/
def RemovesNone [Zero F] (g : CsrGraph F) (ops : List (GraphOp F)) : Prop :=
  forall before id after, ops = before ++ GraphOp.removeNode id :: after ->
    (GraphOp.run g before).containsNode id = false

theorem RemovesNone.tail [Zero F] {g : CsrGraph F} {op : GraphOp F} {rest : List (GraphOp F)}
    (h : RemovesNone g (op :: rest)) : RemovesNone (GraphOp.apply g op) rest := by
  intro before id after heq
  exact h (op :: before) id after (by rw [heq]; rfl)

theorem run_eq_keys [Zero F] {g : CsrGraph F} {ops : List (GraphOp F)}
    (hkept : RemovesNone g ops) (h : g.idxToId = g.idToIdx.keys) :
    (GraphOp.run g ops).idxToId = (GraphOp.run g ops).idToIdx.keys := by
  induction ops generalizing g with
  | nil => exact h
  | cons op rest ih =>
      refine ih hkept.tail ?_
      rcases apply_listing g op with ⟨added, hkeys, hids⟩ | ⟨id, hop, hcontains, _, _⟩
      · rw [hkeys, hids, h]
      · subst hop
        have hnone : g.containsNode id = false := hkept [] id rest rfl
        rw [hcontains] at hnone
        cases hnone

theorem run_append [Zero F] (g : CsrGraph F) (before after : List (GraphOp F)) :
    GraphOp.run g (before ++ after) = GraphOp.run (GraphOp.run g before) after :=
  List.foldl_append

/-- After a run the listing is exact if and only if the run removes no registered node. -/
theorem listsLive_iff_removesNone [Zero F] (ops : List (GraphOp F)) :
    ListsLive (GraphOp.run CsrGraph.new ops) <-> RemovesNone CsrGraph.new ops := by
  constructor
  · intro hlists before id after heq
    by_contra hnot
    rw [Bool.not_eq_false] at hnot
    have hbefore := run_excess CsrGraph.new before
    have hafter := run_excess
      (GraphOp.apply (GraphOp.run CsrGraph.new before) (GraphOp.removeNode id)) after
    have hrun : GraphOp.run CsrGraph.new ops =
        GraphOp.run (GraphOp.apply (GraphOp.run CsrGraph.new before)
          (GraphOp.removeNode id)) after := by
      rw [heq, run_append]
      rfl
    have hcount := hlists.count
    rw [card_liveNodes, CsrGraph.nodeCount, hrun] at hcount
    have hkeys : (GraphOp.apply (GraphOp.run CsrGraph.new before)
        (GraphOp.removeNode id)).idToIdx.keys.length + 1 =
          (GraphOp.run CsrGraph.new before).idToIdx.keys.length := removeNode_keys hnot
    have hids : (GraphOp.apply (GraphOp.run CsrGraph.new before)
        (GraphOp.removeNode id)).idxToId = (GraphOp.run CsrGraph.new before).idxToId :=
      CsrGraph.removeNode_idxToId _ id
    have hnew : (CsrGraph.new : CsrGraph F).idToIdx.keys.length = 0 := rfl
    have hnew' : (CsrGraph.new : CsrGraph F).idxToId.length = 0 := rfl
    rw [hids] at hafter
    omega
  · intro hkept
    exact listsLive_of_eq_keys (run_eq_keys hkept rfl)

/-- A removed node is still listed, and once it is back it is listed twice. -/
theorem removed_node_listed :
    ¬ ListsLive (GraphOp.run (CsrGraph.new : CsrGraph Rat)
      [GraphOp.addNode ⟨1⟩, GraphOp.removeNode ⟨1⟩]) ∧
    (GraphOp.run (CsrGraph.new : CsrGraph Rat)
      [GraphOp.addNode ⟨1⟩, GraphOp.removeNode ⟨1⟩, GraphOp.addNode ⟨1⟩]).nodeIds =
        [⟨1⟩, ⟨1⟩] := by
  constructor
  · intro h
    have hlisted := (h.mem_iff ⟨1⟩).mp (by decide)
    exact absurd hlisted (by decide)
  · decide

end Graph
end MenteDb
