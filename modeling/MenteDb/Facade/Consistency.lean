import MenteDb.Facade.Policies
import MenteDb.Facade.StoredGraph

/-!
# The graph mirrors the tables

Every operation that touches memories or edges writes the tables first and the
graph afterwards.  The graph should always be the one that opening the tables
anew would build.  It is as long as every edge written joins stored memories.
-/

namespace MenteDb
namespace Facade

open Foundation
open Sqlite
open MenteDb.Graph
open Graph.CsrGraph
open Cognitive

variable {F : Type}

/-!
## The graph follows the tables

The invariant between operations, and what it looks like while memories or
edges are committed but not yet known to the graph.
-/

/-- The committed tables name memories the graph still has to register; indices
are left for all of them. -/
def NodesPending (ids : List MemoryId) (w : World F) : Prop :=
  exists G, w.graph.Represents G ∧
    storedGraph w.tables = { G with nodes := G.nodes ∪ ids.toFinset } ∧
    w.graph.idxToId.length + ids.length <= u32Size

/-- The committed tables hold edges the graph still has to add. -/
def EdgesPending (edges : List (MemoryEdge F)) (w : World F) : Prop :=
  exists G, w.graph.Represents G ∧
    storedGraph w.tables = { G with edges := (edges.map labelled : List _) + G.edges } ∧
    (forall e, e ∈ edges -> e.source ∈ G.nodes ∧ e.target ∈ G.nodes) ∧
    w.graph.idxToId.length <= u32Size

/-- The graph mirrors the tables. -/
def Mirrors (w : World F) : Prop :=
  w.graph.Represents (storedGraph w.tables) ∧ w.graph.idxToId.length <= u32Size

/-- The graph mirrors the tables, and the given memories are stored. -/
def MirrorsWith (ids : List MemoryId) (w : World F) : Prop :=
  Mirrors w ∧ forall id, id ∈ ids -> w.tables.memories.contains id = true

theorem mirrorsWith_nil {w : World F} : MirrorsWith [] w <-> Mirrors w := by
  simp [MirrorsWith]

theorem nodesPending_nil {w : World F} (h : NodesPending [] w) : Mirrors w := by
  rcases h with ⟨G, hrep, hgraph, hroom⟩
  rw [List.toFinset_nil, Finset.union_empty] at hgraph
  refine ⟨?_, hroom⟩
  rw [hgraph]
  exact hrep

theorem NodesPending.contains {ids : List MemoryId} {w : World F} (h : NodesPending ids w)
    {id : MemoryId} (hid : id ∈ ids) : w.tables.memories.contains id = true := by
  rcases h with ⟨G, _, hgraph, _⟩
  rw [← mem_storedGraph_nodes, hgraph]
  exact Finset.mem_union_right _ (List.mem_toFinset.mpr hid)

/-- The assertion only looks at the graph and at what it has to mirror. -/
def ViewsGraph (I : World F -> Prop) : Prop :=
  forall w w' : World F, w'.graph = w.graph ->
    storedGraph w'.tables = storedGraph w.tables -> I w -> I w'

theorem viewsGraph_mirrorsWith (ids : List MemoryId) :
    ViewsGraph (MirrorsWith ids : World F -> Prop) := by
  intro w w' hgraph htables hw
  unfold MirrorsWith Mirrors
  rw [hgraph, htables]
  refine ⟨hw.1, ?_⟩
  intro id hid
  rw [← mem_storedGraph_nodes, htables, mem_storedGraph_nodes]
  exact hw.2 id hid

theorem viewsGraph_nodesPending (ids : List MemoryId) :
    ViewsGraph (NodesPending ids : World F -> Prop) := by
  intro w w' hgraph htables hw
  unfold NodesPending
  rw [hgraph, htables]
  exact hw

/-- The graph mirrors the tables and has indices left. -/
def HasRoom (n : Nat) (w : World F) : Prop :=
  Mirrors w ∧ w.graph.idxToId.length + n <= u32Size

theorem viewsGraph_hasRoom (n : Nat) : ViewsGraph (HasRoom n : World F -> Prop) := by
  intro w w' hgraph htables hw
  unfold HasRoom Mirrors
  rw [hgraph, htables]
  exact hw

theorem ViewsGraph.viewsMemories {I : World F -> Prop} (h : ViewsGraph I) :
    ViewsMemories I := by
  intro w w' hgraph hmemories _ hedges _ hw
  refine h w w' hgraph (storedGraph_congr ?_ hedges) hw
  intro id
  rw [hmemories]

/-!
## Edges
-/

section Steps

variable {env : Env F} {ids : List MemoryId}

/-- The edges that were pending are in the graph. -/
theorem EdgesPending.addRelationships {edges : List (MemoryEdge F)} {w : World F}
    (h : EdgesPending edges w) :
    Mirrors { w with
      graph := edges.foldl GraphManager.addRelationshipOrSkip w.graph } := by
  rcases h with ⟨G, hrep, hgraph, hends, hroom⟩
  rcases hrep.addRelationships edges with ⟨hlen, hadded⟩
  have hall : edges.filter (fun e => decide (e.source ∈ G.nodes ∧ e.target ∈ G.nodes)) =
      edges := by
    rw [List.filter_eq_self]
    intro e he
    exact decide_eq_true (hends e he)
  rw [hall] at hadded
  constructor
  · rw [hgraph]
    exact hadded
  · rw [hlen]
    exact hroom

theorem edgesPending_of_mirrors {edges : List (MemoryEdge F)} {w : World F} {t : Tables F}
    (h : Mirrors w)
    (hgraph : storedGraph t =
      { storedGraph w.tables with
        edges := (edges.map labelled : List _) + (storedGraph w.tables).edges })
    (hends : forall e, e ∈ edges ->
      w.tables.memories.contains e.source = true ∧ w.tables.memories.contains e.target = true) :
    EdgesPending edges { w with tables := t } := by
  refine ⟨storedGraph w.tables, h.1, hgraph, ?_, h.2⟩
  intro e he
  rw [mem_storedGraph_nodes, mem_storedGraph_nodes]
  exact hends e he

theorem keeps_relate {edge : MemoryEdge F} (hs : edge.source ∈ ids) (ht : edge.target ∈ ids) :
    Prog.Keeps (MirrorsWith ids) (relate env edge) := by
  apply Prog.Triple.bind (Q := fun _ w => EdgesPending [edge] w ∧
    forall id, id ∈ ids -> w.tables.memories.contains id = true)
  · apply triple_transact (viewsGraph_mirrorsWith ids).viewsMemories.ignoresTicks
    intro w t hw hrun
    have hgraph := storedGraph_addEdgeOn hrun
    constructor
    · apply edgesPending_of_mirrors hw.1
      · rw [hgraph]
        rfl
      · intro e he
        rw [List.mem_singleton.mp he]
        exact ⟨hw.2 _ hs, hw.2 _ ht⟩
    · intro id hid
      have hnode := mem_storedGraph_nodes.mpr (hw.2 id hid)
      rw [← mem_storedGraph_nodes, hgraph]
      exact hnode
  · intro _ w hw
    rcases hw with ⟨⟨G, hrep, hgraph, hends, hroom⟩, hids⟩
    have hedge := hends edge List.mem_cons_self
    rcases hrep.addRelationship_ok hedge.1 hedge.2 with ⟨g', hok, hlen, hrep'⟩
    simp only [onGraph, hok]
    refine ⟨⟨?_, ?_⟩, hids⟩
    · rw [hgraph]
      exact hrep'
    · rw [hlen]
      exact hroom

theorem keeps_dbStoreMemory [Scalar F] {node : MemoryNode F} (h : node.id ∈ ids) :
    Prog.Keeps (MirrorsWith ids) (dbStoreMemory env node) := by
  apply Prog.Keeps.bind (Prog.keeps_gets _)
  intro dim
  apply keeps_transact (viewsGraph_mirrorsWith ids).viewsMemories.ignoresTicks
  intro w t hw hrun
  exact viewsGraph_mirrorsWith ids w _ rfl
    (storedGraph_rewrite (Tables.storeMemory_ok hrun) (hw.2 _ h)) hw

theorem MirrorsWith.mono {ids' : List MemoryId} (h : forall id, id ∈ ids -> id ∈ ids')
    {w : World F} (hw : MirrorsWith ids' w) : MirrorsWith ids w :=
  ⟨hw.1, fun id hid => hw.2 id (h id hid)⟩

/-- A memory that loads is stored from then on. -/
theorem triple_getMemory (id : MemoryId) :
    Prog.Triple (MirrorsWith ids) (getMemory id : Op F _)
      (fun node w => MirrorsWith (id :: ids) w ∧ node.id = id) (MirrorsWith ids) := by
  intro w hw
  unfold getMemory
  cases hget : w.tables.getMemory id with
  | none => exact hw
  | some node =>
      refine ⟨⟨hw.1, ?_⟩, Tables.getMemory_id hget⟩
      intro j hj
      cases List.mem_cons.mp hj with
      | inl heq =>
          rw [heq]
          exact Tables.contains_of_getMemory hget
      | inr hmem => exact hw.2 j hmem

/-- Writing a loaded memory back and recording it. -/
theorem triple_storeBack [Scalar F] {id : MemoryId} {node : MemoryNode F} (h : node.id = id) :
    Prog.Triple (MirrorsWith (id :: ids)) (do
        dbStoreMemory env node
        emitLifecycleEvent env)
      (fun _ => MirrorsWith ids) (MirrorsWith ids) := by
  have hmem : node.id ∈ id :: ids := by
    rw [h]
    exact List.mem_cons_self
  have hkeeps : Prog.Keeps (MirrorsWith (id :: ids)) (do
      dbStoreMemory env node
      emitLifecycleEvent env) :=
    Prog.Keeps.bind (keeps_dbStoreMemory hmem)
      (fun _ => keeps_emitLifecycleEvent (viewsGraph_mirrorsWith _).viewsMemories)
  have hmono : forall w : World F, MirrorsWith (id :: ids) w -> MirrorsWith ids w :=
    fun w => MirrorsWith.mono (fun j hj => List.mem_cons_of_mem id hj)
  exact hkeeps.weaken (fun _ hw => hw) (fun _ => hmono) hmono

theorem keeps_invalidateMemory [Scalar F] (id : MemoryId) (at_ : Timestamp) :
    Prog.Keeps (MirrorsWith ids) (invalidateMemory env id at_) := by
  apply Prog.Triple.bind (triple_getMemory id)
  intro node w hw
  have hid : (node.invalidate at_).id = id := hw.2
  exact triple_storeBack hid w hw.1

theorem keeps_rewriteMemory [Scalar F] (id : MemoryId) {f : MemoryNode F -> MemoryNode F}
    (hf : forall node, (f node).id = node.id) :
    Prog.Keeps (MirrorsWith ids) (rewriteMemory env id f) := by
  apply Prog.Triple.bind (Q := fun loaded w => MirrorsWith ids w ∧
    forall node, loaded = some node -> MirrorsWith (node.id :: ids) w)
  · apply Prog.triple_gets
    intro w hw
    refine ⟨hw, ?_⟩
    intro node hget
    refine ⟨hw.1, ?_⟩
    intro j hj
    cases List.mem_cons.mp hj with
    | inl heq =>
        rw [heq, Tables.getMemory_id hget]
        exact Tables.contains_of_getMemory hget
    | inr hmem => exact hw.2 j hmem
  · intro loaded w hw
    cases loaded with
    | none => exact hw.1
    | some node => exact triple_storeBack (hf node) w (hw.2 node rfl)

/-!
## Write inference
-/

theorem keeps_applyInferredAction [Scalar F] {action : InferredAction F}
    (h : forall id, id ∈ action.endpoints -> id ∈ ids) :
    Prog.Keeps (MirrorsWith ids) (applyInferredAction env action) := by
  have hticks := (viewsGraph_mirrorsWith (F := F) ids).viewsMemories.ignoresTicks
  have hemit : Prog.Keeps (MirrorsWith ids) (emitLifecycleEvent env) :=
    keeps_emitLifecycleEvent (viewsGraph_mirrorsWith ids).viewsMemories
  cases action with
  | createEdge source target edgeType weight =>
      have hs : source ∈ ids := h source (by simp [InferredAction.endpoints])
      have ht : target ∈ ids := h target (by simp [InferredAction.endpoints])
      apply Prog.Keeps.bind (keeps_currentTimeUs hticks)
      intro now
      exact keeps_relate hs ht
  | invalidateMemory memory supersededBy validUntil =>
      have hs : supersededBy ∈ ids := h supersededBy (by simp [InferredAction.endpoints])
      have ht : memory ∈ ids := h memory (by simp [InferredAction.endpoints])
      apply Prog.Keeps.bind (keeps_invalidateMemory memory validUntil)
      intro _
      apply Prog.Keeps.bind (keeps_currentTimeUs hticks)
      intro now
      exact Prog.Keeps.bind (keeps_relate hs ht) (fun _ => hemit)
  | markObsolete memory supersededBy =>
      have hs : supersededBy ∈ ids := h supersededBy (by simp [InferredAction.endpoints])
      have ht : memory ∈ ids := h memory (by simp [InferredAction.endpoints])
      apply Prog.Keeps.bind (keeps_currentTimeUs hticks)
      intro now
      apply Prog.Keeps.bind (keeps_invalidateMemory memory now)
      intro _
      exact Prog.Keeps.bind (keeps_relate hs ht) (fun _ => hemit)
  | flagContradiction existing new reason =>
      have hs : new ∈ ids := h new (by simp [InferredAction.endpoints])
      have ht : existing ∈ ids := h existing (by simp [InferredAction.endpoints])
      apply Prog.Keeps.bind (keeps_currentTimeUs hticks)
      intro now
      exact Prog.Keeps.bind (keeps_relate hs ht) (fun _ => hemit)
  | updateConfidence memory newConfidence =>
      exact keeps_rewriteMemory memory (fun _ => rfl)
  | propagateBeliefChange root delta =>
      apply Prog.Keeps.bind (Prog.keeps_gets _)
      intro affected
      exact Prog.Keeps.forEach (fun a _ => keeps_rewriteMemory a.1 (fun _ => rfl))
  | updateContent memory newContent reason =>
      exact keeps_rewriteMemory memory (fun _ => rfl)

theorem triple_runWriteInference [Scalar F] (new : MemoryNode F) :
    Prog.Triple (MirrorsWith [new.id]) (runWriteInference env new) (fun _ => Mirrors)
      Mirrors := by
  have hmirrors : forall (ids : List MemoryId) (w : World F), MirrorsWith ids w -> Mirrors w :=
    fun _ _ hw => hw.1
  have hticks := (viewsGraph_mirrorsWith (F := F) [new.id]).viewsMemories.ignoresTicks
  unfold runWriteInference
  apply Prog.triple_ite
  · intro _
    exact fun w hw => hw.1
  · intro _
    apply Prog.Triple.bind ((keeps_currentTimeUs hticks).weaken (fun _ h => h)
      (fun _ _ h => h) (hmirrors _))
    intro now
    apply Prog.Triple.bind (Q := fun existing w =>
      MirrorsWith (new.id :: existing.map MemoryNode.id) w)
    · apply Prog.triple_gets
      intro w hw
      refine ⟨hw.1, ?_⟩
      intro id hid
      rcases List.mem_cons.mp hid with heq | hmem
      · rw [heq]
        exact hw.2 _ List.mem_cons_self
      · rcases List.mem_map.mp hmem with ⟨m, hm, hmid⟩
        rcases List.mem_filterMap.mp hm with ⟨hit, _, hget⟩
        rw [← hmid, Tables.getMemory_id hget]
        exact Tables.contains_of_getMemory hget
    · intro existing
      have hloop : Prog.Keeps (MirrorsWith (new.id :: existing.map MemoryNode.id))
          (Prog.forEach (inferOnWrite env.text env.config.inferenceConfig new existing)
            (fun action => do
              let _ ← Prog.attempt (applyInferredAction env action)
              pure ())) := by
        apply Prog.Keeps.forEach
        intro action haction
        apply Prog.Keeps.bind (Prog.Keeps.attempt (keeps_applyInferredAction ?_))
        · intro _
          exact Prog.keeps_pure ()
        · intro id hid
          exact endpoints_inferOnWrite haction hid
      exact hloop.weaken (fun _ h => h) (fun _ => hmirrors _) (hmirrors _)

/-!
## Storing
-/

theorem hasRoom_mirrors {n : Nat} {w : World F} (h : HasRoom n w) : Mirrors w := h.1

/-- The graph registers the next memory. -/
theorem NodesPending.register {id : MemoryId} {rest : List MemoryId} {w : World F}
    (h : NodesPending (id :: rest) w) :
    NodesPending rest { w with graph := GraphManager.addMemory w.graph id } := by
  rcases h with ⟨G, hrep, hgraph, hroom⟩
  rw [List.length_cons] at hroom
  have hlen := addMemory_length_le w.graph id
  refine ⟨G.addNode id, hrep.addMemory (by omega) id, ?_, by simp only; omega⟩
  rw [hgraph]
  apply Multigraph.ext
  · simp only [Multigraph.addNode, List.toFinset_cons, Finset.insert_union,
      Finset.union_insert]
  · rfl

theorem nodesPending_of_hasRoom {ids : List MemoryId} {w : World F} {t : Tables F}
    (h : HasRoom ids.length w)
    (hgraph : storedGraph t =
      { storedGraph w.tables with nodes := (storedGraph w.tables).nodes ∪ ids.toFinset }) :
    NodesPending ids { w with tables := t } :=
  ⟨storedGraph w.tables, h.1.1, hgraph, h.2⟩

theorem triple_store [Scalar F] (node : MemoryNode F) :
    Prog.Triple (HasRoom 1) (store env node) (fun _ => Mirrors) Mirrors := by
  have hroom := (viewsGraph_hasRoom (F := F) 1).viewsMemories
  apply Prog.Triple.bind ((keeps_provision hroom [node]).weaken (fun _ h => h)
    (fun _ _ h => h) (fun _ => hasRoom_mirrors))
  intro _
  apply Prog.Triple.bind (Q := fun _ => NodesPending [node.id])
  · apply Prog.triple_gets_bind
    intro dim
    apply (triple_transact hroom.ignoresTicks ?_).weaken (fun _ h => h) (fun _ _ h => h)
      (fun _ => hasRoom_mirrors)
    intro w t hw hrun
    have hone : HasRoom [node.id].length w := hw
    apply nodesPending_of_hasRoom hone
    rw [storedGraph_storeMemoryOn (Tables.storeMemory_ok hrun)]
    apply Multigraph.ext
    · simp only [Multigraph.addNode, List.toFinset_cons, List.toFinset_nil]
      rw [Finset.insert_empty, Finset.union_comm, Finset.singleton_union]
    · rfl
  · intro _
    apply Prog.Triple.bind (Q := fun _ => MirrorsWith [node.id])
    · apply Prog.triple_modify
      intro w hw
      refine ⟨nodesPending_nil hw.register, ?_⟩
      intro id hid
      exact hw.contains hid
    · intro _
      apply Prog.Triple.bind (Q := fun _ => MirrorsWith [node.id])
      · exact Prog.Triple.attempt (keeps_indexMemoryEntities
          (viewsGraph_mirrorsWith _).viewsMemories node)
      · intro _
        apply Prog.triple_ite
        · intro _
          exact triple_runWriteInference node
        · intro _ w hw
          exact hw.1

theorem triple_storeBatch [Scalar F] (nodes : List (MemoryNode F)) :
    Prog.Triple (HasRoom nodes.length) (storeBatch env nodes) (fun _ => Mirrors) Mirrors := by
  have hroom := (viewsGraph_hasRoom (F := F) nodes.length).viewsMemories
  apply Prog.Triple.bind ((keeps_provision hroom nodes).weaken (fun _ h => h)
    (fun _ _ h => h) (fun _ => hasRoom_mirrors))
  intro _
  apply Prog.triple_gets_bind
  intro dim
  apply Prog.Triple.bind (Q := fun _ => NodesPending (nodes.map MemoryNode.id))
  · apply (triple_transact hroom.ignoresTicks ?_).weaken (fun _ h => h) (fun _ _ h => h)
      (fun _ => hasRoom_mirrors)
    intro w t hw hrun
    apply nodesPending_of_hasRoom
    · rw [List.length_map]
      exact hw
    · exact storedGraph_storeMemoryBatch (Tables.storeMemoryBatch_ok hrun)
  · intro _
    apply Prog.Triple.bind (Q := fun _ => NodesPending [])
    · -- the loop registers the memories in order
      apply Prog.Triple.forEach (J := fun rest => NodesPending (rest.map MemoryNode.id))
      intro node rest _
      apply Prog.Triple.bind (Q := fun _ => NodesPending (rest.map MemoryNode.id))
      · exact Prog.triple_modify (fun w hw => hw.register)
      · intro _
        apply Prog.Triple.bind (Q := fun _ => NodesPending (rest.map MemoryNode.id))
        · exact Prog.Triple.attempt
            (keeps_indexMemoryEntities (viewsGraph_nodesPending _).viewsMemories node)
        · exact fun _ => fun w hw => hw
    · exact fun _ => fun w hw => nodesPending_nil hw

/-!
## Policies
-/

/-- A correction or enrichment transaction followed by its mirror in the graph. -/
theorem triple_mirroredTransact [Scalar F] {mutation : CorrectionPolicyMutation F}
    (h : forall e, e ∈ mutation.edges -> e.source ∈ ids ∧ e.target ∈ ids)
    {affected : PolicyAffected} :
    Prog.Triple (MirrorsWith ids) (do
        transact env (Tables.applyCorrectionPolicy mutation)
        mirrorEdges mutation.edges
        pure affected : Op F PolicyAffected)
      (fun _ => Mirrors) Mirrors := by
  apply Prog.Triple.bind (Q := fun _ => EdgesPending mutation.edges)
  · apply (triple_transact (viewsGraph_mirrorsWith ids).viewsMemories.ignoresTicks ?_).weaken
      (fun _ h => h) (fun _ _ h => h) (fun _ hw => hw.1)
    intro w t hw hrun
    apply edgesPending_of_mirrors hw.1 (storedGraph_applyCorrectionPolicy hrun)
    intro e he
    exact ⟨hw.2 _ (h e he).1, hw.2 _ (h e he).2⟩
  · intro _
    apply Prog.Triple.bind (Q := fun _ => Mirrors)
    · exact Prog.triple_modify (fun w hw => hw.addRelationships)
    · exact fun _ => fun w hw => hw

theorem triple_applyCorrectionPolicy [Scalar F] (request : CorrectionRequest) :
    Prog.Triple (MirrorsWith request.oldMemoryId.toList) (applyCorrectionPolicy env request)
      (fun _ => Mirrors) Mirrors := by
  apply Prog.Triple.bind ((triple_getMemory request.newMemoryId).weaken (fun _ h => h)
    (fun _ _ h => h.1) (fun _ h => h.1))
  intro _
  apply Prog.triple_gets_bind
  intro affected
  apply Prog.Triple.bind ((keeps_currentTimeUs
    (viewsGraph_mirrorsWith _).viewsMemories.ignoresTicks).weaken
      (fun _ h => h) (fun _ _ h => h) (fun _ h => h.1))
  intro now
  apply triple_mirroredTransact
  intro e he
  rcases List.mem_map.mp he with ⟨old, hold, heq⟩
  rw [← heq]
  exact ⟨List.mem_cons_self, List.mem_cons_of_mem _ hold⟩

theorem triple_applyEnrichmentPolicy [Scalar F] (request : EnrichmentRequest F) :
    Prog.Triple Mirrors (applyEnrichmentPolicy env request) (fun _ => Mirrors) Mirrors := by
  apply Prog.Triple.bind ((triple_getMemory request.sourceMemoryId).weaken
    (fun _ => mirrorsWith_nil.mpr) (fun _ _ h => h.1) (fun _ h => h.1))
  intro _
  apply Prog.Triple.bind ((triple_getMemory request.targetMemoryId).weaken (fun _ h => h)
    (fun _ _ h => h.1) (fun _ h => h.1))
  intro _
  apply Prog.Triple.bind ((keeps_currentTimeUs
    (viewsGraph_mirrorsWith _).viewsMemories.ignoresTicks).weaken
      (fun _ h => h) (fun _ _ h => h) (fun _ h => h.1))
  intro now
  apply triple_mirroredTransact
  intro e he
  rw [List.mem_singleton.mp he]
  exact ⟨List.mem_cons_of_mem _ List.mem_cons_self, List.mem_cons_self⟩

theorem triple_applyForgetPolicy [Scalar F] (scope : ForgetScope) (mode : ForgetMode) :
    Prog.Triple Mirrors (applyForgetPolicy env scope mode) (fun _ => Mirrors) Mirrors := by
  have hticks : IgnoresTicks (Mirrors : World F -> Prop) := fun _ _ _ h => h
  apply Prog.triple_gets_bind
  intro affected
  apply Prog.Triple.bind (keeps_currentTimeUs hticks)
  intro now
  -- the memories the graph still has to drop
  let dropped := if mode = ForgetMode.hard then affected.memoryIds else []
  apply Prog.Triple.bind (Q := fun _ w => exists G, w.graph.Represents G ∧
    storedGraph w.tables = dropped.foldl Multigraph.removeNode G ∧
    w.graph.idxToId.length <= u32Size)
  · apply triple_transact hticks
    intro w t hw hrun
    refine ⟨storedGraph w.tables, hw.1, ?_, hw.2⟩
    cases mode with
    | soft => exact storedGraph_softForgetOn hrun
    | hard => exact storedGraph_hardForgetOn hw.1.closed hrun
  · intro _
    apply Prog.Triple.bind (Q := fun _ => Mirrors)
    · apply Prog.triple_modify
      intro w hw
      rcases hw with ⟨G, hrep, hgraph, hroom⟩
      rcases hrep.removeMemories dropped with ⟨hlen, hrep'⟩
      constructor
      · rw [hgraph]
        exact hrep'
      · rw [hlen]
        exact hroom
    · exact fun _ => fun w hw => hw

/-!
## Opening
-/

theorem storedGraph_init (t : Tables F) (dim : Nat) : storedGraph (t.init dim) = storedGraph t :=
  rfl

theorem mirrors_openWithConfig {t : Tables F} (h : EdgesStored t)
    (hroom : t.allMemoryIds.length <= u32Size) (speculative : SpeculativeCache F)
    (retrievalConfig : RetrievalConfig F) (phantomConfig : PhantomConfig) (ticks : Nat) :
    Mirrors (openWithConfig t speculative retrievalConfig phantomConfig ticks) := by
  rcases hydrateGraph_represents (t := t.init 0) h hroom with ⟨hlen, hrep⟩
  exact ⟨hrep, hlen.trans hroom⟩

theorem Mirrors.room {w : World F} (h : Mirrors w) : w.tables.allMemoryIds.length <= u32Size := by
  have hnodup : w.tables.allMemoryIds.Nodup := w.tables.memories.rows.nodup
  have hcard := h.1.card_nodes_le
  rw [storedGraph, List.toFinset_card_of_nodup hnodup] at hcard
  exact hcard.trans h.2

theorem Mirrors.openWithConfig {w : World F} (h : Mirrors w) (speculative : SpeculativeCache F)
    (retrievalConfig : RetrievalConfig F) (phantomConfig : PhantomConfig) (ticks : Nat) :
    Mirrors (Facade.openWithConfig w.tables speculative retrievalConfig phantomConfig ticks) :=
  mirrors_openWithConfig h.1.closed h.room speculative retrievalConfig phantomConfig ticks

end Steps

/-!
## Whole runs
-/

/-- The live nodes and edges are those that opening the tables would build. -/
def GraphIsHydration (w : World F) : Prop :=
  let opened := openWithConfig w.tables w.speculative w.retrievalConfig w.phantom.config w.ticks
  w.graph.liveNodes = opened.graph.liveNodes ∧ w.graph.liveEdges = opened.graph.liveEdges

theorem Mirrors.graphIsHydration [DecidableEq F] {w : World F} (h : Mirrors w) :
    GraphIsHydration w := by
  have hopened := h.openWithConfig w.speculative w.retrievalConfig w.phantom.config w.ticks
  have hsame : storedGraph (Facade.openWithConfig w.tables w.speculative w.retrievalConfig
      w.phantom.config w.ticks).tables = storedGraph w.tables := storedGraph_init w.tables 0
  constructor
  · rw [h.1.liveNodes_eq, hopened.1.liveNodes_eq, hsame]
  · rw [h.1.liveEdges_eq, hopened.1.liveEdges_eq, hsame]

inductive Command (F : Type) where
  | store (node : MemoryNode F)
  | storeBatch (nodes : List (MemoryNode F))
  | relate (edge : MemoryEdge F)
  | applyCorrectionPolicy (request : CorrectionRequest)
  | applyEnrichmentPolicy (request : EnrichmentRequest F)
  | applyForgetPolicy (scope : ForgetScope) (mode : ForgetMode)
  | reopen (speculative : SpeculativeCache F)

namespace Command

section Semantics

variable [Scalar F]

/-- The state after a command, whether it succeeded or not. -/
def step (env : Env F) (w : World F) : Command F -> World F
  | Command.store node => (Facade.store env node w).2
  | Command.storeBatch nodes => (Facade.storeBatch env nodes w).2
  | Command.relate edge => (Facade.relate env edge w).2
  | Command.applyCorrectionPolicy request => (Facade.applyCorrectionPolicy env request w).2
  | Command.applyEnrichmentPolicy request => (Facade.applyEnrichmentPolicy env request w).2
  | Command.applyForgetPolicy scope mode => (Facade.applyForgetPolicy env scope mode w).2
  | Command.reopen speculative => (Facade.reopen speculative w).2

end Semantics

/-- A relate names stored memories, a correction an old memory that is stored,
and a store finds an unused index. -/
def Joins (w : World F) : Command F -> Prop
  | Command.store _ => w.graph.idxToId.length + 1 <= u32Size
  | Command.storeBatch nodes => w.graph.idxToId.length + nodes.length <= u32Size
  | Command.relate edge =>
      w.tables.memories.contains edge.source = true ∧
        w.tables.memories.contains edge.target = true
  | Command.applyCorrectionPolicy request =>
      forall old, request.oldMemoryId = some old -> w.tables.memories.contains old = true
  | Command.applyEnrichmentPolicy _ => True
  | Command.applyForgetPolicy _ _ => True
  | Command.reopen _ => True

theorem step_mirrors [Scalar F] {env : Env F} {w : World F} {c : Command F} (h : Mirrors w)
    (hjoins : c.Joins w) : Mirrors (c.step env w) := by
  cases c with
  | store node => exact (triple_store node).state ⟨h, hjoins⟩
  | storeBatch nodes => exact (triple_storeBatch nodes).state ⟨h, hjoins⟩
  | relate edge =>
      have hkeeps : Prog.Keeps (MirrorsWith [edge.source, edge.target])
          (Facade.relate env edge) :=
        keeps_relate (by simp) (by simp)
      have hwith : MirrorsWith [edge.source, edge.target] w := by
        refine ⟨h, ?_⟩
        intro id hid
        rcases List.mem_cons.mp hid with heq | hmem
        · rw [heq]
          exact hjoins.1
        · rw [List.mem_singleton.mp hmem]
          exact hjoins.2
      exact (hkeeps.state hwith).1
  | applyCorrectionPolicy request =>
      apply (triple_applyCorrectionPolicy request).state
      refine ⟨h, ?_⟩
      intro id hid
      exact hjoins id (Option.mem_toList.mp hid)
  | applyEnrichmentPolicy request => exact (triple_applyEnrichmentPolicy request).state h
  | applyForgetPolicy scope mode => exact (triple_applyForgetPolicy scope mode).state h
  | reopen speculative => exact h.openWithConfig _ _ _ _

end Command

/-- A relate that returns an error leaves the edge rows alone. -/
def RelateErrorKeepsEdges (env : Env F) (w : World F) (edge : MemoryEdge F) : Prop :=
  forall e, (relate env edge w).1 = Except.error e ->
    (relate env edge w).2.tables.edges = w.tables.edges

theorem Mirrors.relateErrorKeepsEdges {env : Env F} {w : World F} {edge : MemoryEdge F}
    (h : Mirrors w) (hs : w.tables.memories.contains edge.source = true)
    (ht : w.tables.memories.contains edge.target = true) :
    RelateErrorKeepsEdges env w edge := by
  rcases h.1.addRelationship_ok (mem_storedGraph_nodes.mpr hs) (mem_storedGraph_nodes.mpr ht)
    with ⟨g', hok, _⟩
  intro e herror
  cases hfault : env.fault w.ticks with
  | some e' =>
      show (Prog.bind _ _ w).2.tables.edges = w.tables.edges
      simp only [Prog.bind, transact, hfault]
  | none =>
      -- the edge is committed and the graph takes it, so there is no error
      exfalso
      have hsuccess : (relate env edge w).1 = Except.ok () := by
        show (Prog.bind _ _ w).1 = Except.ok ()
        simp only [Prog.bind, transact, hfault, Tables.addEdgeOn, onGraph, hok]
      rw [hsuccess] at herror
      cases herror

theorem graph_is_hydration_of_run [Scalar F] {env : Env F} {t : Tables F}
    {speculative : SpeculativeCache F} {retrievalConfig : RetrievalConfig F}
    {phantomConfig : PhantomConfig} {ticks : Nat} (hstart : EdgesStored t)
    (hsize : t.allMemoryIds.length <= u32Size)
    {commands : List (Command F)} {w : World F}
    (hrun : Run (Command.step env) Command.Joins
      (openWithConfig t speculative retrievalConfig phantomConfig ticks) commands w) :
    GraphIsHydration w ∧
      forall edge, (Command.relate edge).Joins w -> RelateErrorKeepsEdges env w edge := by
  have hmirrors : Mirrors w :=
    hrun.invariant (fun _ _ hw hjoins => Command.step_mirrors hw hjoins)
      (mirrors_openWithConfig hstart hsize speculative retrievalConfig phantomConfig ticks)
  exact ⟨hmirrors.graphIsHydration,
    fun edge hjoins => hmirrors.relateErrorKeepsEdges hjoins.1 hjoins.2⟩

section Examples

def firstMemory : MemoryNode Rat :=
  MemoryNode.new ⟨1⟩ 1000 AgentId.nil MemoryType.semantic "first" []

def secondMemory : MemoryNode Rat :=
  MemoryNode.new ⟨2⟩ 1000 AgentId.nil MemoryType.semantic "second" []

def firstToSecond : MemoryEdge Rat := inferredEdge 1000 ⟨1⟩ ⟨2⟩ EdgeType.related 1 none

/-- The state of the empty database after some commands. -/
def worldAfter (commands : List (Command Rat)) : World Rat :=
  commands.foldl (Command.step (calmEnv CognitiveConfig.default)) emptyWorld

theorem graph_is_hydration_of_run_joined :
    Multiset.card (worldAfter [Command.store firstMemory, Command.store secondMemory,
        Command.relate firstToSecond]).graph.liveEdges = 1 ∧
      GraphIsHydration (worldAfter [Command.store firstMemory, Command.store secondMemory,
        Command.relate firstToSecond]) := by
  have hrun : Run (Command.step (calmEnv CognitiveConfig.default)) Command.Joins emptyWorld
      [Command.store firstMemory, Command.store secondMemory, Command.relate firstToSecond]
      (worldAfter [Command.store firstMemory, Command.store secondMemory,
        Command.relate firstToSecond]) := by
    have h0 : Run (Command.step (calmEnv CognitiveConfig.default)) Command.Joins emptyWorld []
        emptyWorld := Run.nil _
    have h1 := h0.snoc (i := Command.store firstMemory) (by
      unfold Command.Joins
      decide +kernel)
    have h2 := h1.snoc (i := Command.store secondMemory) (by
      unfold Command.Joins
      decide +kernel)
    exact h2.snoc (i := Command.relate firstToSecond)
      ⟨by decide +kernel, by decide +kernel⟩
  have hstart : EdgesStored (Tables.empty : Tables Rat) := by
    intro e he
    cases he
  exact ⟨by decide +kernel, (graph_is_hydration_of_run hstart (by decide +kernel) hrun).1⟩

/-- An edge to a memory that is not there yet is committed although the relate
fails; once the memory is stored, opening the tables would show the edge. -/
theorem failed_relate_is_committed :
    (relate (calmEnv CognitiveConfig.default) firstToSecond
        (worldAfter [Command.store firstMemory])).1 =
      Except.error (MenteError.memoryNotFound ⟨2⟩) ∧
    (worldAfter [Command.store firstMemory]).tables.edges.length = 0 ∧
    (worldAfter [Command.store firstMemory,
      Command.relate firstToSecond]).tables.edges.length = 1 ∧
    ¬ RelateErrorKeepsEdges (calmEnv CognitiveConfig.default)
      (worldAfter [Command.store firstMemory]) firstToSecond ∧
    ¬ GraphIsHydration (worldAfter [Command.store firstMemory, Command.relate firstToSecond,
      Command.store secondMemory]) := by
  have herror : (relate (calmEnv CognitiveConfig.default) firstToSecond
      (worldAfter [Command.store firstMemory])).1 =
      Except.error (MenteError.memoryNotFound ⟨2⟩) := by decide +kernel
  have hbefore : (worldAfter [Command.store firstMemory]).tables.edges.length = 0 := by
    decide +kernel
  have hafter : (worldAfter [Command.store firstMemory,
      Command.relate firstToSecond]).tables.edges.length = 1 := by decide +kernel
  refine ⟨herror, hbefore, hafter, ?_, ?_⟩
  · intro hkeeps
    have hsame := congrArg List.length (hkeeps _ herror)
    rw [hbefore] at hsame
    rw [show (worldAfter [Command.store firstMemory, Command.relate firstToSecond]) =
      (relate (calmEnv CognitiveConfig.default) firstToSecond
        (worldAfter [Command.store firstMemory])).2 from rfl, hsame] at hafter
    cases hafter
  · intro hhydration
    have hcards := congrArg Multiset.card hhydration.2
    revert hcards
    decide +kernel

end Examples

end Facade
end MenteDb
