import MenteDb.Facade.Consistency
import MenteDb.Facade.Ownership
import MenteDb.Facade.Turn
import MenteDb.Foundation.Acyclic

/-!
# Which memories hide which

Recall leaves out a memory that another one supersedes or contradicts.  The
inference rules draw such edges from the memory that is being written, whichever
of the two is older, so a memory that is written again can come to hide the one
that hides it.  The edges stay without cycles as long as no rule fires for a
memory that already hides the written one.
-/

namespace MenteDb
namespace Facade

open Foundation
open Sqlite
open MenteDb.Graph
open Cognitive
open Relation
open Graph.CsrGraph

variable {F : Type}

/-- Edges of this type hide their target. -/
def hidingType (edgeType : EdgeType) : Bool :=
  decide (edgeType = EdgeType.supersedes) || decide (edgeType = EdgeType.contradicts)

/-- A stored edge by which the first memory hides the second. -/
def Hides (t : Tables F) (x y : MemoryId) : Prop :=
  exists e, e ∈ t.allEdges ∧ e.source = x ∧ e.target = y ∧ hidingType e.edgeType = true

theorem hides_addEdgeOn {t t' : Tables F} {edge : MemoryEdge F} {x y : MemoryId}
    (hrun : Tables.addEdgeOn edge t = Except.ok t') (h : Hides t' x y) :
    Hides t x y ∨ edge.source = x ∧ edge.target = y ∧ hidingType edge.edgeType = true := by
  cases hrun
  rcases h with ⟨e, he, hends⟩
  unfold Tables.allEdges at he
  rw [List.map_append, List.map_singleton, Tables.edgeOfRow_rowOfEdge] at he
  rcases List.mem_append.mp he with hold | hnew
  · exact Or.inl ⟨e, hold, hends⟩
  · rw [List.mem_singleton.mp hnew] at hends
    exact Or.inr hends

theorem hides_of_edges {t t' : Tables F} {x y : MemoryId} (hedges : t'.edges = t.edges)
    (h : Hides t' x y) : Hides t x y := by
  unfold Hides Tables.allEdges at h ⊢
  rw [hedges] at h
  exact h

/-!
## What the rules draw
-/

section Draws

variable [Scalar F]

/-- One of the rules draws a hiding edge from the new memory to the existing one. -/
def Draws (config : WriteInferenceConfig F) (new existing : MemoryNode F) : Prop :=
  (config.contradictionThreshold < cosineSimilarity new.embedding existing.embedding ∧
    existing.agentId = new.agentId ∧ existing.content ≠ new.content) ∨
  (config.obsoleteThreshold < cosineSimilarity new.embedding existing.embedding ∧
    existing.createdAt < new.createdAt) ∨
  (new.memoryType = MemoryType.correction ∧
    config.correctionThreshold < cosineSimilarity new.embedding existing.embedding)

instance (config : WriteInferenceConfig F) (new existing : MemoryNode F) :
    Decidable (Draws config new existing) := inferInstanceAs (Decidable (_ ∨ _))

omit [Scalar F] in
/-- What the rules look at. -/
def traits (node : MemoryNode F) : AgentId × MemoryType × List F × String × Timestamp :=
  (node.agentId, node.memoryType, node.embedding, node.content, node.createdAt)

theorem Draws.congr {config : WriteInferenceConfig F} {new new' existing existing' : MemoryNode F}
    (hnew : traits new = traits new') (hexisting : traits existing = traits existing')
    (h : Draws config new existing) : Draws config new' existing' := by
  simp only [traits, Prod.mk.injEq] at hnew hexisting
  rcases hnew with ⟨hagent, htype, hembedding, hcontent, hcreated⟩
  rcases hexisting with ⟨hagent', _, hembedding', hcontent', hcreated'⟩
  unfold Draws at h ⊢
  rw [hagent, htype, hembedding, hcontent, hcreated, hagent', hembedding', hcontent',
    hcreated'] at h
  exact h

theorem Spares.of_traits {config : WriteInferenceConfig F}
    {new new' existing existing' : MemoryNode F}
    (hnew : traits new = traits new') (hexisting : traits existing = traits existing')
    (h : Spares config new existing) : Spares config new' existing' := by
  simp only [traits, Prod.mk.injEq] at hnew hexisting
  rcases hnew with ⟨_, htype, hembedding, _, hcreated⟩
  rcases hexisting with ⟨_, _, hembedding', _, hcreated'⟩
  unfold Spares at h ⊢
  rw [htype, hembedding, hcreated, hembedding', hcreated'] at h
  exact h

/-- An action that follows from the rules for a pair of memories: what it draws, and
what it writes again. -/
inductive Follows (config : WriteInferenceConfig F) (new existing : MemoryNode F) :
    InferredAction F -> Prop where
  | contradiction (reason : String) : Draws config new existing ->
      Follows config new existing (InferredAction.flagContradiction existing.id new.id reason)
  | obsolete : Draws config new existing -> ¬ Spares config new existing ->
      Follows config new existing (InferredAction.markObsolete existing.id new.id)
  | invalid : Draws config new existing -> ¬ Spares config new existing ->
      Follows config new existing
        (InferredAction.invalidateMemory existing.id new.id new.createdAt)
  | related (weight : F) :
      Follows config new existing
        (InferredAction.createEdge new.id existing.id EdgeType.related weight)
  | corrected : Draws config new existing ->
      Follows config new existing
        (InferredAction.createEdge new.id existing.id EdgeType.supersedes 1)
  | confidence (c : F) : ¬ Spares config new existing ->
      Follows config new existing (InferredAction.updateConfidence existing.id c)

theorem follows_inferForPair {text : TextOps F} {config : WriteInferenceConfig F}
    {new existing : MemoryNode F} {action : InferredAction F}
    (h : action ∈ inferForPair text config new existing) :
    Follows config new existing action := by
  unfold inferForPair at h
  simp only [List.mem_append] at h
  rcases h with (h | h) | h
  · split at h
    · rename_i hc
      rw [List.mem_singleton.mp h]
      exact Follows.contradiction _ (Or.inl hc)
    · cases h
  · split at h
    · rename_i hc
      have hdraws : Draws config new existing := Or.inr (Or.inl hc)
      have hrewrites : ¬ Spares config new existing := fun hspares => hspares.1 hc
      rcases List.mem_cons.mp h with heq | hmem
      · rw [heq]
        exact Follows.obsolete hdraws hrewrites
      · rw [List.mem_singleton.mp hmem]
        exact Follows.invalid hdraws hrewrites
    · cases h
  · split at h
    · rw [List.mem_singleton.mp h]
      exact Follows.related _
    · cases h

theorem follows_inferCorrection {config : WriteInferenceConfig F} {new : MemoryNode F}
    {existing : List (MemoryNode F)} {action : InferredAction F}
    (h : action ∈ inferCorrection config new existing) :
    exists m, m ∈ existing ∧ Follows config new m action := by
  rcases mem_inferCorrection h with ⟨original, horiginal, htype, hthreshold, heq | heq⟩
  · rw [heq]
    exact ⟨original, horiginal, Follows.corrected (Or.inr (Or.inr ⟨htype, hthreshold⟩))⟩
  · rw [heq]
    exact ⟨original, horiginal,
      Follows.confidence _ (fun hspares => hspares.2 ⟨htype, hthreshold⟩)⟩

/-- Every inferred action follows from one of the other memories it is given. -/
theorem follows_inferOnWrite {text : TextOps F} {config : WriteInferenceConfig F}
    {new : MemoryNode F} {existing : List (MemoryNode F)} {action : InferredAction F}
    (h : action ∈ inferOnWrite text config new existing) :
    exists m, m ∈ existing ∧ m.id ≠ new.id ∧ Follows config new m action := by
  have hother : forall m, m ∈ existing.filter (fun m => decide (m.id ≠ new.id)) ->
      m ∈ existing ∧ m.id ≠ new.id := by
    intro m hm
    have hparts := List.mem_filter.mp hm
    exact ⟨hparts.1, of_decide_eq_true hparts.2⟩
  rcases List.mem_append.mp h with hpair | hcorrection
  · rcases List.mem_flatMap.mp hpair with ⟨m, hm, haction⟩
    exact ⟨m, (hother m hm).1, (hother m hm).2, follows_inferForPair haction⟩
  · rcases follows_inferCorrection hcorrection with ⟨m, hm, haction⟩
    exact ⟨m, (hother m hm).1, (hother m hm).2, haction⟩

end Draws

/-!
## What a store can add

A bound on the hiding edges, kept by every step of a store.  The bound is about
the memories as they were before, so it has to be known that none of the steps
changes what the rules look at.
-/

section Bound

variable [Scalar F] {env : Env F} {t0 : Tables F} {free : MemoryId -> Prop}
  {R : MemoryId -> MemoryId -> Prop}

omit [Scalar F] in
/-- To the rules the memory is the one in the given tables, unless its identifier is
one of those left open. -/
def Known (t0 : Tables F) (free : MemoryId -> Prop) (node : MemoryNode F) : Prop :=
  free node.id ∨ exists n, t0.getMemory node.id = some n ∧ traits node = traits n

omit [Scalar F] in
structure Bounded (t0 : Tables F) (free : MemoryId -> Prop) (R : MemoryId -> MemoryId -> Prop)
    (w : World F) : Prop where
  hides : forall x y, Hides w.tables x y -> R x y
  known : forall id node, w.tables.getMemory id = some node -> Known t0 free node

omit [Scalar F] in
theorem Known.of_traits {node node' : MemoryNode F} (h : Known t0 free node)
    (hid : node'.id = node.id) (htraits : traits node' = traits node) : Known t0 free node' := by
  unfold Known
  rw [hid, htraits]
  exact h

omit [Scalar F] in
theorem viewsMemories_bounded : ViewsMemories (Bounded t0 free R : World F -> Prop) := by
  intro w w' _ hmemories htags hedges _ hw
  constructor
  · intro x y hxy
    exact hw.hides x y (hides_of_edges hedges hxy)
  · intro id node hget
    apply hw.known id
    unfold Tables.getMemory Tables.tagsOf at hget ⊢
    rw [hmemories, htags] at hget
    exact hget

omit [Scalar F] in
theorem keeps_relate_bounded {edge : MemoryEdge F}
    (h : hidingType edge.edgeType = true -> R edge.source edge.target) :
    Prog.Keeps (Bounded t0 free R) (relate env edge) := by
  apply Prog.Keeps.bind
  · apply keeps_transact viewsMemories_bounded.ignoresTicks
    intro w t hw hrun
    constructor
    · intro x y hxy
      rcases hides_addEdgeOn hrun hxy with hold | ⟨hx, hy, htype⟩
      · exact hw.hides x y hold
      · rw [← hx, ← hy]
        exact h htype
    · intro id node hget
      cases hrun
      exact hw.known id node hget
  · intro _
    exact keeps_onGraph (fun _ _ hw => ⟨hw.hides, hw.known⟩)

/-- A stored memory as the rules see it: a row that was there keeps its creation
time. -/
theorem traits_storeMemoryOn {t t' : Tables F} {node stored : MemoryNode F} {dim : Nat}
    (hrun : Tables.storeMemoryOn node dim t = Except.ok t')
    (hget : t'.getMemory node.id = some stored) :
    (t.getMemory node.id = none ∧ traits stored = traits node) ∨
      exists old, t.getMemory node.id = some old ∧
        traits stored = traits { node with createdAt := old.createdAt } := by
  unfold Tables.getMemory at hget ⊢
  rw [Tables.storeMemoryOn_find? hrun, if_pos rfl] at hget
  have hread : forall (row : MemoryRow F) (createdAt : Timestamp) (rowid : Nat)
      (tags : List String), row = { Tables.rowOfNode node createdAt with rowid := rowid } ->
      traits (Tables.nodeOfRow node.id row tags) = traits { node with createdAt := createdAt } := by
    intro row createdAt rowid tags hrow
    have hembedding : (if node.embedding.isEmpty then none else some node.embedding).getD [] =
        node.embedding := by
      cases node.embedding with
      | nil => rfl
      | cons x rest => rfl
    rw [hrow]
    simp only [traits, Tables.nodeOfRow, Tables.rowOfNode, parseMemoryType_memoryTypeStr,
      hembedding]
  cases hold : t.memories.find? node.id with
  | none =>
      rw [hold] at hget
      cases hget
      exact Or.inl ⟨rfl, hread _ _ _ _ rfl⟩
  | some row =>
      rw [hold] at hget
      cases hget
      exact Or.inr ⟨_, rfl, hread _ _ _ _ rfl⟩

theorem keeps_dbStoreMemory_bounded {node : MemoryNode F} (hnode : Known t0 free node) :
    Prog.Keeps (Bounded t0 free R) (dbStoreMemory env node) := by
  apply Prog.Keeps.bind (Prog.keeps_gets _)
  intro dim
  apply keeps_transact viewsMemories_bounded.ignoresTicks
  intro w t hw hrun
  have hstore := Tables.storeMemory_ok hrun
  constructor
  · intro x y hxy
    exact hw.hides x y (hides_of_edges (Tables.storeMemoryOn_edges hstore) hxy)
  · intro id stored hget
    by_cases hid : id = node.id
    · rw [hid] at hget
      have hsame := Tables.getMemory_id hget
      rcases hnode with hfree | ⟨n, hn, htraits⟩
      · refine Or.inl ?_
        rw [hsame]
        exact hfree
      rcases traits_storeMemoryOn hstore hget with ⟨_, hnew⟩ | ⟨old, hold, hkept⟩
      · refine Or.inr ⟨n, ?_, hnew.trans htraits⟩
        rw [hsame]
        exact hn
      · rcases hw.known _ old hold with hfree | ⟨n', hn', htraits'⟩
        · refine Or.inl ?_
          rw [hsame, ← Tables.getMemory_id hold]
          exact hfree
        · -- the row keeps a creation time that both versions of the memory have
          rw [Tables.getMemory_id hold, hn] at hn'
          cases hn'
          refine Or.inr ⟨n, ?_, ?_⟩
          · rw [hsame]
            exact hn
          · rw [hkept]
            simp only [traits, Prod.mk.injEq] at htraits htraits' ⊢
            exact ⟨htraits.1, htraits.2.1, htraits.2.2.1, htraits.2.2.2.1, htraits'.2.2.2.2⟩
    · have hbefore : w.tables.getMemory id = some stored := by
        rw [← hget]
        symm
        apply Tables.getMemory_congr
        · rw [Tables.storeMemoryOn_find? hstore, if_neg hid]
        · intro tag
          rw [Tables.storeMemoryOn_tags hstore]
          simp [hid]
      exact hw.known id stored hbefore

theorem keeps_storeBack_bounded {node : MemoryNode F} (hnode : Known t0 free node) :
    Prog.Keeps (Bounded t0 free R) (do
      dbStoreMemory env node
      emitLifecycleEvent env) := by
  apply Prog.Keeps.bind (keeps_dbStoreMemory_bounded hnode)
  intro _
  exact keeps_emitLifecycleEvent viewsMemories_bounded

theorem keeps_invalidateMemory_bounded (id : MemoryId) (at_ : Timestamp) :
    Prog.Keeps (Bounded t0 free R) (invalidateMemory env id at_) := by
  apply Prog.Triple.bind (Q := fun node w => Bounded t0 free R w ∧ Known t0 free node)
  · intro w hw
    unfold getMemory
    cases hget : w.tables.getMemory id with
    | none => exact hw
    | some node => exact ⟨hw, hw.known id node hget⟩
  · intro node w hw
    have hback : Prog.Keeps (Bounded t0 free R) (do
        dbStoreMemory env (node.invalidate at_)
        emitLifecycleEvent env) := keeps_storeBack_bounded (hw.2.of_traits rfl rfl)
    exact hback w hw.1

theorem keeps_rewriteMemory_bounded (id : MemoryId) {f : MemoryNode F -> MemoryNode F}
    (hf : forall node, (f node).id = node.id ∧ traits (f node) = traits node) :
    Prog.Keeps (Bounded t0 free R) (rewriteMemory env id f) := by
  apply Prog.Triple.bind (Q := fun loaded w => Bounded t0 free R w ∧
    forall node, loaded = some node -> Known t0 free node)
  · apply Prog.triple_gets
    intro w hw
    exact ⟨hw, fun node hget => hw.known id node hget⟩
  · intro loaded w hw
    cases loaded with
    | none => exact hw.1
    | some node =>
        have hknown : Known t0 free (f node) :=
          (hw.2 node rfl).of_traits (hf node).1 (hf node).2
        exact keeps_storeBack_bounded hknown w hw.1

theorem keeps_applyInferredAction_bounded {config : WriteInferenceConfig F}
    {new existing : MemoryNode F} {action : InferredAction F}
    (haction : Follows config new existing action)
    (hdraws : Draws config new existing -> R new.id existing.id) :
    Prog.Keeps (Bounded t0 free R) (applyInferredAction env action) := by
  have hemit : Prog.Keeps (Bounded t0 free R) (emitLifecycleEvent env) :=
    keeps_emitLifecycleEvent viewsMemories_bounded
  have hnow : Prog.Keeps (Bounded t0 free R) (currentTimeUs env) :=
    keeps_currentTimeUs viewsMemories_bounded.ignoresTicks
  have hrelate : Draws config new existing -> forall now edgeType weight label,
      Prog.Keeps (Bounded t0 free R)
        (relate env (inferredEdge now new.id existing.id edgeType weight label)) :=
    fun hdraw _ _ _ _ => keeps_relate_bounded (fun _ => hdraws hdraw)
  cases haction with
  | contradiction reason hdraw =>
      apply Prog.Keeps.bind hnow
      intro now
      exact Prog.Keeps.bind (hrelate hdraw _ _ _ _) (fun _ => hemit)
  | obsolete hdraw _ =>
      apply Prog.Keeps.bind hnow
      intro now
      apply Prog.Keeps.bind (keeps_invalidateMemory_bounded _ _)
      intro _
      exact Prog.Keeps.bind (hrelate hdraw _ _ _ _) (fun _ => hemit)
  | invalid hdraw _ =>
      apply Prog.Keeps.bind (keeps_invalidateMemory_bounded _ _)
      intro _
      apply Prog.Keeps.bind hnow
      intro now
      exact Prog.Keeps.bind (hrelate hdraw _ _ _ _) (fun _ => hemit)
  | related weight =>
      apply Prog.Keeps.bind hnow
      intro now
      apply keeps_relate_bounded
      intro htype
      cases htype
  | corrected hdraw => exact Prog.Keeps.bind hnow (fun _ => hrelate hdraw _ _ _ _)
  | confidence c _ => exact keeps_rewriteMemory_bounded _ (fun _ => ⟨rfl, rfl⟩)

/-- The bound allows what the rules draw from a memory. -/
def Allows (t0 : Tables F) (free : MemoryId -> Prop) (R : MemoryId -> MemoryId -> Prop)
    (config : WriteInferenceConfig F) (new : MemoryNode F) : Prop :=
  forall m, Known t0 free m -> m.id ≠ new.id -> Draws config new m -> R new.id m.id

theorem keeps_runWriteInference_bounded {new : MemoryNode F}
    (hallows : Allows t0 free R env.config.inferenceConfig new) :
    Prog.Keeps (Bounded t0 free R) (runWriteInference env new) := by
  apply keeps_runWriteInference_of (P := Known t0 free)
    (keeps_currentTimeUs viewsMemories_bounded.ignoresTicks)
    (fun w id m hw hget => hw.known id m hget)
  intro existing action hexisting haction
  rcases follows_inferOnWrite haction with ⟨m, hm, hne, hfollows⟩
  exact keeps_applyInferredAction_bounded hfollows (hallows m (hexisting m hm) hne)

theorem keeps_store_bounded {node : MemoryNode F} (hnode : Known t0 free node)
    (hallows : env.config.writeInference = true ->
      Allows t0 free R env.config.inferenceConfig node) :
    Prog.Keeps (Bounded t0 free R) (store env node) :=
  keeps_store_of (keeps_provision viewsMemories_bounded [node])
    (keeps_dbStoreMemory_bounded hnode) (fun _ hw => ⟨hw.hides, hw.known⟩)
    (keeps_indexMemoryEntities viewsMemories_bounded node)
    (fun hinference => keeps_runWriteInference_bounded (hallows hinference))

/-!
### The pass of a turn
-/

omit [Scalar F] in
theorem keeps_relateOrSkip_bounded {edge : MemoryEdge F}
    (h : hidingType edge.edgeType = true -> R edge.source edge.target) :
    Prog.Keeps (Bounded t0 free R) (relateOrSkip env edge) := by
  apply Prog.Keeps.bind (keeps_relate_bounded h).attempt
  intro _
  exact Prog.keeps_pure 1

theorem keeps_storeAgain_bounded {id : MemoryId} {f : MemoryNode F -> MemoryNode F}
    (hf : forall node, (f node).id = node.id ∧ traits (f node) = traits node)
    (hallows : env.config.writeInference = true -> forall node, Known t0 free node ->
      node.id = id -> Allows t0 free R env.config.inferenceConfig node) :
    Prog.Keeps (Bounded t0 free R) (storeAgain env id f) := by
  apply Prog.Triple.bind (Q := fun loaded w => Bounded t0 free R w ∧
    forall node, loaded = some node -> Known t0 free node ∧ node.id = id)
  · apply Prog.triple_gets
    intro w hw
    exact ⟨hw, fun node hget => ⟨hw.known id node hget, Tables.getMemory_id hget⟩⟩
  · intro loaded w hw
    cases loaded with
    | none => exact hw.1
    | some node =>
        have hloaded := hw.2 node rfl
        have hknown : Known t0 free (f node) := hloaded.1.of_traits (hf node).1 (hf node).2
        have hstore : Prog.Keeps (Bounded t0 free R) (store env (f node)) :=
          keeps_store_bounded hknown (fun hinference =>
            hallows hinference (f node) hknown ((hf node).1.trans hloaded.2))
        have hcounted : Prog.Keeps (Bounded t0 free R) (do
            let _ ← Prog.attempt (store env (f node))
            pure 1) := Prog.Keeps.bind hstore.attempt (fun _ => Prog.keeps_pure 1)
        exact hcounted w hw.1

theorem keeps_applyExplicitAction_bounded {config : WriteInferenceConfig F}
    {target existing : MemoryNode F} {action : InferredAction F}
    (haction : Follows config target existing action)
    (hdraws : Draws config target existing -> R target.id existing.id)
    (hallows : ¬ Spares config target existing -> env.config.writeInference = true ->
      forall node, Known t0 free node -> node.id = existing.id ->
        Allows t0 free R env.config.inferenceConfig node) (now : Timestamp) :
    Prog.Keeps (Bounded t0 free R) (applyExplicitAction env now action) := by
  cases haction with
  | contradiction reason hdraw => exact keeps_relateOrSkip_bounded (fun _ => hdraws hdraw)
  | obsolete hdraw _ => exact keeps_relateOrSkip_bounded (fun _ => hdraws hdraw)
  | invalid _ hrewrites => exact keeps_storeAgain_bounded (fun _ => ⟨rfl, rfl⟩) (hallows hrewrites)
  | related weight =>
      apply keeps_relateOrSkip_bounded
      intro htype
      cases htype
  | corrected hdraw => exact keeps_relateOrSkip_bounded (fun _ => hdraws hdraw)
  | confidence c hrewrites =>
      exact keeps_storeAgain_bounded (fun _ => ⟨rfl, rfl⟩) (hallows hrewrites)

end Bound

/-!
## Edges of the graph are stored
-/

section Covered

variable {env : Env F}

/-- Every edge of the graph has a row, or the graph has run out of indices. -/
def EdgesCovered (w : World F) : Prop :=
  u32Size <= w.graph.idxToId.length ∨
    exists G, w.graph.Represents G ∧ forall e, e ∈ G.edges -> e ∈ (storedGraph w.tables).edges

theorem Mirrors.edgesCovered {w : World F} (h : Mirrors w) : EdgesCovered w :=
  Or.inr ⟨_, h.1, fun _ he => he⟩

theorem edgesCovered_addEdgeOn {w : World F} {t : Tables F} {edge : MemoryEdge F}
    (h : EdgesCovered w) (hrun : Tables.addEdgeOn edge w.tables = Except.ok t) :
    EdgesCovered { w with tables := t } ∧ labelled edge ∈ (storedGraph t).edges := by
  have hedges : (storedGraph t).edges = labelled edge ::ₘ (storedGraph w.tables).edges := by
    rw [storedGraph_addEdgeOn hrun]
  constructor
  · refine h.imp_right ?_
    intro hcovered
    rcases hcovered with ⟨G, hrep, hsub⟩
    refine ⟨G, hrep, ?_⟩
    intro e he
    rw [hedges]
    exact Multiset.mem_cons_of_mem (hsub e he)
  · rw [hedges]
    exact Multiset.mem_cons_self _ _

theorem edgesCovered_of_same {w w' : World F} (hgraph : w'.graph = w.graph)
    (hedges : w'.tables.edges = w.tables.edges) (hw : EdgesCovered w) : EdgesCovered w' := by
  have hstored : (storedGraph w'.tables).edges = (storedGraph w.tables).edges := by
    simp only [storedGraph, Tables.allEdges]
    rw [hedges]
  unfold EdgesCovered
  rw [hgraph, hstored]
  exact hw

theorem writeClosed_edgesCovered [Scalar F] :
    WriteClosed env (EdgesCovered : World F -> Prop) where
  views w w' hgraph _ _ hedges _ hw := edgesCovered_of_same hgraph hedges hw
  storeOn w t node dim hw hrun :=
    edgesCovered_of_same (w := w) rfl (Tables.storeMemoryOn_edges hrun) hw
  register w id hw := by
    rcases hw with hfull | ⟨G, hrep, hsub⟩
    · exact Or.inl (hfull.trans (CsrGraph.addNode_length_le w.graph id))
    · by_cases hroom : w.graph.idxToId.length < u32Size
      · exact Or.inr ⟨G.addNode id, hrep.addMemory hroom id, hsub⟩
      · exact Or.inl ((not_lt.mp hroom).trans (CsrGraph.addNode_length_le w.graph id))
  relate edge := by
    apply Prog.Triple.bind (Q := fun _ w => EdgesCovered w ∧
      labelled edge ∈ (storedGraph w.tables).edges)
    · apply triple_transact
      · intro w n _ hw
        exact hw
      · intro w t hw hrun
        exact edgesCovered_addEdgeOn hw hrun
    · intro _ w hw
      unfold onGraph
      simp only
      cases hadd : GraphManager.addRelationship w.graph edge with
      | error e => exact hw.1
      | ok g =>
          have hskip : GraphManager.addRelationshipOrSkip w.graph edge = g := by
            unfold GraphManager.addRelationshipOrSkip
            rw [hadd]
          rcases hw.1 with hfull | ⟨G, hrep, hsub⟩
          · refine Or.inl (hfull.trans ?_)
            exact addRelationship_length_le hadd
          · have hafter := (hrep.addRelationshipOrSkip edge).2
            rw [hskip] at hafter
            refine Or.inr ⟨_, hafter, ?_⟩
            intro e he
            split at he
            · rcases Multiset.mem_cons.mp he with heq | hold
              · rw [heq]
                exact hw.2
              · exact hsub e hold
            · exact hsub e he

/-- An edge that recall looks at is stored. -/
theorem EdgesCovered.hides {w : World F} (h : EdgesCovered w)
    (hroom : w.graph.idxToId.length < u32Size) {x y : MemoryId} {e : StoredEdge F}
    {at_ : Timestamp} (hincoming : (x, e) ∈ w.graph.incoming y)
    (hhiding : hidingEdge at_ e = true) : Hides w.tables x y := by
  rcases h with hfull | ⟨G, ⟨base, hpic⟩, hsub⟩
  · exact absurd hroom (not_lt.mpr hfull)
  have hin : (x, e) ∈ G.inEdges y := by
    rw [← hpic.incoming_eq y]
    exact hincoming
  rcases Multiset.mem_map.mp hin with ⟨labelledEdge, hmem, hparts⟩
  have hedge := Multiset.mem_filter.mp hmem
  rcases List.mem_map.mp (hsub _ hedge.1) with ⟨edge, hstored, hlabelled⟩
  rw [← hlabelled] at hparts hedge
  cases hparts
  refine ⟨edge, hstored, rfl, hedge.2, ?_⟩
  exact (Bool.and_eq_true_iff.mp hhiding).1

end Covered

/-!
## Runs of writes
-/

/-- Hiding edges the rules would draw from a memory to stored ones. -/
def DrawnBy [Scalar F] (config : WriteInferenceConfig F) (t : Tables F) (new : MemoryNode F)
    (x y : MemoryId) : Prop :=
  x = new.id ∧ y ≠ new.id ∧ exists m, t.getMemory y = some m ∧ Draws config new m

/-- Those a store draws. -/
def DrawnOnStore [Scalar F] (env : Env F) (t : Tables F) (node : MemoryNode F)
    (x y : MemoryId) : Prop :=
  env.config.writeInference = true ∧ DrawnBy env.config.inferenceConfig t node x y

/-- Those the pass of a turn draws, from its memory or from one it stores again. -/
def DrawnInTurn [Scalar F] (env : Env F) (t : Tables F) (id x y : MemoryId) : Prop :=
  exists target, t.getMemory id = some target ∧
    (DrawnBy WriteInferenceConfig.default t target x y ∨
      exists m, t.getMemory x = some m ∧ x ≠ id ∧
        ¬ Spares WriteInferenceConfig.default target m ∧ DrawnOnStore env t m x y)

inductive WriteCall (F : Type) where
  | store (node : MemoryNode F)
  | inferInTurn (id : MemoryId)

namespace WriteCall

variable [Scalar F]

/-- The state after a write, whether it succeeded or not. -/
def step (env : Env F) (w : World F) : WriteCall F -> World F
  | WriteCall.store node => (Facade.store env node w).2
  | WriteCall.inferInTurn id => (runExplicitWriteInference env id w).2

/-- No memory a rule fires for leads back to the memory it fires from. -/
def Forward (env : Env F) (w : World F) : WriteCall F -> Prop
  | WriteCall.store node => forall y, DrawnOnStore env w.tables node node.id y ->
      ¬ ReflTransGen (Hides w.tables) y node.id
  | WriteCall.inferInTurn id => forall x y, DrawnInTurn env w.tables id x y ->
      ¬ ReflTransGen (Beside (Hides w.tables) (DrawnInTurn env w.tables id)) y x

omit [Scalar F] in
theorem bounded_self (w : World F) (free : MemoryId -> Prop) (S : MemoryId -> MemoryId -> Prop) :
    Bounded w.tables free (Beside (Hides w.tables) S) w := by
  constructor
  · intro x y hxy
    exact Or.inl hxy
  · intro id m hget
    refine Or.inr ⟨m, ?_, rfl⟩
    rw [Tables.getMemory_id hget]
    exact hget

theorem store_bounded (env : Env F) (w : World F) (node : MemoryNode F) :
    Bounded w.tables (fun id => id = node.id)
      (Beside (Hides w.tables) (DrawnOnStore env w.tables node)) (Facade.store env node w).2 := by
  have hknown : Known w.tables (fun id => id = node.id) node := Or.inl rfl
  apply (keeps_store_bounded hknown ?_).state (bounded_self w _ _)
  intro hinference m hm hne hdraws
  cases hm with
  | inl heq => exact absurd heq hne
  | inr hm =>
      rcases hm with ⟨n, hn, htraits⟩
      exact Or.inr ⟨hinference, rfl, hne, n, hn, hdraws.congr rfl htraits⟩

theorem inferInTurn_bounded (env : Env F) (w : World F) (id : MemoryId) :
    Bounded w.tables (fun _ => False)
      (Beside (Hides w.tables) (DrawnInTurn env w.tables id))
      (runExplicitWriteInference env id w).2 := by
  have hticks : IgnoresTicks (Bounded w.tables (fun _ => False)
      (Beside (Hides w.tables) (DrawnInTurn env w.tables id))) :=
    viewsMemories_bounded.ignoresTicks
  apply Prog.Triple.state (P := fun w' => w' = w) _ rfl
  apply Prog.Triple.bind (Q := fun target w' => Bounded w.tables (fun _ => False)
    (Beside (Hides w.tables) (DrawnInTurn env w.tables id)) w' ∧
    w.tables.getMemory id = some target)
  · intro w' hw'
    rw [hw']
    unfold getMemory
    cases hget : w.tables.getMemory id with
    | none => exact bounded_self w _ _
    | some target => exact ⟨bounded_self w _ _, rfl⟩
  intro target
  refine Prog.Triple.of_and (fun htarget => ?_)
  have hid : target.id = id := Tables.getMemory_id htarget
  -- from here on the target is the memory that was stored before the pass
  refine Prog.Keeps.bind (keeps_currentTimeUs hticks) ?_
  intro recalledAt
  apply Prog.Triple.bind (Q := fun existing w' => Bounded w.tables (fun _ => False)
    (Beside (Hides w.tables) (DrawnInTurn env w.tables id)) w' ∧
    forall m, m ∈ existing -> Known w.tables (fun _ => False) m)
  · apply Prog.triple_gets
    intro w' hw'
    refine ⟨hw', ?_⟩
    intro m hm
    rcases List.mem_filterMap.mp hm with ⟨hit, _, hget⟩
    exact hw'.known _ m hget
  intro existing
  refine Prog.Triple.of_and (fun hexisting => ?_)
  refine Prog.Keeps.bind (keeps_currentTimeUs hticks) ?_
  intro now
  apply keeps_applyExplicitActions
  intro action haction
  rcases follows_inferOnWrite haction with ⟨m, hm, hne, hfollows⟩
  rcases hexisting m hm with hfalse | ⟨n, hn, htraits⟩
  · cases hfalse
  apply keeps_applyExplicitAction_bounded hfollows
  · intro hdraws
    exact Or.inr ⟨target, htarget,
      Or.inl ⟨rfl, hne, n, hn, hdraws.congr rfl htraits⟩⟩
  · intro hrewrites hinference node hnode hnodeId z hz hother hdraws
    rcases hnode with hfalse | ⟨k, hk, hknode⟩
    · cases hfalse
    rcases hz with hfalse | ⟨l, hl, hlz⟩
    · cases hfalse
    rw [hnodeId, hn] at hk
    cases hk
    have hnid := Tables.getMemory_id hn
    refine Or.inr ⟨target, htarget, Or.inr ⟨n, ?_, ?_, ?_, hinference, ?_, ?_, l, hl, ?_⟩⟩
    · rw [hnodeId]
      exact hn
    · rw [hnodeId, ← hid]
      exact hne
    · intro hspares
      exact hrewrites (hspares.of_traits rfl htraits.symm)
    · rw [hnodeId, hnid]
    · rw [hnid, ← hnodeId]
      exact hother
    · exact hdraws.congr hknode hlz

/-- A write that draws no edge back leaves the hiding edges without cycles. -/
theorem step_acyclic {env : Env F} {w : World F} {write : WriteCall F}
    (h : Acyclic (Hides w.tables)) (hforward : write.Forward env w) :
    Acyclic (Hides (write.step env w).tables) := by
  cases write with
  | store node =>
      apply Acyclic.of_le (h.beside ?_) (store_bounded env w node).hides
      intro x y hdrawn hback
      have hx := hdrawn.2.1
      rw [hx] at hdrawn hback
      exact hforward y hdrawn (reflTransGen_of_beside (fun _ _ hs => hs.2.1) hback)
  | inferInTurn id => exact Acyclic.of_le (h.beside hforward) (inferInTurn_bounded env w id).hides

end WriteCall

/-- In a run of writes that draw no edge back, no set of memories hides all of its
members from recall. -/
theorem no_mutual_hiding_of_run [Scalar F] {env : Env F} {w0 w : World F}
    (hstart : Acyclic (Hides w0.tables)) (hmirrors : Mirrors w0) {writes : List (WriteCall F)}
    (hrun : Run (WriteCall.step env) (WriteCall.Forward env) w0 writes w) :
    Acyclic (Hides w.tables) ∧
      (w.graph.idxToId.length < u32Size -> forall members : Finset MemoryId, members.Nonempty ->
        exists y, y ∈ members ∧ forall x e at_, (x, e) ∈ w.graph.incoming y ->
          hidingEdge at_ e = true -> x ∉ members) := by
  have hacyclic : Acyclic (Hides w.tables) :=
    hrun.invariant (I := fun w => Acyclic (Hides w.tables))
      (fun _ _ hw hforward => WriteCall.step_acyclic hw hforward) hstart
  have hcovered : EdgesCovered w := by
    refine hrun.invariant ?_ hmirrors.edgesCovered
    intro s write hs _
    cases write with
    | store node => exact (writeClosed_edgesCovered.keeps_store node).state hs
    | inferInTurn id => exact (writeClosed_edgesCovered.keeps_runExplicitWriteInference id).state hs
  refine ⟨hacyclic, ?_⟩
  intro hroom members hne
  rcases hacyclic.exists_source hne with ⟨y, hy, hsource⟩
  refine ⟨y, hy, ?_⟩
  intro x e at_ hincoming hhiding hx
  exact hsource x hx (hcovered.hides hroom hincoming hhiding)

section Examples

def earlierFact : MemoryNode Rat :=
  MemoryNode.new ⟨1⟩ 1000 AgentId.nil MemoryType.semantic "the office is in Turin" [3, 4]

def laterFact : MemoryNode Rat :=
  MemoryNode.new ⟨2⟩ 2000 AgentId.nil MemoryType.semantic "the office is in Milan" [3, 4]

/-- The state of a new database after some writes. -/
def afterWrites (writes : List (WriteCall Rat)) : World Rat :=
  writes.foldl (WriteCall.step (calmEnv CognitiveConfig.default)) emptyWorld

theorem mirrors_emptyWorld : Mirrors emptyWorld := by
  apply mirrors_openWithConfig
  · intro e he
    cases he
  · decide

theorem not_hides_of_no_edges {t : Tables F} (h : t.edges = []) (x y : MemoryId) :
    ¬ Hides t x y := by
  intro hxy
  rcases hxy with ⟨e, he, _⟩
  unfold Tables.allEdges at he
  rw [h] at he
  cases he

theorem acyclic_of_no_edges {t : Tables F} (h : t.edges = []) : Acyclic (Hides t) := by
  intro x hcycle
  rcases TransGen.head'_iff.mp hcycle with ⟨y, hxy, _⟩
  exact not_hides_of_no_edges h x y hxy

/-- A memory stored where nothing hides anything draws no edge back. -/
theorem forward_of_no_edges [Scalar F] {env : Env F} {w : World F} (h : w.tables.edges = [])
    (node : MemoryNode F) : (WriteCall.store node).Forward env w := by
  intro y hdrawn hback
  rcases hback.cases_head with heq | ⟨z, hyz, _⟩
  · exact hdrawn.2.2.1 heq
  · exact not_hides_of_no_edges h y z hyz

theorem no_mutual_hiding_of_run_offices :
    Hides (afterWrites [WriteCall.store earlierFact, WriteCall.store laterFact]).tables ⟨2⟩ ⟨1⟩ ∧
      Acyclic (Hides (afterWrites
        [WriteCall.store earlierFact, WriteCall.store laterFact]).tables) := by
  have h0 : Run (WriteCall.step (calmEnv CognitiveConfig.default))
      (WriteCall.Forward (calmEnv CognitiveConfig.default)) emptyWorld [] emptyWorld := Run.nil _
  have h1 := h0.snoc (i := WriteCall.store earlierFact)
    (forward_of_no_edges (by decide +kernel) earlierFact)
  have h2 := h1.snoc (i := WriteCall.store laterFact)
    (forward_of_no_edges (by decide +kernel) laterFact)
  refine ⟨?_, ?_⟩
  · unfold Hides
    decide +kernel
  · exact (no_mutual_hiding_of_run (acyclic_of_no_edges rfl) mirrors_emptyWorld h2).1

/-- The earlier fact is stored once more, unchanged. -/
def storedAgain : World Rat :=
  afterWrites [WriteCall.store earlierFact, WriteCall.store laterFact,
    WriteCall.store earlierFact]

/-- Each of the two facts then hides the other, and recall finds neither. -/
theorem stored_again_hides_back :
    ¬ Acyclic (Hides storedAgain.tables) ∧
      (recallHybridAt (calmEnv CognitiveConfig.default)
        (afterWrites [WriteCall.store earlierFact, WriteCall.store laterFact])
        [3, 4] none 5 1500 none none).map (List.map Prod.fst) = Except.ok [⟨2⟩] ∧
      recallHybridAt (calmEnv CognitiveConfig.default) storedAgain
        [3, 4] none 5 1500 none none = Except.ok [] := by
  have hforth : Hides storedAgain.tables ⟨1⟩ ⟨2⟩ := by
    unfold Hides
    decide +kernel
  have hback : Hides storedAgain.tables ⟨2⟩ ⟨1⟩ := by
    unfold Hides
    decide +kernel
  refine ⟨?_, by decide +kernel, by decide +kernel⟩
  intro hacyclic
  exact hacyclic ⟨1⟩ ((TransGen.single hforth).tail hback)

end Examples

end Facade
end MenteDb
