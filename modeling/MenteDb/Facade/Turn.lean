import MenteDb.Facade.Policies

/-!
# Turns of a conversation

A turn stores the conversation as an episodic memory and then runs an inference
pass of its own over it, with the thresholds of a new engine.  Where the pass
changes a memory it stores it again in full, and that store infers once more.
-/

namespace MenteDb
namespace Facade

open Foundation
open Sqlite
open MenteDb.Graph
open Cognitive

variable {F : Type} [Scalar F]

/-!
## Write inference on a stored memory
-/

/-- An edge whose failure is ignored. -/
def relateOrSkip (env : Env F) (edge : MemoryEdge F) : Op F Nat := do
  let _ ← Prog.attempt (relate env edge)
  pure 1

/-- Load, change and store again; a memory that does not load is not counted. -/
def storeAgain (env : Env F) (id : MemoryId) (f : MemoryNode F -> MemoryNode F) :
    Op F Nat := do
  let loaded ← Prog.gets (fun w => w.tables.getMemory id)
  match loaded with
  | none => pure 0
  | some node => do
      let _ ← Prog.attempt (store env (f node))
      pure 1

/-- What one action does in a turn, and how much it counts. -/
def applyExplicitAction (env : Env F) (now : Timestamp) : InferredAction F -> Op F Nat
  | InferredAction.flagContradiction existing new _ =>
      relateOrSkip env (inferredEdge now new existing EdgeType.contradicts 1 none)
  | InferredAction.markObsolete memory supersededBy =>
      relateOrSkip env (inferredEdge now supersededBy memory EdgeType.supersedes 1 none)
  | InferredAction.createEdge source target edgeType weight =>
      relateOrSkip env (inferredEdge now source target edgeType weight none)
  | InferredAction.updateConfidence memory newConfidence =>
      storeAgain env memory (fun node => { node with confidence := newConfidence })
  | InferredAction.invalidateMemory memory _ validUntil =>
      storeAgain env memory (fun node => { node with validUntil := some validUntil })
  | InferredAction.updateContent memory newContent _ =>
      storeAgain env memory (fun node => { node with content := newContent })
  | InferredAction.propagateBeliefChange _ _ => pure 1

def applyExplicitActions (env : Env F) (now : Timestamp) :
    List (InferredAction F) -> Nat -> Op F Nat
  | [], applied => pure applied
  | action :: rest, applied => do
      let counted ← applyExplicitAction env now action
      applyExplicitActions env now rest (applied + counted)

/-- The similar memories a turn compares its memory with. -/
def turnCandidates (env : Env F) (w : World F) (now : Timestamp) (target : MemoryNode F)
    (id : MemoryId) : List (MemoryNode F) :=
  ((openRecall env w target.embedding none 50 now).filter
    (fun hit => decide (hit.1 ≠ id))).filterMap (fun hit => w.tables.getMemory hit.1)

def runExplicitWriteInference (env : Env F) (id : MemoryId) : Op F Nat := do
  let target ← getMemory id
  let recalledAt ← currentTimeUs env
  let existing ← Prog.gets (fun w => turnCandidates env w recalledAt target id)
  let now ← currentTimeUs env
  applyExplicitActions env now
    (inferOnWrite env.text WriteInferenceConfig.default target existing) 0

/-!
## Assertions that survive writes

What survives the storing of any memory, its registration in the graph and any
new edge survives a whole store, an inference pass and a consolidation.
-/

section Closed

variable {env : Env F} {I : World F -> Prop}

theorem keeps_applyExplicitActions {I : World F -> Prop} {now : Timestamp}
    {actions : List (InferredAction F)}
    (h : forall action, action ∈ actions -> Prog.Keeps I (applyExplicitAction env now action))
    (applied : Nat) : Prog.Keeps I (applyExplicitActions env now actions applied) := by
  induction actions generalizing applied with
  | nil => exact Prog.keeps_pure applied
  | cons action rest ih =>
      apply Prog.Keeps.bind (h action List.mem_cons_self)
      intro counted
      exact ih (fun a ha => h a (List.mem_cons_of_mem action ha)) (applied + counted)

/-- What survives the storing of a memory that is stored with the same tags. -/
structure RewriteClosed (I : World F -> Prop) : Prop where
  ignoresTicks : IgnoresTicks I
  rewriteOn : forall w t loaded node dim, I w -> w.tables.getMemory node.id = some loaded ->
    node.tags = loaded.tags -> Tables.storeMemoryOn node dim w.tables = Except.ok t ->
    I { w with tables := t }

namespace RewriteClosed

variable (h : RewriteClosed I)

include h

theorem keeps_now : Prog.Keeps I (currentTimeUs env) := keeps_currentTimeUs h.ignoresTicks

theorem keeps_emit : Prog.Keeps I (emitLifecycleEvent env) := by
  apply keeps_transact h.ignoresTicks
  intro w t hw hrun
  cases hrun
  exact hw

theorem triple_dbStoreMemory {loaded node : MemoryNode F} (htags : node.tags = loaded.tags) :
    Prog.Triple (fun w => I w ∧ w.tables.getMemory node.id = some loaded)
      (dbStoreMemory env node) (fun _ => I) I := by
  apply Prog.triple_gets_bind
  intro dim
  have hticks : IgnoresTicks (fun w => I w ∧ w.tables.getMemory node.id = some loaded) :=
    fun w n hle hw => ⟨h.ignoresTicks w n hle hw.1, hw.2⟩
  have hstored : Prog.Triple (fun w => I w ∧ w.tables.getMemory node.id = some loaded)
      (transact env (Tables.storeMemory dim node)) (fun _ => I)
      (fun w => I w ∧ w.tables.getMemory node.id = some loaded) := by
    apply triple_transact hticks
    intro w t hw hrun
    exact h.rewriteOn w t loaded node dim hw.1 hw.2 htags (Tables.storeMemory_ok hrun)
  exact hstored.weaken (fun _ hw => hw) (fun _ _ hw => hw) (fun _ hw => hw.1)

theorem triple_storeBack {loaded node : MemoryNode F} (htags : node.tags = loaded.tags) :
    Prog.Triple (fun w => I w ∧ w.tables.getMemory node.id = some loaded)
      (do
        dbStoreMemory env node
        emitLifecycleEvent env) (fun _ => I) I := by
  apply Prog.Triple.bind (h.triple_dbStoreMemory htags)
  intro _
  exact h.keeps_emit

theorem keeps_invalidateMemory (id : MemoryId) (at_ : Timestamp) :
    Prog.Keeps I (invalidateMemory env id at_) := by
  apply Prog.Triple.bind (Q := fun node w => I w ∧ w.tables.getMemory node.id = some node)
  · intro w hw
    unfold getMemory
    cases hget : w.tables.getMemory id with
    | none => exact hw
    | some node =>
        refine ⟨hw, ?_⟩
        rw [Tables.getMemory_id hget]
        exact hget
  · intro node
    have htags : (node.invalidate at_).tags = node.tags := rfl
    exact h.triple_storeBack htags

theorem keeps_rewriteMemory (id : MemoryId) {f : MemoryNode F -> MemoryNode F}
    (hf : forall node, (f node).id = node.id ∧ (f node).tags = node.tags) :
    Prog.Keeps I (rewriteMemory env id f) := by
  apply Prog.Triple.bind (Q := fun loaded w => I w ∧ w.tables.getMemory id = loaded)
  · exact Prog.triple_gets (fun _ hw => ⟨hw, rfl⟩)
  · intro loaded w hw
    cases loaded with
    | none => exact hw.1
    | some node =>
        refine h.triple_storeBack (hf node).2 w ⟨hw.1, ?_⟩
        rw [(hf node).1, Tables.getMemory_id hw.2]
        exact hw.2

/-- Of the edges that an action draws, only contradictions have labels. -/
theorem keeps_applyInferredAction
    (hrelate : forall edge : MemoryEdge F,
      (edge.edgeType ≠ EdgeType.contradicts -> edge.label = none) ->
      Prog.Keeps I (relate env edge)) (action : InferredAction F) :
    Prog.Keeps I (applyInferredAction env action) := by
  have hemit : forall edge : MemoryEdge F,
      (edge.edgeType ≠ EdgeType.contradicts -> edge.label = none) -> Prog.Keeps I (do
        relate env edge
        emitLifecycleEvent env) :=
    fun edge hedge => Prog.Keeps.bind (hrelate edge hedge) (fun _ => h.keeps_emit)
  cases action with
  | createEdge source target edgeType weight =>
      exact Prog.Keeps.bind h.keeps_now (fun _ => hrelate _ (fun _ => rfl))
  | invalidateMemory memory supersededBy validUntil =>
      apply Prog.Keeps.bind (h.keeps_invalidateMemory _ _)
      intro _
      exact Prog.Keeps.bind h.keeps_now (fun _ => hemit _ (fun _ => rfl))
  | markObsolete memory supersededBy =>
      apply Prog.Keeps.bind h.keeps_now
      intro now
      apply Prog.Keeps.bind (h.keeps_invalidateMemory _ _)
      intro _
      exact hemit _ (fun _ => rfl)
  | flagContradiction existing new reason =>
      apply Prog.Keeps.bind h.keeps_now
      intro now
      apply hemit
      intro hother
      exact absurd rfl hother
  | updateConfidence memory newConfidence =>
      exact h.keeps_rewriteMemory _ (fun _ => ⟨rfl, rfl⟩)
  | propagateBeliefChange root delta =>
      apply Prog.Keeps.bind (Prog.keeps_gets _)
      intro affected
      exact Prog.Keeps.forEach (fun a _ => h.keeps_rewriteMemory _ (fun _ => ⟨rfl, rfl⟩))
  | updateContent memory newContent reason =>
      exact h.keeps_rewriteMemory _ (fun _ => ⟨rfl, rfl⟩)

theorem keeps_runWriteInference
    (hrelate : forall edge : MemoryEdge F,
      (edge.edgeType ≠ EdgeType.contradicts -> edge.label = none) ->
      Prog.Keeps I (relate env edge)) (new : MemoryNode F) :
    Prog.Keeps I (runWriteInference env new) :=
  keeps_runWriteInference_of (P := fun _ => True) h.keeps_now (fun _ _ _ _ _ => trivial)
    (fun _ action _ _ => h.keeps_applyInferredAction hrelate action)

end RewriteClosed

/-- What survives the storing of any memory. -/
structure StoreClosed (I : World F -> Prop) : Prop where
  ignoresTicks : IgnoresTicks I
  storeOn : forall w t node dim, I w -> Tables.storeMemoryOn node dim w.tables = Except.ok t ->
    I { w with tables := t }

namespace StoreClosed

variable (h : StoreClosed I)

include h

theorem rewrites : RewriteClosed I :=
  ⟨h.ignoresTicks, fun w t _ node dim hw _ _ hrun => h.storeOn w t node dim hw hrun⟩

theorem keeps_dbStoreMemory (node : MemoryNode F) : Prog.Keeps I (dbStoreMemory env node) := by
  apply Prog.Keeps.bind (Prog.keeps_gets _)
  intro dim
  apply keeps_transact h.ignoresTicks
  intro w t hw hrun
  exact h.storeOn w t node dim hw (Tables.storeMemory_ok hrun)

omit h [Scalar F] in
theorem keeps_getMemory (id : MemoryId) : Prog.Keeps I (getMemory id) := by
  intro w hw
  unfold getMemory
  cases w.tables.getMemory id with
  | none => exact hw
  | some node => exact hw

end StoreClosed

/-- What survives the storing of any memory and any new edge. -/
structure InferenceClosed (env : Env F) (I : World F -> Prop) : Prop where
  ignoresTicks : IgnoresTicks I
  storeOn : forall w t node dim, I w -> Tables.storeMemoryOn node dim w.tables = Except.ok t ->
    I { w with tables := t }
  relate : forall edge, Prog.Keeps I (relate env edge)

namespace InferenceClosed

variable (h : InferenceClosed env I)

include h

theorem stores : StoreClosed I := ⟨h.ignoresTicks, h.storeOn⟩

theorem keeps_runWriteInference (new : MemoryNode F) :
    Prog.Keeps I (runWriteInference env new) :=
  h.stores.rewrites.keeps_runWriteInference (fun edge _ => h.relate edge) new

end InferenceClosed

structure WriteClosed (env : Env F) (I : World F -> Prop) : Prop where
  views : ViewsMemories I
  storeOn : forall w t node dim, I w -> Tables.storeMemoryOn node dim w.tables = Except.ok t ->
    I { w with tables := t }
  register : forall w id, I w -> I { w with graph := GraphManager.addMemory w.graph id }
  relate : forall edge, Prog.Keeps I (relate env edge)

namespace WriteClosed

variable (h : WriteClosed env I)

include h

theorem inference : InferenceClosed env I := ⟨h.views.ignoresTicks, h.storeOn, h.relate⟩

theorem keeps_now : Prog.Keeps I (currentTimeUs env) := h.inference.stores.rewrites.keeps_now

theorem keeps_emit : Prog.Keeps I (emitLifecycleEvent env) := h.inference.stores.rewrites.keeps_emit

theorem keeps_dbStoreMemory (node : MemoryNode F) : Prog.Keeps I (dbStoreMemory env node) :=
  h.inference.stores.keeps_dbStoreMemory node

theorem keeps_invalidateMemory (id : MemoryId) (at_ : Timestamp) :
    Prog.Keeps I (invalidateMemory env id at_) :=
  h.inference.stores.rewrites.keeps_invalidateMemory id at_

theorem keeps_store (node : MemoryNode F) : Prog.Keeps I (store env node) :=
  keeps_store_of (keeps_provision h.views [node]) (h.keeps_dbStoreMemory node)
    (fun w hw => h.register w node.id hw) (keeps_indexMemoryEntities h.views node)
    (fun _ => h.inference.keeps_runWriteInference node)

theorem keeps_relateOrSkip (edge : MemoryEdge F) : Prog.Keeps I (relateOrSkip env edge) :=
  Prog.Keeps.bind (h.relate edge).attempt (fun _ => Prog.keeps_pure 1)

theorem keeps_storeAgain (id : MemoryId) (f : MemoryNode F -> MemoryNode F) :
    Prog.Keeps I (storeAgain env id f) := by
  apply Prog.Keeps.bind (Prog.keeps_gets _)
  intro loaded
  cases loaded with
  | none => exact Prog.keeps_pure 0
  | some node => exact Prog.Keeps.bind (h.keeps_store _).attempt (fun _ => Prog.keeps_pure 1)

theorem keeps_runExplicitWriteInference (id : MemoryId) :
    Prog.Keeps I (runExplicitWriteInference env id) := by
  apply Prog.Keeps.bind (StoreClosed.keeps_getMemory id)
  intro target
  apply Prog.Keeps.bind h.keeps_now
  intro recalledAt
  apply Prog.Keeps.bind (Prog.keeps_gets _)
  intro existing
  apply Prog.Keeps.bind h.keeps_now
  intro now
  apply keeps_applyExplicitActions
  intro action _
  cases action with
  | flagContradiction existing new reason => exact h.keeps_relateOrSkip _
  | markObsolete memory supersededBy => exact h.keeps_relateOrSkip _
  | createEdge source target edgeType weight => exact h.keeps_relateOrSkip _
  | updateConfidence memory newConfidence => exact h.keeps_storeAgain _ _
  | invalidateMemory memory supersededBy validUntil => exact h.keeps_storeAgain _ _
  | updateContent memory newContent reason => exact h.keeps_storeAgain _ _
  | propagateBeliefChange root delta => exact Prog.keeps_pure 1

theorem keeps_writeLifecycle (updates : List (MemoryNode F)) :
    Prog.Keeps I (writeLifecycle env updates) := by
  apply Prog.Keeps.bind (Prog.keeps_gets _)
  intro dim
  apply Prog.Keeps.bind
  · apply keeps_transact h.views.ignoresTicks
    intro w t hw hrun
    have hbody : Atomic.Keeps (fun t => I { w with tables := t })
        (Tables.applyLifecyclePolicy dim updates) :=
      Atomic.Keeps.forEach (fun node _ t t' ht hnode =>
        h.storeOn { w with tables := t } t' node dim ht hnode)
    exact hbody w.tables t hw hrun
  · intro _
    exact Prog.keeps_pure _

theorem keeps_retireSource (consolidatedId : MemoryId) (now : Timestamp) (sourceId : MemoryId) :
    Prog.Keeps I (retireSource env consolidatedId now sourceId) := by
  apply Prog.Keeps.bind (h.keeps_invalidateMemory _ _).attempt
  intro _
  apply Prog.Keeps.bind (h.relate _).attempt
  intro _
  exact Prog.Keeps.bind h.keeps_emit.attempt (fun _ => Prog.keeps_pure ())

theorem keeps_consolidateCluster (memoryIds : List MemoryId) :
    Prog.Keeps I (consolidateCluster env memoryIds) := by
  apply Prog.Keeps.bind (Prog.keeps_gets _)
  intro cluster
  split
  · apply Prog.Keeps.bind (Prog.keeps_gets _)
    intro id
    apply Prog.Keeps.bind h.keeps_now
    intro createdAt
    apply Prog.Keeps.bind (h.keeps_store _)
    intro _
    apply Prog.Keeps.bind h.keeps_emit
    intro _
    apply Prog.Keeps.bind h.keeps_now
    intro now
    exact Prog.Keeps.bind (Prog.Keeps.forEach (fun _ _ => h.keeps_retireSource _ _ _))
      (fun _ => Prog.keeps_pure _)
  · exact Prog.keeps_fail _

end WriteClosed

end Closed

end Facade
end MenteDb
