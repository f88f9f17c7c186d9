import MenteDb.Facade.Write

/-!
# Writes that fail

A store first gives the database a vector index, when it has none and an
embedding arrives, and only then checks and writes.  The index is committed by a
transaction of its own.  The results below say exactly when a store that reports
an error has left the tables and the dimension as they were.
-/

namespace MenteDb
namespace Facade

open Foundation
open Sqlite
open MenteDb.Graph

variable {F : Type} [Scalar F]

/-!
## Storing with a source
-/

/-- A store that records where the memory came from in the same transaction. -/
def storeWithSource (env : Env F) (node : MemoryNode F) (source : MemorySource) : Op F Unit := do
  provision env [node]
  let dim ← Prog.gets World.embeddingDim
  transact env (Tables.storeMemoryWithSource dim node source)
  Prog.modify (fun w => { w with graph := GraphManager.addMemory w.graph node.id })
  let _ ← Prog.attempt (indexMemoryEntities env node)
  if env.config.writeInference then runWriteInference env node else pure ()

inductive StoreCall (F : Type) where
  | store (node : MemoryNode F)
  | storeWithSource (node : MemoryNode F) (source : MemorySource)
  | storeBatch (nodes : List (MemoryNode F))

namespace StoreCall

def run (env : Env F) : StoreCall F -> Op F Unit
  | store node => Facade.store env node
  | storeWithSource node source => Facade.storeWithSource env node source
  | storeBatch nodes => do
      let _ ← Facade.storeBatch env nodes
      pure ()

omit [Scalar F] in
def nodes : StoreCall F -> List (MemoryNode F)
  | store node => [node]
  | storeWithSource node _ => [node]
  | storeBatch nodes => nodes

/-- The transaction of the call, of a backend that works with the given dimension. -/
def transaction (dim : Nat) : StoreCall F -> Tx F
  | store node => Tables.storeMemory dim node
  | storeWithSource node source => Tables.storeMemoryWithSource dim node source
  | storeBatch nodes => Tables.storeMemoryBatch dim nodes

omit [Scalar F] in
/-- The call creates the vector index: there is none, a node has an embedding, and the
transaction that creates it does not fail. -/
def Provisions (env : Env F) (call : StoreCall F) (w : World F) : Prop :=
  w.embeddingDim = 0 ∧ (exists node, node ∈ call.nodes ∧ node.embedding ≠ []) ∧
    env.fault w.ticks = none

end StoreCall

/-!
## The stages of a store
-/

section Stages

variable {env : Env F} {w : World F}

omit [Scalar F] in
/-- Tables and dimension are those of the given state. -/
def Unchanged (w v : World F) : Prop :=
  v.tables = w.tables ∧ v.embeddingDim = w.embeddingDim

theorem succeeds_runWriteInference (node : MemoryNode F) :
    Prog.Succeeds (runWriteInference env node) := by
  unfold runWriteInference
  apply Prog.succeeds_ite
  · exact Prog.succeeds_pure ()
  · apply Prog.Succeeds.bind
    · exact fun s => ⟨_, _, rfl⟩
    · intro now
      apply Prog.Succeeds.bind (Prog.succeeds_gets _)
      intro existing
      apply Prog.Succeeds.forEach
      intro action
      exact (Prog.succeeds_attempt _).bind (fun _ => Prog.succeeds_pure ())

/-- What provisioning leaves, however it ends, is what a failed call leaves: the
transaction is rolled back and nothing after it fails. -/
theorem StoreCall.triple_run {P E : World F -> Prop} (hE : IgnoresTicks E) {call : StoreCall F}
    (hprovision : Prog.Triple P (provision env call.nodes) (fun _ => E) E) :
    Prog.Triple P (call.run env) (fun _ _ => True) E := by
  have htransact : forall tx : Tx F,
      Prog.Triple E (transact env tx) (fun _ _ => True) E :=
    fun tx => triple_transact hE (fun _ _ _ _ => trivial)
  have hindexed : forall node : MemoryNode F, Prog.Succeeds (do
      Prog.modify (fun w : World F => { w with graph := GraphManager.addMemory w.graph node.id })
      let _ ← Prog.attempt (indexMemoryEntities env node)
      if env.config.writeInference then runWriteInference env node else pure ()) := by
    intro node
    apply (Prog.succeeds_modify _).bind
    intro _
    apply (Prog.succeeds_attempt _).bind
    intro _
    exact Prog.succeeds_ite (succeeds_runWriteInference node) (Prog.succeeds_pure ())
  cases call with
  | store node =>
      apply Prog.Triple.bind hprovision
      intro _
      apply Prog.Triple.bind (Prog.triple_gets_bind (fun _ => htransact _))
      intro _
      exact (hindexed node).triple
  | storeWithSource node source =>
      apply Prog.Triple.bind hprovision
      intro _
      apply Prog.triple_gets_bind
      intro dim
      apply Prog.Triple.bind (htransact _)
      intro _
      exact (hindexed node).triple
  | storeBatch nodes =>
      have hrest : Prog.Succeeds (do
          Prog.forEach nodes (fun node => do
            Prog.modify (fun w : World F =>
              { w with graph := GraphManager.addMemory w.graph node.id })
            let _ ← Prog.attempt (indexMemoryEntities env node)
            pure ())
          pure (nodes.map MemoryNode.id)) := by
        refine (Prog.Succeeds.forEach ?_).bind (fun _ => Prog.succeeds_pure _)
        intro node
        apply (Prog.succeeds_modify _).bind
        intro _
        exact (Prog.succeeds_attempt _).bind (fun _ => Prog.succeeds_pure ())
      apply Prog.Triple.bind (Q := fun _ _ => True)
      · apply Prog.Triple.bind hprovision
        intro _
        apply Prog.triple_gets_bind
        intro dim
        apply Prog.Triple.bind (htransact _)
        intro _
        exact hrest.triple
      · intro ids
        exact (Prog.succeeds_pure ()).triple

omit [Scalar F] in
/-- The check of the dimensions changes nothing. -/
theorem keeps_checkDimensions {I : World F -> Prop} (nodes : List (MemoryNode F)) :
    Prog.Keeps I (checkDimensions nodes) := by
  apply Prog.Keeps.bind (Prog.keeps_gets _)
  intro dim
  split
  · exact Prog.keeps_fail _
  · exact Prog.keeps_pure ()

omit [Scalar F] in
theorem find?_embedding_eq_some {nodes : List (MemoryNode F)} {first : MemoryNode F}
    (h : nodes.find? (fun n => !n.embedding.isEmpty) = some first) :
    first ∈ nodes ∧ first.embedding ≠ [] := by
  refine ⟨List.mem_of_find?_eq_some h, ?_⟩
  have hfirst := List.find?_some h
  simpa using hfirst

theorem ensureVectorIndex_fault {dim : Nat} {e : MenteError} (hdim : dim ≠ 0)
    (hnone : w.embeddingDim = 0) (hfault : env.fault w.ticks = some e) :
    ensureVectorIndex env dim w = (Except.error e, { w with ticks := w.ticks + 1 }) := by
  have hnew : ¬ (dim = 0 ∨ dim = w.embeddingDim) := by
    rw [hnone, or_self]
    exact hdim
  simp only [ensureVectorIndex, bind, Prog.bind, Prog.gets, if_neg hnew, transact, hfault]

theorem ensureVectorIndex_done {dim : Nat} (hdim : dim ≠ 0) (hnone : w.embeddingDim = 0)
    (hfault : env.fault w.ticks = none) :
    exists t, ensureVectorIndex env dim w =
      (Except.ok (), { w with tables := t, embeddingDim := dim, ticks := w.ticks + 1 }) := by
  have hnew : ¬ (dim = 0 ∨ dim = w.embeddingDim) := by
    rw [hnone, or_self]
    exact hdim
  refine ⟨{ w.tables with
    memoryVec := some { dim := dim, rows := w.tables.backfill dim }
    metaEmbeddingDim := some dim }, ?_⟩
  simp only [ensureVectorIndex, bind, Prog.bind, Prog.gets, if_neg hnew, transact, hfault,
    Tables.ensureVectorIndex, Prog.modify]

/-- Without a new index, provisioning leaves the database as it was. -/
theorem triple_provision_unchanged {call : StoreCall F} (h : ¬ call.Provisions env w) :
    Prog.Triple (fun v => v = w) (provision env call.nodes) (fun _ => Unchanged w)
      (Unchanged w) := by
  refine Prog.Triple.bind (Q := fun _ => Unchanged w) ?_ (fun _ => keeps_checkDimensions _)
  apply Prog.Triple.bind (Q := fun dim v => v = w ∧ dim = w.embeddingDim)
  · exact Prog.triple_gets (fun v hv => ⟨hv, congrArg World.embeddingDim hv⟩)
  intro dim
  have hpure : Prog.Triple (fun v => v = w ∧ dim = w.embeddingDim) (pure () : Op F Unit)
      (fun _ => Unchanged w) (Unchanged w) := by
    intro v hv
    rw [hv.1]
    exact ⟨rfl, rfl⟩
  split
  · rename_i first hfirst
    rcases find?_embedding_eq_some hfirst with ⟨hmem, hembedding⟩
    apply Prog.triple_ite
    · intro hzero v hv
      have hnone : w.embeddingDim = 0 := hv.2.symm.trans hzero
      have hlength : first.embedding.length ≠ 0 := fun hlen =>
        hembedding (List.eq_nil_of_length_eq_zero hlen)
      rw [hv.1]
      cases hfault : env.fault w.ticks with
      | none => exact absurd ⟨hnone, ⟨first, hmem, hembedding⟩, hfault⟩ h
      | some e =>
          rw [ensureVectorIndex_fault hlength hnone hfault]
          exact ⟨rfl, rfl⟩
    · intro _
      exact hpure
  · exact hpure

/-- With a new index, the dimension is decided before anything is checked. -/
theorem triple_provision_decided {call : StoreCall F} (h : call.Provisions env w) :
    Prog.Triple (fun v => v = w) (provision env call.nodes) (fun _ v => v.embeddingDim ≠ 0)
      (fun v => v.embeddingDim ≠ 0) := by
  rcases h with ⟨hnone, ⟨node, hnode, hembedding⟩, hfault⟩
  refine Prog.Triple.bind (Q := fun _ (v : World F) => v.embeddingDim ≠ 0) ?_
    (fun _ => keeps_checkDimensions _)
  apply Prog.Triple.bind (Q := fun dim v => v = w ∧ dim = w.embeddingDim)
  · exact Prog.triple_gets (fun v hv => ⟨hv, congrArg World.embeddingDim hv⟩)
  intro dim
  split
  · rename_i first hfirst
    apply Prog.triple_ite
    · intro _ v hv
      have hlength : first.embedding.length ≠ 0 := fun hlen =>
        (find?_embedding_eq_some hfirst).2 (List.eq_nil_of_length_eq_zero hlen)
      rw [hv.1]
      rcases ensureVectorIndex_done hlength hnone hfault with ⟨t, hrun⟩
      rw [hrun]
      exact hlength
    · intro hpositive v hv
      exact absurd (hv.2.trans hnone) hpositive
  · rename_i hfind
    have hempty := List.find?_eq_none.mp hfind node hnode
    exact absurd (by simpa using hempty) hembedding

end Stages

/-!
## Failed calls
-/

/-- A call that reports an error has left the tables and the dimension as they were
exactly when it did not create the vector index first. -/
theorem failed_store_unchanged_iff {env : Env F} {call : StoreCall F} {w w' : World F}
    {e : MenteError} (hfail : call.run env w = (Except.error e, w')) :
    (w'.tables = w.tables ∧ w'.embeddingDim = w.embeddingDim) <-> ¬ call.Provisions env w := by
  constructor
  · intro hsame hprovisions
    have htriple := StoreCall.triple_run (E := fun v => v.embeddingDim ≠ 0)
      (fun _ _ _ hv => hv) (triple_provision_decided hprovisions) w rfl
    rw [hfail] at htriple
    exact htriple (hsame.2.trans hprovisions.1)
  · intro hnot
    have htriple := StoreCall.triple_run (E := Unchanged w) (fun _ _ _ hv => hv)
      (triple_provision_unchanged hnot) w rfl
    rw [hfail] at htriple
    exact htriple

/-!
### A rejected batch on a new database
-/

def mixedBatch : StoreCall Rat :=
  StoreCall.storeBatch
    [MemoryNode.new ⟨1⟩ 1000 AgentId.nil MemoryType.semantic "two" [1, 0],
      MemoryNode.new ⟨2⟩ 1000 AgentId.nil MemoryType.semantic "three" [1, 0, 0]]

/-- The batch is refused, and the database has two dimensions from then on. -/
theorem rejected_batch_decides_dimension :
    (mixedBatch.run (calmEnv CognitiveConfig.default) emptyWorld).1.isOk = false ∧
      emptyWorld.embeddingDim = 0 ∧ emptyWorld.tables.metaEmbeddingDim = some 0 ∧
      emptyWorld.tables.memoryVec = none ∧
      (mixedBatch.run (calmEnv CognitiveConfig.default) emptyWorld).2.embeddingDim = 2 ∧
      (mixedBatch.run (calmEnv CognitiveConfig.default) emptyWorld).2.tables.metaEmbeddingDim =
        some 2 ∧
      (mixedBatch.run (calmEnv CognitiveConfig.default) emptyWorld).2.tables.memoryVec =
        some { dim := 2, rows := [] } := by
  decide +kernel

def twoDimensions : World Rat :=
  (ensureVectorIndex (calmEnv CognitiveConfig.default) 2 emptyWorld).2

/-- The same batch on a database that has an index already changes nothing. -/
theorem rejected_batch_changes_nothing :
    exists e w', mixedBatch.run (calmEnv CognitiveConfig.default) twoDimensions =
        (Except.error e, w') ∧
      ((w'.tables = twoDimensions.tables ∧ w'.embeddingDim = twoDimensions.embeddingDim) <->
        ¬ mixedBatch.Provisions (calmEnv CognitiveConfig.default) twoDimensions) := by
  rcases hrun : mixedBatch.run (calmEnv CognitiveConfig.default) twoDimensions with ⟨result, w'⟩
  have hresult : result.isOk = false := by
    have hfirst : (mixedBatch.run (calmEnv CognitiveConfig.default) twoDimensions).1.isOk =
        false := by decide +kernel
    rw [hrun] at hfirst
    exact hfirst
  cases result with
  | ok u => cases hresult
  | error e => exact ⟨e, w', rfl, failed_store_unchanged_iff hrun⟩

end Facade
end MenteDb
