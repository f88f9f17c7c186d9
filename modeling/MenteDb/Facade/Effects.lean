import MenteDb.Facade.Policies
import MenteDb.Sqlite.Projection
import MenteDb.Sqlite.Subgraph
import Mathlib.Logic.Relation

/-!
# What an operation can do to a database

Every operation of the facade is made of a few kinds of steps: statements on the
tables, a rebuild of the vector index, changes of the graph, and readings of the
clock.  An assertion that each of these steps keeps is an invariant of all
operations, however they end.
-/

namespace MenteDb
namespace Sqlite
namespace Tables

open Foundation

variable {F : Type} [Scalar F]

/-!
## Statements
-/

/-- One statement on the tables, of a backend that works with the given dimension. -/
inductive Statement (dim : Nat) (t : Tables F) : Tables F -> Prop where
  | store {node t'} : storeMemoryOn node dim t = Except.ok t' -> Statement dim t t'
  | addEdge {edge t'} : addEdgeOn edge t = Except.ok t' -> Statement dim t t'
  | replaceEntities {id entities aliases links t'} :
      replaceMemoryEntityBundle id entities aliases links t = Except.ok t' -> Statement dim t t'
  | invalidateMemory {id at_ t'} : invalidateMemoryOn id at_ t = Except.ok t' -> Statement dim t t'
  | markClaim {id status at_ t'} :
      markClaimStatusOn id status at_ t = Except.ok t' -> Statement dim t t'
  | markRelationship {id status at_ t'} :
      markRelationshipStatusOn id status at_ t = Except.ok t' -> Statement dim t t'
  | deleteRelationship {id} : Statement dim t (t.deleteRelationship id)
  | deleteClaim {id} : Statement dim t (t.deleteClaim id)
  | deleteMemory {id} : Statement dim t (t.deleteMemory id)
  | deleteEntity {id} : Statement dim t (t.deleteEntity id)

/-- Any number of statements. -/
def Edits (dim : Nat) (t t' : Tables F) : Prop := Relation.ReflTransGen (Statement dim) t t'

variable {dim : Nat} {t0 : Tables F}

theorem keeps_edits {tx : Tx F} (h : forall t t', tx t = Except.ok t' -> Statement dim t t') :
    Atomic.Keeps (Edits dim t0) tx :=
  fun t t' ht hrun => ht.tail (h t t' hrun)

theorem edits_storeMemoryOn (node : MemoryNode F) :
    Atomic.Keeps (Edits dim t0) (storeMemoryOn node dim) :=
  keeps_edits (fun _ _ hrun => Statement.store hrun)

theorem edits_storeMemory (node : MemoryNode F) :
    Atomic.Keeps (Edits dim t0) (storeMemory dim node) :=
  keeps_edits (fun _ _ hrun => Statement.store (storeMemory_ok hrun))

theorem edits_applyLifecyclePolicy (updates : List (MemoryNode F)) :
    Atomic.Keeps (Edits dim t0) (applyLifecyclePolicy dim updates) :=
  Atomic.Keeps.forEach (fun node _ => edits_storeMemoryOn node)

theorem edits_storeMemoryBatch (nodes : List (MemoryNode F)) :
    Atomic.Keeps (Edits dim t0) (storeMemoryBatch dim nodes) := by
  intro t t' ht hrun
  exact edits_applyLifecyclePolicy nodes t t' ht (storeMemoryBatch_ok hrun)

theorem edits_applyCorrectionPolicy (mutation : CorrectionPolicyMutation F) :
    Atomic.Keeps (Edits dim t0) (applyCorrectionPolicy mutation) := by
  apply Atomic.Keeps.andThen
  · exact Atomic.Keeps.forEach (fun _ _ => keeps_edits (fun _ _ => Statement.invalidateMemory))
  · apply Atomic.Keeps.andThen
    · exact Atomic.Keeps.forEach (fun _ _ => keeps_edits (fun _ _ => Statement.markClaim))
    · apply Atomic.Keeps.andThen
      · exact Atomic.Keeps.forEach
          (fun _ _ => keeps_edits (fun _ _ => Statement.markRelationship))
      · exact Atomic.Keeps.forEach (fun _ _ => keeps_edits (fun _ _ => Statement.addEdge))

theorem edits_softForgetOn (a : PolicyAffected) (at_ : Timestamp) :
    Atomic.Keeps (Edits dim t0) (softForgetOn a at_) := by
  apply Atomic.Keeps.andThen
  · exact Atomic.Keeps.forEach (fun _ _ => keeps_edits (fun _ _ => Statement.invalidateMemory))
  · apply Atomic.Keeps.andThen
    · exact Atomic.Keeps.forEach (fun _ _ => keeps_edits (fun _ _ => Statement.markClaim))
    · exact Atomic.Keeps.forEach (fun _ _ => keeps_edits (fun _ _ => Statement.markRelationship))

theorem edits_hardForgetOn (a : PolicyAffected) :
    Atomic.Keeps (Edits dim t0) (hardForgetOn a) := by
  have hdelete : forall {α : Type} (xs : List α) (f : Tables F -> α -> Tables F),
      (forall t x, Statement dim t (f t x)) ->
      Atomic.Keeps (Edits dim t0) (Atomic.forEach xs (fun x t => Except.ok (f t x)) : Tx F) := by
    intro α xs f hf
    apply Atomic.Keeps.forEach
    intro x _ t t' ht hrun
    cases hrun
    exact ht.tail (hf t x)
  apply Atomic.Keeps.andThen
  · exact hdelete a.relationshipIds deleteRelationship (fun _ _ => Statement.deleteRelationship)
  · apply Atomic.Keeps.andThen
    · exact hdelete a.claimIds deleteClaim (fun _ _ => Statement.deleteClaim)
    · apply Atomic.Keeps.andThen
      · exact hdelete a.memoryIds deleteMemory (fun _ _ => Statement.deleteMemory)
      · exact hdelete a.entityIds deleteEntity (fun _ _ => Statement.deleteEntity)

theorem edits_applyForgetPolicy (mutation : ForgetPolicyMutation) :
    Atomic.Keeps (Edits dim t0) (applyForgetPolicy mutation) := by
  unfold applyForgetPolicy
  cases mutation.hardDelete with
  | true => exact edits_hardForgetOn mutation.affected
  | false => exact edits_softForgetOn mutation.affected mutation.appliedAt

end Tables
end Sqlite

namespace Facade

open Foundation
open Sqlite
open MenteDb.Graph
open Cognitive
open Consolidation

variable {F : Type} [Scalar F]

/-!
## Steps of an operation
-/

inductive Effect (w : World F) : World F -> Prop where
  | tick {n} : w.ticks <= n -> Effect w { w with ticks := n }
  | graph {g} : Effect w { w with graph := g }
  | phantom {t} : Effect w { w with phantom := t }
  | statement {t} : Tables.Statement w.embeddingDim w.tables t -> Effect w { w with tables := t }
  | rebuild {dim t} : dim ≠ 0 -> Tables.ensureVectorIndex dim w.tables = Except.ok t ->
      Effect w { w with tables := t, embeddingDim := dim }
  | reopen {speculative} :
      Effect w (openWithConfig w.tables speculative RetrievalConfig.default w.phantom.config
        w.ticks)

/-- Any number of steps. -/
def Reaches (w w' : World F) : Prop := Relation.ReflTransGen Effect w w'

/-- What every step keeps holds wherever the steps lead. -/
theorem Reaches.invariant {I : World F -> Prop} {w w' : World F} (h : Reaches w w')
    (hI : forall w w', Effect w w' -> I w -> I w') (hw : I w) : I w' := by
  induction h with
  | refl => exact hw
  | tail _ hstep ih => exact hI _ _ hstep ih

section Operations

variable {env : Env F} {w0 : World F}

theorem reaches_edits {w : World F} {t : Tables F} (h : Reaches w0 w)
    (hedits : Tables.Edits w.embeddingDim w.tables t) : Reaches w0 { w with tables := t } := by
  induction hedits with
  | refl => exact h
  | @tail mid t' _ hstep ih =>
      exact ih.tail (Effect.statement (w := { w with tables := mid }) hstep)

theorem ignoresTicks_reaches : IgnoresTicks (Reaches w0) :=
  fun _ _ hle hw => hw.tail (Effect.tick hle)

theorem keeps_clock_reaches : Prog.Keeps (Reaches w0) (currentTimeUs env) :=
  keeps_currentTimeUs ignoresTicks_reaches

theorem keeps_graph_reaches (f : World F -> CsrGraph F) :
    Prog.Keeps (Reaches w0) (Prog.modify (fun w => { w with graph := f w }) : Op F Unit) :=
  Prog.keeps_modify (fun _ hw => hw.tail Effect.graph)

/-- A transaction of statements, whatever dimension it reads. -/
theorem keeps_transact_reaches {tx : Nat -> Tx F}
    (h : forall dim t0, Atomic.Keeps (Tables.Edits dim t0) (tx dim)) :
    Prog.Keeps (Reaches w0) (do
      let dim ← Prog.gets World.embeddingDim
      transact env (tx dim)) := by
  intro w hw
  have hread : (Prog.gets World.embeddingDim >>= fun dim => transact env (tx dim)) w =
      transact env (tx w.embeddingDim) w := rfl
  rw [hread]
  have htriple : Prog.Triple
      (fun v => Reaches w0 v ∧ v.tables = w.tables ∧ v.embeddingDim = w.embeddingDim)
      (transact env (tx w.embeddingDim)) (fun _ => Reaches w0)
      (fun v => Reaches w0 v ∧ v.tables = w.tables ∧ v.embeddingDim = w.embeddingDim) := by
    apply triple_transact
    · intro v n hle hv
      exact ⟨ignoresTicks_reaches v n hle hv.1, hv.2⟩
    · intro v t hv hrun
      rw [hv.2.1] at hrun
      have hedits := h w.embeddingDim w.tables w.tables t Relation.ReflTransGen.refl hrun
      rw [← hv.2.1, ← hv.2.2] at hedits
      exact reaches_edits hv.1 hedits
  have hkeeps := htriple w ⟨hw, rfl, rfl⟩
  rcases hrun : transact env (tx w.embeddingDim) w with ⟨result, w'⟩
  rw [hrun] at hkeeps
  cases result with
  | ok _ => exact hkeeps
  | error _ => exact hkeeps.1

theorem keeps_transactAny_reaches {tx : Tx F}
    (h : forall dim t0, Atomic.Keeps (Tables.Edits dim t0) tx) :
    Prog.Keeps (Reaches w0) (transact env tx) := by
  have hread : Prog.Keeps (Reaches w0) (do
      let dim ← Prog.gets World.embeddingDim
      transact env ((fun _ => tx) dim)) := keeps_transact_reaches h
  exact fun w hw => hread w hw

theorem keeps_audit_reaches : Prog.Keeps (Reaches w0) (emitLifecycleEvent env) := by
  apply keeps_transactAny_reaches
  intro dim t0 t t' ht hrun
  cases hrun
  exact ht

theorem keeps_dbStoreMemory_reaches (node : MemoryNode F) :
    Prog.Keeps (Reaches w0) (dbStoreMemory env node) :=
  keeps_transact_reaches (fun _ _ => Tables.edits_storeMemory node)

theorem keeps_relate_reaches (edge : MemoryEdge F) :
    Prog.Keeps (Reaches w0) (relate env edge) := by
  apply Prog.Keeps.bind
  · exact keeps_transactAny_reaches
      (fun _ _ => Tables.keeps_edits (fun _ _ => Tables.Statement.addEdge))
  · intro _
    exact keeps_onGraph (fun _ _ hw => hw.tail Effect.graph)

theorem keeps_getMemory_reaches (id : MemoryId) :
    Prog.Keeps (Reaches w0) (getMemory id : Op F _) := by
  intro w hw
  unfold getMemory
  cases w.tables.getMemory id with
  | none => exact hw
  | some node => exact hw

theorem keeps_invalidateMemory_reaches (id : MemoryId) (at_ : Timestamp) :
    Prog.Keeps (Reaches w0) (invalidateMemory env id at_) := by
  apply Prog.Keeps.bind (keeps_getMemory_reaches id)
  intro node
  exact Prog.Keeps.bind (keeps_dbStoreMemory_reaches _) (fun _ => keeps_audit_reaches)

theorem keeps_rewriteMemory_reaches (id : MemoryId) (f : MemoryNode F -> MemoryNode F) :
    Prog.Keeps (Reaches w0) (rewriteMemory env id f) := by
  apply Prog.Keeps.bind (Prog.keeps_gets _)
  intro loaded
  cases loaded with
  | none => exact Prog.keeps_pure ()
  | some node =>
      exact Prog.Keeps.bind (keeps_dbStoreMemory_reaches _) (fun _ => keeps_audit_reaches)

/-!
## Storing
-/

theorem keeps_ensureVectorIndex_reaches (dim : Nat) :
    Prog.Keeps (Reaches w0) (ensureVectorIndex env dim) := by
  apply Prog.Keeps.bind (Prog.keeps_gets _)
  intro current
  apply Prog.triple_ite
  · intro _
    exact Prog.keeps_pure ()
  · intro hdim
    -- the table is replaced before the dimension is published; nothing fails in between
    apply Prog.Triple.bind (Q := fun _ w => Reaches w0 { w with embeddingDim := dim })
    · apply triple_transact ignoresTicks_reaches
      intro w t hw hrun
      exact hw.tail (Effect.rebuild (fun hzero => hdim (Or.inl hzero)) hrun)
    · intro _
      exact Prog.triple_modify (fun _ hw => hw)

theorem keeps_provision_reaches (nodes : List (MemoryNode F)) :
    Prog.Keeps (Reaches w0) (provision env nodes) :=
  keeps_provision_of keeps_ensureVectorIndex_reaches nodes

theorem keeps_indexMemoryEntities_reaches (node : MemoryNode F) :
    Prog.Keeps (Reaches w0) (indexMemoryEntities env node) := by
  apply keeps_indexMemoryEntities_of keeps_clock_reaches
  · intro entities aliases links
    exact keeps_transactAny_reaches
      (fun _ _ => Tables.keeps_edits (fun _ _ => Tables.Statement.replaceEntities))
  · intro names
    exact Prog.keeps_modify (fun _ hw => hw.tail Effect.phantom)

theorem keeps_relateNow_reaches (f : Timestamp -> MemoryEdge F) :
    Prog.Keeps (Reaches w0) (do
      let now ← currentTimeUs env
      relate env (f now)
      emitLifecycleEvent env) :=
  Prog.Keeps.bind keeps_clock_reaches
    (fun _ => Prog.Keeps.bind (keeps_relate_reaches _) (fun _ => keeps_audit_reaches))

theorem keeps_applyInferredAction_reaches (action : InferredAction F) :
    Prog.Keeps (Reaches w0) (applyInferredAction env action) := by
  cases action with
  | createEdge source target edgeType weight =>
      exact Prog.Keeps.bind keeps_clock_reaches (fun _ => keeps_relate_reaches _)
  | invalidateMemory memory supersededBy validUntil =>
      exact Prog.Keeps.bind (keeps_invalidateMemory_reaches _ _)
        (fun _ => keeps_relateNow_reaches _)
  | markObsolete memory supersededBy =>
      apply Prog.Keeps.bind keeps_clock_reaches
      intro now
      apply Prog.Keeps.bind (keeps_invalidateMemory_reaches _ _)
      intro _
      exact Prog.Keeps.bind (keeps_relate_reaches _) (fun _ => keeps_audit_reaches)
  | flagContradiction existing new reason => exact keeps_relateNow_reaches _
  | updateConfidence memory newConfidence => exact keeps_rewriteMemory_reaches _ _
  | propagateBeliefChange root delta =>
      apply Prog.Keeps.bind (Prog.keeps_gets _)
      intro affected
      exact Prog.Keeps.forEach (fun _ _ => keeps_rewriteMemory_reaches _ _)
  | updateContent memory newContent reason => exact keeps_rewriteMemory_reaches _ _

theorem keeps_runWriteInference_reaches (new : MemoryNode F) :
    Prog.Keeps (Reaches w0) (runWriteInference env new) :=
  keeps_runWriteInference_of (P := fun _ => True) keeps_clock_reaches (fun _ _ _ _ _ => trivial)
    (fun _ action _ _ => keeps_applyInferredAction_reaches action)

theorem keeps_store_reaches (node : MemoryNode F) :
    Prog.Keeps (Reaches w0) (store env node) :=
  keeps_store_of (keeps_provision_reaches [node]) (keeps_dbStoreMemory_reaches node)
    (fun _ hw => (keeps_graph_reaches
      (fun w => GraphManager.addMemory w.graph node.id)).state hw)
    (keeps_indexMemoryEntities_reaches node)
    (fun _ => keeps_runWriteInference_reaches node)

theorem keeps_storeBatch_reaches (nodes : List (MemoryNode F)) :
    Prog.Keeps (Reaches w0) (storeBatch env nodes) := by
  apply Prog.Keeps.bind (keeps_provision_reaches nodes)
  intro _
  have hbatch : Prog.Keeps (Reaches w0) (do
      let dim ← Prog.gets World.embeddingDim
      transact env (Tables.storeMemoryBatch dim nodes)) :=
    keeps_transact_reaches (fun _ _ => Tables.edits_storeMemoryBatch nodes)
  have hrest : Prog.Keeps (Reaches w0) (do
      Prog.forEach nodes (fun node => do
        Prog.modify (fun w => { w with graph := GraphManager.addMemory w.graph node.id })
        let _ ← Prog.attempt (indexMemoryEntities env node)
        pure ())
      pure (nodes.map MemoryNode.id)) := by
    refine Prog.Keeps.bind (Prog.Keeps.forEach ?_) (fun _ => Prog.keeps_pure _)
    intro node _
    apply Prog.Keeps.bind (keeps_graph_reaches _)
    intro _
    exact Prog.Keeps.bind (keeps_indexMemoryEntities_reaches node).attempt
      (fun _ => Prog.keeps_pure ())
  intro w hw
  have hboth := Prog.Keeps.bind hbatch (fun _ => hrest) w hw
  exact hboth

/-!
## Policies and maintenance
-/

theorem keeps_applyCorrectionPolicy_reaches (request : CorrectionRequest) :
    Prog.Keeps (Reaches w0) (applyCorrectionPolicy env request) := by
  apply Prog.Keeps.bind (keeps_getMemory_reaches _)
  intro _
  apply Prog.Keeps.bind (Prog.keeps_gets _)
  intro affected
  apply Prog.Keeps.bind keeps_clock_reaches
  intro now
  apply Prog.Keeps.bind
    (keeps_transactAny_reaches (fun _ _ => Tables.edits_applyCorrectionPolicy _))
  intro _
  exact Prog.Keeps.bind (keeps_graph_reaches _) (fun _ => Prog.keeps_pure _)

theorem keeps_applyEnrichmentPolicy_reaches (request : EnrichmentRequest F) :
    Prog.Keeps (Reaches w0) (applyEnrichmentPolicy env request) := by
  apply Prog.Keeps.bind (keeps_getMemory_reaches _)
  intro _
  apply Prog.Keeps.bind (keeps_getMemory_reaches _)
  intro _
  apply Prog.Keeps.bind keeps_clock_reaches
  intro now
  apply Prog.Keeps.bind
    (keeps_transactAny_reaches (fun _ _ => Tables.edits_applyCorrectionPolicy _))
  intro _
  exact Prog.Keeps.bind (keeps_graph_reaches _) (fun _ => Prog.keeps_pure _)

theorem keeps_applyForgetPolicy_reaches (scope : ForgetScope) (mode : ForgetMode) :
    Prog.Keeps (Reaches w0) (applyForgetPolicy env scope mode) := by
  apply Prog.Keeps.bind (Prog.keeps_gets _)
  intro affected
  apply Prog.Keeps.bind keeps_clock_reaches
  intro now
  apply Prog.Keeps.bind (keeps_transactAny_reaches (fun _ _ => Tables.edits_applyForgetPolicy _))
  intro _
  exact Prog.Keeps.bind (keeps_graph_reaches _) (fun _ => Prog.keeps_pure _)

theorem keeps_forget_reaches (id : MemoryId) : Prog.Keeps (Reaches w0) (forget env id) :=
  Prog.Keeps.bind (keeps_applyForgetPolicy_reaches _ _) (fun _ => Prog.keeps_pure ())

theorem keeps_writeLifecycle_reaches (updates : List (MemoryNode F)) :
    Prog.Keeps (Reaches w0) (writeLifecycle env updates) := by
  have hwrite : Prog.Keeps (Reaches w0) (do
      let dim ← Prog.gets World.embeddingDim
      transact env (Tables.applyLifecyclePolicy dim updates)) :=
    keeps_transact_reaches (fun _ _ => Tables.edits_applyLifecyclePolicy updates)
  intro w hw
  exact Prog.Keeps.bind hwrite (fun _ => Prog.keeps_pure (updates.map MemoryNode.id)) w hw

theorem keeps_applyDecayPolicyGlobal_reaches :
    Prog.Keeps (Reaches w0) (applyDecayPolicyGlobal env) := by
  apply Prog.Keeps.bind keeps_clock_reaches
  intro now
  exact Prog.Keeps.bind (Prog.keeps_gets _) (fun _ => keeps_writeLifecycle_reaches _)

theorem keeps_applyArchivePolicyGlobal_reaches :
    Prog.Keeps (Reaches w0) (applyArchivePolicyGlobal env) := by
  apply Prog.Keeps.bind keeps_clock_reaches
  intro now
  exact Prog.Keeps.bind (Prog.keeps_gets _) (fun _ => keeps_writeLifecycle_reaches _)

theorem keeps_applySleepDecay_reaches (maxMemories : Nat) (decayWriteEpsilon : F) :
    Prog.Keeps (Reaches w0) (applySleepDecay env maxMemories decayWriteEpsilon) := by
  apply Prog.Keeps.bind (Prog.keeps_gets _)
  intro loaded
  apply Prog.Keeps.bind keeps_clock_reaches
  intro now
  exact Prog.Keeps.forEach (fun node _ => keeps_dbStoreMemory_reaches node)

theorem keeps_retireSource_reaches (consolidatedId : MemoryId) (now : Timestamp)
    (sourceId : MemoryId) :
    Prog.Keeps (Reaches w0) (retireSource env consolidatedId now sourceId) := by
  apply Prog.Keeps.bind (keeps_invalidateMemory_reaches _ _).attempt
  intro _
  apply Prog.Keeps.bind (keeps_relate_reaches _).attempt
  intro _
  exact Prog.Keeps.bind keeps_audit_reaches.attempt (fun _ => Prog.keeps_pure ())

theorem keeps_consolidateCluster_reaches (memoryIds : List MemoryId) :
    Prog.Keeps (Reaches w0) (consolidateCluster env memoryIds) := by
  apply Prog.Keeps.bind (Prog.keeps_gets _)
  intro cluster
  split
  · apply Prog.Keeps.bind (Prog.keeps_gets _)
    intro id
    apply Prog.Keeps.bind keeps_clock_reaches
    intro createdAt
    apply Prog.Keeps.bind (keeps_store_reaches _)
    intro _
    apply Prog.Keeps.bind keeps_audit_reaches
    intro _
    apply Prog.Keeps.bind keeps_clock_reaches
    intro now
    exact Prog.Keeps.bind (Prog.Keeps.forEach (fun _ _ => keeps_retireSource_reaches _ _ _))
      (fun _ => Prog.keeps_pure _)
  · exact Prog.keeps_fail _

theorem keeps_reopen_reaches (speculative : SpeculativeCache F) :
    Prog.Keeps (Reaches w0) (reopen speculative) :=
  Prog.keeps_modify (fun _ hw => hw.tail Effect.reopen)

end Operations

/-!
## Reachable states
-/

/-- The calls that change a database. -/
inductive Call (F : Type) where
  | store (node : MemoryNode F)
  | storeBatch (nodes : List (MemoryNode F))
  | relate (edge : MemoryEdge F)
  | invalidateMemory (id : MemoryId) (at_ : Timestamp)
  | ensureVectorIndex (dim : Nat)
  | applyCorrectionPolicy (request : CorrectionRequest)
  | applyEnrichmentPolicy (request : EnrichmentRequest F)
  | applyForgetPolicy (scope : ForgetScope) (mode : ForgetMode)
  | forget (id : MemoryId)
  | applyDecayPolicyGlobal
  | applyArchivePolicyGlobal
  | applySleepDecay (maxMemories : Nat) (decayWriteEpsilon : F)
  | consolidateCluster (memoryIds : List MemoryId)
  | reopen (speculative : SpeculativeCache F)

/-- The state after a call, whether it succeeded or not. -/
def Call.step (env : Env F) (w : World F) : Call F -> World F
  | Call.store node => (Facade.store env node w).2
  | Call.storeBatch nodes => (Facade.storeBatch env nodes w).2
  | Call.relate edge => (Facade.relate env edge w).2
  | Call.invalidateMemory id at_ => (Facade.invalidateMemory env id at_ w).2
  | Call.ensureVectorIndex dim => (Facade.ensureVectorIndex env dim w).2
  | Call.applyCorrectionPolicy request => (Facade.applyCorrectionPolicy env request w).2
  | Call.applyEnrichmentPolicy request => (Facade.applyEnrichmentPolicy env request w).2
  | Call.applyForgetPolicy scope mode => (Facade.applyForgetPolicy env scope mode w).2
  | Call.forget id => (Facade.forget env id w).2
  | Call.applyDecayPolicyGlobal => (Facade.applyDecayPolicyGlobal env w).2
  | Call.applyArchivePolicyGlobal => (Facade.applyArchivePolicyGlobal env w).2
  | Call.applySleepDecay maxMemories decayWriteEpsilon =>
      (Facade.applySleepDecay env maxMemories decayWriteEpsilon w).2
  | Call.consolidateCluster memoryIds => (Facade.consolidateCluster env memoryIds w).2
  | Call.reopen speculative => (Facade.reopen speculative w).2

/-- A state some calls lead to from a new database. -/
def Reachable (env : Env F) (w : World F) : Prop :=
  exists speculative retrievalConfig phantomConfig ticks calls,
    w = List.foldl (Call.step env)
      (openWithConfig Tables.empty speculative retrievalConfig phantomConfig ticks) calls

theorem Call.reaches_step {env : Env F} {w0 w : World F} (h : Reaches w0 w) (call : Call F) :
    Reaches w0 (call.step env w) := by
  cases call with
  | store node => exact (keeps_store_reaches node).state h
  | storeBatch nodes => exact (keeps_storeBatch_reaches nodes).state h
  | relate edge => exact (keeps_relate_reaches edge).state h
  | invalidateMemory id at_ => exact (keeps_invalidateMemory_reaches id at_).state h
  | ensureVectorIndex dim => exact (keeps_ensureVectorIndex_reaches dim).state h
  | applyCorrectionPolicy request => exact (keeps_applyCorrectionPolicy_reaches request).state h
  | applyEnrichmentPolicy request => exact (keeps_applyEnrichmentPolicy_reaches request).state h
  | applyForgetPolicy scope mode => exact (keeps_applyForgetPolicy_reaches scope mode).state h
  | forget id => exact (keeps_forget_reaches id).state h
  | applyDecayPolicyGlobal => exact keeps_applyDecayPolicyGlobal_reaches.state h
  | applyArchivePolicyGlobal => exact keeps_applyArchivePolicyGlobal_reaches.state h
  | applySleepDecay maxMemories decayWriteEpsilon =>
      exact (keeps_applySleepDecay_reaches maxMemories decayWriteEpsilon).state h
  | consolidateCluster memoryIds => exact (keeps_consolidateCluster_reaches memoryIds).state h
  | reopen speculative => exact (keeps_reopen_reaches speculative).state h

/-- What holds of new databases and is kept by every step holds in every reachable
state. -/
theorem Reachable.invariant {env : Env F} {I : World F -> Prop} {w : World F}
    (h : Reachable env w)
    (hopen : forall speculative retrievalConfig phantomConfig ticks,
      I (openWithConfig Tables.empty speculative retrievalConfig phantomConfig ticks))
    (hI : forall w w', Effect w w' -> I w -> I w') : I w := by
  rcases h with ⟨speculative, retrievalConfig, phantomConfig, ticks, calls, heq⟩
  rw [heq]
  have hreaches : Reaches
      (openWithConfig Tables.empty speculative retrievalConfig phantomConfig ticks)
      (List.foldl (Call.step env)
        (openWithConfig Tables.empty speculative retrievalConfig phantomConfig ticks) calls) :=
    (Run.unguarded (Call.step env) _ calls).invariant (I := Reaches _)
      (fun _ call hw _ => Call.reaches_step hw call) Relation.ReflTransGen.refl
  exact hreaches.invariant hI (hopen speculative retrievalConfig phantomConfig ticks)

/-!
### Edges carry the label of their type
-/

end Facade
end MenteDb
