import MenteDb.Facade.ForgetScope
import MenteDb.Facade.Policies
import MenteDb.Sqlite.Erasure

/-!
# What belongs to an agent

Every memory names the agent it belongs to, and an edge between two memories of
an agent is the agent's as well.  The rules below say when an operation leaves
the data of one agent as they are.
-/

namespace MenteDb
namespace Facade

open Foundation
open Sqlite
open MenteDb.Graph
open Cognitive

variable {F : Type}

/-- The memory, if it belongs to the agent. -/
def memoryOf (agent : AgentId) (t : Tables F) (id : MemoryId) : Option (MemoryNode F) :=
  (t.getMemory id).filter (fun node => decide (node.agentId = agent))

/-- Both ends of an edge are memories of the agent. -/
def JoinsOwn (agent : AgentId) (t : Tables F) (source target : MemoryId) : Prop :=
  (memoryOf agent t source).isSome = true ∧ (memoryOf agent t target).isSome = true

instance (agent : AgentId) (t : Tables F) (source target : MemoryId) :
    Decidable (JoinsOwn agent t source target) := inferInstanceAs (Decidable (_ ∧ _))

/-- No memory of the agent and no edge between its memories was added, changed or
deleted; equal edge rows are counted. -/
structure Untouched [DecidableEq F] (agent : AgentId) (t0 t : Tables F) : Prop where
  memories : forall id, memoryOf agent t id = memoryOf agent t0 id
  edges : forall row : EdgeRow F, JoinsOwn agent t0 row.source row.target ->
    t.edges.count row = t0.edges.count row

theorem memoryOf_eq_some {agent : AgentId} {t : Tables F} {id : MemoryId}
    {node : MemoryNode F} :
    memoryOf agent t id = some node <-> t.getMemory id = some node ∧ node.agentId = agent := by
  unfold memoryOf
  rw [Option.filter_eq_some_iff]
  simp

theorem memoryOf_of_ne {agent : AgentId} {t : Tables F} {id : MemoryId} {node : MemoryNode F}
    (hget : t.getMemory id = some node) (hne : node.agentId ≠ agent) :
    memoryOf agent t id = none := by
  unfold memoryOf
  rw [hget]
  simp [hne]

theorem agentId_ne_of_memoryOf {agent : AgentId} {t : Tables F} {id : MemoryId}
    {node : MemoryNode F} (h : memoryOf agent t id = none) (hget : t.getMemory id = some node) :
    node.agentId ≠ agent := by
  intro heq
  have hsome := memoryOf_eq_some.mpr ⟨hget, heq⟩
  rw [h] at hsome
  cases hsome

theorem not_joinsOwn_of_source {agent : AgentId} {t : Tables F} {source target : MemoryId}
    (h : memoryOf agent t source = none) : ¬ JoinsOwn agent t source target := by
  intro hjoin
  have hsome := hjoin.1
  rw [h] at hsome
  cases hsome

/-!
## Transactions
-/

section Transactions

variable [Scalar F] {agent : AgentId} {t0 t t' : Tables F}

namespace Untouched

theorem refl (agent : AgentId) (t : Tables F) : Untouched agent t t where
  memories _ := rfl
  edges _ _ := rfl

theorem trans (h : Untouched agent t0 t) (h' : Untouched agent t t') :
    Untouched agent t0 t' where
  memories id := (h'.memories id).trans (h.memories id)
  edges row hrow := by
    have hjoin : JoinsOwn agent t row.source row.target := by
      unfold JoinsOwn
      rw [h.memories, h.memories]
      exact hrow
    exact (h'.edges row hjoin).trans (h.edges row hrow)

theorem of_same (hmemories : t'.memories = t.memories) (htags : t'.memoryTags = t.memoryTags)
    (hedges : t'.edges = t.edges) : Untouched agent t t' where
  memories id := by
    unfold memoryOf Tables.getMemory Tables.tagsOf
    rw [hmemories, htags]
  edges row _ := by rw [hedges]

/-- A written memory that is not the agent's, under an identifier that is not. -/
theorem storeMemoryOn {node : MemoryNode F} {dim : Nat} (hagent : node.agentId ≠ agent)
    (hid : memoryOf agent t node.id = none)
    (hrun : Tables.storeMemoryOn node dim t = Except.ok t') : Untouched agent t t' where
  memories j := by
    by_cases hj : j = node.id
    · have hrow : exists row, t'.memories.find? j = some row ∧ row.agentId = node.agentId := by
        rw [Tables.storeMemoryOn_find? hrun, if_pos hj]
        refine ⟨_, rfl, ?_⟩
        split
        · rfl
        · rfl
      rcases hrow with ⟨row, hfind, hsame⟩
      have hget : t'.getMemory j = some (Tables.nodeOfRow j row (t'.tagsOf j)) := by
        unfold Tables.getMemory
        rw [hfind]
        rfl
      have hne : (Tables.nodeOfRow j row (t'.tagsOf j)).agentId ≠ agent := by
        show row.agentId ≠ agent
        rw [hsame]
        exact hagent
      rw [memoryOf_of_ne hget hne, hj, hid]
    · have hget : t'.getMemory j = t.getMemory j := by
        apply Tables.getMemory_congr
        · rw [Tables.storeMemoryOn_find? hrun, if_neg hj]
        · intro tag
          rw [Tables.storeMemoryOn_tags hrun]
          simp [hj]
      unfold memoryOf
      rw [hget]
  edges row _ := by rw [Tables.storeMemoryOn_edges hrun]

theorem addEdgeOn {edge : MemoryEdge F} (h : ¬ JoinsOwn agent t edge.source edge.target)
    (hrun : Tables.addEdgeOn edge t = Except.ok t') : Untouched agent t t' := by
  cases hrun
  constructor
  · intro id
    rfl
  · intro row hrow
    have hne : row ≠ Tables.rowOfEdge edge := by
      intro heq
      rw [heq] at hrow
      exact h hrow
    rw [List.count_append, List.count_singleton]
    simp [hne.symm]

/-- A hard forget of memories that are not the agent's. -/
theorem hardForgetOn {a : PolicyAffected}
    (h : forall id, id ∈ a.memoryIds -> memoryOf agent t id = none)
    (hrun : Tables.hardForgetOn a t = Except.ok t') : Untouched agent t t' := by
  have hbetween := Between.hardForgetOn t a t t' (Between.refl t a) hrun
  have hkept : forall id, (memoryOf agent t id).isSome = true ->
      ¬ Deleted t a (RowRef.memory id) := by
    intro id hown hdel
    cases hdel with
    | memory hid _ =>
        rw [h id hid] at hown
        cases hown
  have hget : forall id, ¬ Deleted t a (RowRef.memory id) -> t'.getMemory id = t.getMemory id := by
    intro id hid
    apply Tables.getMemory_congr
    · exact (hbetween.memories id).eq_of_not hid not_false
    · intro tag
      have htag : ¬ Deleted t a (RowRef.tag (id, tag)) := by
        intro hdel
        cases hdel with
        | tag hmemory => exact hid hmemory
      have hsame := (hbetween.tags (id, tag)).eq_of_not htag not_false
      unfold Assoc.contains
      rw [hsame]
  constructor
  · intro id
    by_cases hdel : Deleted t a (RowRef.memory id)
    · cases hdel with
      | memory hid hrow =>
          have herased := hardForgetOn_erases hid hrow hrun
          have hgone : t'.getMemory id = none := by
            unfold Tables.getMemory
            rw [herased.memories]
            rfl
          rw [h id hid]
          unfold memoryOf
          rw [hgone]
          rfl
    · unfold memoryOf
      rw [hget id hdel]
  · intro row hrow
    cases hbetween.edges row with
    | inl heq => exact heq
    | inr hdel =>
        cases hdel with
        | edgeSource hsource => exact absurd hsource (hkept _ hrow.1)
        | edgeTarget htarget => exact absurd htarget (hkept _ hrow.2)

end Untouched

end Transactions

/-!
## Operations
-/

/-- The agent's data are those of the given tables. -/
def Spared [DecidableEq F] (agent : AgentId) (t0 : Tables F) (w : World F) : Prop :=
  Untouched agent t0 w.tables

section Operations

variable [Scalar F] {env : Env F} {agent : AgentId} {t0 : Tables F}

theorem viewsMemories_spared : ViewsMemories (Spared agent t0) := by
  intro w w' _ hmemories htags hedges _ hw
  exact hw.trans (Untouched.of_same hmemories htags hedges)

theorem keeps_transact_spared {tx : Tx F}
    (h : forall t t', Untouched agent t0 t -> tx t = Except.ok t' -> Untouched agent t t') :
    Prog.Keeps (Spared agent t0) (transact env tx) := by
  apply keeps_transact viewsMemories_spared.ignoresTicks
  intro w t hw hrun
  exact hw.trans (h w.tables t hw hrun)

theorem keeps_relate_spared {edge : MemoryEdge F}
    (h : ¬ JoinsOwn agent t0 edge.source edge.target) :
    Prog.Keeps (Spared agent t0) (relate env edge) := by
  apply Prog.Keeps.bind
  · apply keeps_transact_spared
    intro t t' ht hrun
    refine Untouched.addEdgeOn ?_ hrun
    unfold JoinsOwn
    rw [ht.memories, ht.memories]
    exact h
  · intro _
    exact keeps_onGraph (fun _ _ hw => hw)

theorem keeps_dbStoreMemory_spared {node : MemoryNode F} (hagent : node.agentId ≠ agent)
    (hid : memoryOf agent t0 node.id = none) :
    Prog.Keeps (Spared agent t0) (dbStoreMemory env node) := by
  apply Prog.Keeps.bind (Prog.keeps_gets _)
  intro dim
  apply keeps_transact_spared
  intro t t' ht hrun
  refine Untouched.storeMemoryOn hagent ?_ (Tables.storeMemory_ok hrun)
  rw [ht.memories]
  exact hid

theorem keeps_storeBack_spared {node : MemoryNode F} (hagent : node.agentId ≠ agent)
    (hid : memoryOf agent t0 node.id = none) :
    Prog.Keeps (Spared agent t0) (do
      dbStoreMemory env node
      emitLifecycleEvent env) := by
  apply Prog.Keeps.bind (keeps_dbStoreMemory_spared hagent hid)
  intro _
  exact keeps_emitLifecycleEvent viewsMemories_spared

/-- What is loaded under an identifier that is not the agent's is not the agent's. -/
theorem Spared.loaded {w : World F} (hw : Spared agent t0 w) {id : MemoryId}
    {node : MemoryNode F} (hid : memoryOf agent t0 id = none)
    (hget : w.tables.getMemory id = some node) :
    node.agentId ≠ agent ∧ memoryOf agent t0 node.id = none := by
  rw [Tables.getMemory_id hget]
  refine ⟨?_, hid⟩
  rw [← hw.memories] at hid
  exact agentId_ne_of_memoryOf hid hget

theorem keeps_invalidateMemory_spared {id : MemoryId} {at_ : Timestamp}
    (hid : memoryOf agent t0 id = none) :
    Prog.Keeps (Spared agent t0) (invalidateMemory env id at_) := by
  apply Prog.Triple.bind (Q := fun node w => Spared agent t0 w ∧
    node.agentId ≠ agent ∧ memoryOf agent t0 node.id = none)
  · intro w hw
    unfold getMemory
    cases hget : w.tables.getMemory id with
    | none => exact hw
    | some node => exact ⟨hw, hw.loaded hid hget⟩
  · intro node w hw
    have hback : Prog.Keeps (Spared agent t0) (do
        dbStoreMemory env (node.invalidate at_)
        emitLifecycleEvent env) := keeps_storeBack_spared hw.2.1 hw.2.2
    exact hback w hw.1

theorem keeps_rewriteMemory_spared {id : MemoryId} {f : MemoryNode F -> MemoryNode F}
    (hf : forall node, (f node).id = node.id ∧ (f node).agentId = node.agentId)
    (hid : memoryOf agent t0 id = none) :
    Prog.Keeps (Spared agent t0) (rewriteMemory env id f) := by
  apply Prog.Triple.bind (Q := fun loaded w => Spared agent t0 w ∧
    forall node, loaded = some node ->
      node.agentId ≠ agent ∧ memoryOf agent t0 node.id = none)
  · apply Prog.triple_gets
    intro w hw
    exact ⟨hw, fun node hget => hw.loaded hid hget⟩
  · intro loaded w hw
    cases loaded with
    | none => exact hw.1
    | some node =>
        have hforeign := hw.2 node rfl
        rw [← (hf node).1, ← (hf node).2] at hforeign
        exact keeps_storeBack_spared hforeign.1 hforeign.2 w hw.1

/-!
### Write inference

Candidates are the similar memories of all agents, so an inference can rewrite a
memory of another agent; it does so past two thresholds of similarity.
-/

/-- Inference on the new memory leaves the existing one as it is. -/
def Spares (config : WriteInferenceConfig F) (new existing : MemoryNode F) : Prop :=
  ¬ (config.obsoleteThreshold < cosineSimilarity new.embedding existing.embedding ∧
    existing.createdAt < new.createdAt) ∧
  ¬ (new.memoryType = MemoryType.correction ∧
    config.correctionThreshold < cosineSimilarity new.embedding existing.embedding)

instance (config : WriteInferenceConfig F) (new existing : MemoryNode F) :
    Decidable (Spares config new existing) := inferInstanceAs (Decidable (_ ∧ _))

theorem keeps_applyInferredAction_spared {config : WriteInferenceConfig F}
    {new existing : MemoryNode F} {action : InferredAction F}
    (haction : Concludes config new existing action) (hnew : memoryOf agent t0 new.id = none)
    (hexisting : memoryOf agent t0 existing.id = none ∨ Spares config new existing) :
    Prog.Keeps (Spared agent t0) (applyInferredAction env action) := by
  have hemit : Prog.Keeps (Spared agent t0) (emitLifecycleEvent env) :=
    keeps_emitLifecycleEvent viewsMemories_spared
  have hnow : Prog.Keeps (Spared agent t0) (currentTimeUs env) :=
    keeps_currentTimeUs viewsMemories_spared.ignoresTicks
  -- every edge an inference adds starts at the new memory
  have hrelate : forall now target edgeType weight label, Prog.Keeps (Spared agent t0)
      (relate env (inferredEdge now new.id target edgeType weight label)) :=
    fun _ _ _ _ _ => keeps_relate_spared (not_joinsOwn_of_source hnew)
  cases haction with
  | contradiction reason _ =>
      apply Prog.Keeps.bind hnow
      intro now
      exact Prog.Keeps.bind (hrelate _ _ _ _ _) (fun _ => hemit)
  | obsolete hsim hcreated =>
      have hforeign : memoryOf agent t0 existing.id = none := by
        cases hexisting with
        | inl hforeign => exact hforeign
        | inr hspares => exact absurd ⟨hsim, hcreated⟩ hspares.1
      apply Prog.Keeps.bind hnow
      intro now
      apply Prog.Keeps.bind (keeps_invalidateMemory_spared hforeign)
      intro _
      exact Prog.Keeps.bind (hrelate _ _ _ _ _) (fun _ => hemit)
  | invalid hsim hcreated =>
      have hforeign : memoryOf agent t0 existing.id = none := by
        cases hexisting with
        | inl hforeign => exact hforeign
        | inr hspares => exact absurd ⟨hsim, hcreated⟩ hspares.1
      apply Prog.Keeps.bind (keeps_invalidateMemory_spared hforeign)
      intro _
      apply Prog.Keeps.bind hnow
      intro now
      exact Prog.Keeps.bind (hrelate _ _ _ _ _) (fun _ => hemit)
  | edge edgeType weight =>
      exact Prog.Keeps.bind hnow (fun _ => hrelate _ _ _ _ _)
  | confidence c htype hsim =>
      cases hexisting with
      | inl hforeign => exact keeps_rewriteMemory_spared (fun _ => ⟨rfl, rfl⟩) hforeign
      | inr hspares => exact absurd ⟨htype, hsim⟩ hspares.2

/-- The agent's memories are all out of reach of the new memory's inferences. -/
def SparesAll (config : WriteInferenceConfig F) (agent : AgentId) (t0 : Tables F)
    (new : MemoryNode F) : Prop :=
  forall id existing, memoryOf agent t0 id = some existing -> Spares config new existing

theorem keeps_runWriteInference_spared {new : MemoryNode F}
    (hnew : memoryOf agent t0 new.id = none)
    (hspares : SparesAll env.config.inferenceConfig agent t0 new) :
    Prog.Keeps (Spared agent t0) (runWriteInference env new) := by
  apply keeps_runWriteInference_of (P := fun m => memoryOf agent t0 m.id = none ∨
    Spares env.config.inferenceConfig new m)
    (keeps_currentTimeUs viewsMemories_spared.ignoresTicks)
  · intro w id m hw hget
    rw [Tables.getMemory_id hget]
    cases hown : memoryOf agent t0 id with
    | none => exact Or.inl rfl
    | some node =>
        have hnode := hown
        rw [← hw.memories, memoryOf_eq_some, hget] at hnode
        cases hnode.1
        exact Or.inr (hspares id m hown)
  · intro existing action hexisting haction
    rcases concludes_inferOnWrite haction with ⟨m, hm, hconcludes⟩
    exact keeps_applyInferredAction_spared hconcludes hnew (hexisting m hm)

theorem keeps_store_spared {node : MemoryNode F} (hagent : node.agentId ≠ agent)
    (hid : memoryOf agent t0 node.id = none)
    (hspares : env.config.writeInference = true ->
      SparesAll env.config.inferenceConfig agent t0 node) :
    Prog.Keeps (Spared agent t0) (store env node) :=
  keeps_store_of (keeps_provision viewsMemories_spared [node])
    (keeps_dbStoreMemory_spared hagent hid) (fun _ hw => hw)
    (keeps_indexMemoryEntities viewsMemories_spared node)
    (fun hinference => keeps_runWriteInference_spared hid (hspares hinference))

theorem keeps_forget_spared {id : MemoryId} (hid : memoryOf agent t0 id = none) :
    Prog.Keeps (Spared agent t0) (forget env id) := by
  have hpolicy : Prog.Keeps (Spared agent t0)
      (applyForgetPolicy env (ForgetScope.memory id) ForgetMode.hard) := by
    intro w hw
    rcases applyForgetPolicy_cases env (ForgetScope.memory id) ForgetMode.hard w with
      ⟨e, hfail⟩ | ⟨t, hrun, hdone⟩
    · rw [hfail]
      exact hw
    · rw [hdone]
      refine hw.trans (Untouched.hardForgetOn ?_ hrun)
      intro j hj
      have hplan : j ∈ (buildForgetPlan w.tables (ForgetScope.memory id)).memoryIds := hj
      rw [mem_buildForgetPlan_memoryIds] at hplan
      have heq : j = id := List.mem_singleton.mp hplan
      rw [heq, hw.memories]
      exact hid
  exact Prog.Keeps.bind hpolicy (fun _ => Prog.keeps_pure ())

end Operations

end Facade
end MenteDb
