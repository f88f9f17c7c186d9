import MenteDb.Facade.Scans
import MenteDb.Server.Handlers

/-!
# Deletion over REST

An authenticated DELETE looks for the memory in the window of
{lit}`RECALL memories LIMIT 1000`.  The statement has no filter, so it is planned as a
scan for no tag, and the window of a scan is empty.
-/

namespace MenteDb
namespace Server

open Foundation
open Facade
open Query
open Context
open Sqlite

variable {F : Type}

section Deletion

variable [Scalar F]

omit [Scalar F] in
theorem planRecall_recallThousand :
    planRecall ({ filters := [], near := none, limit := some 1000, orderBy := none } :
      RecallStatement F) = Except.ok recallThousand := rfl

/-- Nothing but the clock counter changes. -/
def Unaltered (w w' : World F) : Prop := exists n, w' = { w with ticks := n }

/-- What an exact deletion does, by the memory stored under the id. -/
structure ExactDelete (w : World F) (agent : AgentId) (id : MemoryId)
    (answer : Except ServerError (Response F)) (w' : World F) : Prop where
  deletes : forall m, w.tables.getMemory id = some m ->
    (w'.tables.getMemory id = none <-> m.agentId = agent)
  forbids : forall m, w.tables.getMemory id = some m ->
    (answer = Except.error differentAgent ∧ Unaltered w w' <-> m.agentId ≠ agent)
  notFound : answer = Except.error (memoryNotFound id) <-> w.tables.getMemory id = none

/-- The window the handler searches is empty in every state. -/
theorem recallPlan_recallThousand (env : Env F) (w : World F) :
    exists window w', recallPlan env recallThousand w = (Except.ok window, w') ∧
      window.memories = [] ∧ Unaltered w w' := by
  rcases executePlan_tagScan env w [] [] (some 1000) with ⟨w', hrun⟩
  have hstate := recallPlan_state env w recallThousand
  have hrecall : recallPlan env recallThousand w =
      (Except.ok (assemble env.text [] [] AssemblyConfig.default), w') := by
    rw [recallPlan_eq]
    unfold recallThousand
    rw [hrun]
  rw [hrecall] at hstate
  refine ⟨_, w', hrecall, ?_, hstate⟩
  refine List.eq_nil_iff_forall_not_mem.mpr ?_
  intro sm hsm
  exact absurd (mem_of_mem_assemble hsm) List.not_mem_nil

theorem forgetMemory_authenticated (env : Env F) (agent : AgentId) (id : MemoryId)
    (w : World F) :
    (forgetMemory env (some agent) id w).1 = Except.error (memoryNotFound id) ∧
      Unaltered w (forgetMemory env (some agent) id w).2 := by
  rcases recallPlan_recallThousand env w with ⟨window, w', hrecall, hempty, hsame⟩
  have hdatabase : onDatabase "recall" (recallPlan env recallThousand) w =
      (Except.ok window, w') := by
    unfold onDatabase Prog.mapError
    rw [hrecall]
    rfl
  have howner : checkOwner agent id window w' = (Except.error (memoryNotFound id), w') := by
    unfold checkOwner
    rw [hempty]
    rfl
  have hcheck : checkDelete env id (some agent) w = (Except.error (memoryNotFound id), w') :=
    (Prog.bind_of_ok hdatabase).trans howner
  have hrun : forgetMemory env (some agent) id w = (Except.error (memoryNotFound id), w') :=
    Prog.bind_of_error hcheck
  rw [hrun]
  exact ⟨rfl, hsame⟩

/-- The handler is exact only where there is nothing to delete. -/
theorem forgetMemory_exact_iff (env : Env F) (agent : AgentId) (id : MemoryId) (w : World F) :
    ExactDelete w agent id (forgetMemory env (some agent) id w).1
        (forgetMemory env (some agent) id w).2 <->
      w.tables.getMemory id = none := by
  have hanswer := forgetMemory_authenticated env agent id w
  constructor
  · intro h
    exact h.notFound.mp hanswer.1
  · intro hnone
    refine ⟨?_, ?_, ?_⟩
    · intro m hm
      rw [hnone] at hm
      cases hm
    · intro m hm
      rw [hnone] at hm
      cases hm
    · exact ⟨fun _ => hnone, fun _ => hanswer.1⟩

end Deletion

/-!
### An agent deletes its only memory
-/

def ownEnv : Env Rat := calmEnv CognitiveConfig.default

def ownMemory : MemoryNode Rat :=
  MemoryNode.new ⟨7⟩ 1000 ⟨1⟩ MemoryType.semantic "Turin" [3, 4]

def ownWorld : World Rat := (store ownEnv ownMemory emptyWorld).2

/-- The memory is the caller's and the only one; the answer is that it was not found,
and it stays. -/
theorem own_memory_not_deleted :
    (store ownEnv ownMemory emptyWorld).1 = Except.ok () ∧
      ownWorld.tables.allMemoryIds = [⟨7⟩] ∧
      (forgetMemory ownEnv (some ownMemory.agentId) ⟨7⟩ ownWorld).1 =
        Except.error (memoryNotFound ⟨7⟩) ∧
      ((forgetMemory ownEnv (some ownMemory.agentId) ⟨7⟩ ownWorld).2.tables.getMemory
        ⟨7⟩).isSome = true ∧
      ¬ ExactDelete ownWorld ownMemory.agentId ⟨7⟩
        (forgetMemory ownEnv (some ownMemory.agentId) ⟨7⟩ ownWorld).1
        (forgetMemory ownEnv (some ownMemory.agentId) ⟨7⟩ ownWorld).2 := by
  have hstored : (ownWorld.tables.getMemory ⟨7⟩).isSome = true := by decide +kernel
  have hanswer := forgetMemory_authenticated ownEnv ownMemory.agentId ⟨7⟩ ownWorld
  refine ⟨by decide +kernel, by decide +kernel, hanswer.1, ?_, ?_⟩
  · rcases hanswer.2 with ⟨n, hn⟩
    rw [hn]
    exact hstored
  · intro h
    rw [h.notFound.mp hanswer.1] at hstored
    cases hstored

end Server
end MenteDb
