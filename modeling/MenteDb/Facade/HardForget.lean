import MenteDb.Facade.Policies

/-!
# Hard forgets erase

A successful hard forget leaves no row that mentions an affected memory and
touches only rows reached from the affected ids.  A failed one changes nothing.
-/

namespace MenteDb
namespace Facade

open Foundation
open Sqlite

variable {F : Type} [Scalar F]

theorem applyForgetPolicy_hard_erases (env : Env F) (scope : ForgetScope) (w : World F) :
    (forall affected,
      (applyForgetPolicy env scope ForgetMode.hard w).1 = Except.ok affected ->
      affected = buildForgetPlan w.tables scope ∧
      (forall id row, id ∈ affected.memoryIds -> w.tables.memories.find? id = some row ->
        Erased (applyForgetPolicy env scope ForgetMode.hard w).2.tables id row.rowid) ∧
      (forall ref, ¬ Reached w.tables affected ref ->
        SameRow w.tables (applyForgetPolicy env scope ForgetMode.hard w).2.tables ref)) ∧
    (forall e, (applyForgetPolicy env scope ForgetMode.hard w).1 = Except.error e ->
      (applyForgetPolicy env scope ForgetMode.hard w).2 = { w with ticks := w.ticks + 2 }) := by
  rcases applyForgetPolicy_cases env scope ForgetMode.hard w with ⟨e, hfail⟩ | ⟨t, hrun, hdone⟩
  · rw [hfail]
    constructor
    · intro affected hok
      cases hok
    · intro _ _
      rfl
  · rw [hdone]
    constructor
    · intro affected hok
      cases hok
      refine ⟨rfl, ?_, ?_⟩
      · intro id row hid hrow
        exact hardForgetOn_erases hid hrow hrun
      · intro ref href
        exact (Between.hardForgetOn w.tables _ w.tables t (Between.refl w.tables _)
          hrun).sameRow href
    · intro e herror
      cases herror

/-- A database with one memory that carries a tag and a vector. -/
def tripWorld : World Rat :=
  (store (calmEnv CognitiveConfig.default)
    { MemoryNode.new ⟨7⟩ 1000 AgentId.nil MemoryType.semantic "Turin" [3, 4] with
      tags := ["trip"] } emptyWorld).2

theorem applyForgetPolicy_hard_erases_trip :
    (tripWorld.tables.memories.find? ⟨7⟩).map MemoryRow.rowid = some 1 ∧
      Erased (applyForgetPolicy (calmEnv CognitiveConfig.default) (ForgetScope.tag "trip")
        ForgetMode.hard tripWorld).2.tables ⟨7⟩ 1 := by
  have hrowid : (tripWorld.tables.memories.find? ⟨7⟩).map MemoryRow.rowid = some 1 := by
    decide +kernel
  rcases Option.map_eq_some_iff.mp hrowid with ⟨row, hrow, hone⟩
  have hok : (applyForgetPolicy (calmEnv CognitiveConfig.default) (ForgetScope.tag "trip")
      ForgetMode.hard tripWorld).1 =
      Except.ok (buildForgetPlan tripWorld.tables (ForgetScope.tag "trip")) := by
    decide +kernel
  have hmem : (⟨7⟩ : MemoryId) ∈
      (buildForgetPlan tripWorld.tables (ForgetScope.tag "trip")).memoryIds := by
    decide +kernel
  have herased := ((applyForgetPolicy_hard_erases (calmEnv CognitiveConfig.default)
    (ForgetScope.tag "trip") tripWorld).1 _ hok).2.1 ⟨7⟩ row hmem hrow
  rw [hone] at herased
  exact ⟨hrowid, herased⟩

end Facade
end MenteDb
