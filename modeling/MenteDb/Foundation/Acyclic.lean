import Mathlib.Data.Fintype.Card
import Mathlib.Data.Fintype.Sets
import Mathlib.Data.Fintype.EquivFin
import Mathlib.Logic.Relation
import Mathlib.Order.WellFounded

/-!
# Relations without cycles

When pairs are added to a relation, a cycle can only appear through one of them:
a new pair closes a path that leads back from its end to its start.
-/

namespace Foundation

open Relation

variable {α : Type} {r s : α -> α -> Prop}

def Acyclic (r : α -> α -> Prop) : Prop := forall x, ¬ TransGen r x x

/-- One of the two relations. -/
def Beside (r s : α -> α -> Prop) (x y : α) : Prop := r x y ∨ s x y

theorem Acyclic.of_le (h : Acyclic s) (hle : forall x y, r x y -> s x y) : Acyclic r :=
  fun x hcycle => h x (TransGen.mono hle x x hcycle)

/-- A path through both relations stays in the first or takes a step of the second. -/
theorem transGen_beside {x y : α} (h : TransGen (Beside r s) x y) :
    TransGen r x y ∨ exists a b, ReflTransGen (Beside r s) x a ∧ s a b ∧
      ReflTransGen (Beside r s) b y := by
  induction h with
  | @single y hxy =>
      cases hxy with
      | inl hr => exact Or.inl (TransGen.single hr)
      | inr hs => exact Or.inr ⟨x, y, ReflTransGen.refl, hs, ReflTransGen.refl⟩
  | @tail y z hpath hyz ih =>
      rcases ih with hold | ⟨a, b, hxa, hab, hby⟩
      · cases hyz with
        | inl hr => exact Or.inl (hold.tail hr)
        | inr hs => exact Or.inr ⟨y, z, hpath.to_reflTransGen, hs, ReflTransGen.refl⟩
      · exact Or.inr ⟨a, b, hxa, hab, hby.tail hyz⟩

/-- Added pairs that close no path leave a relation without cycles. -/
theorem Acyclic.beside (h : Acyclic r)
    (hnew : forall x y, s x y -> ¬ ReflTransGen (Beside r s) y x) : Acyclic (Beside r s) := by
  intro x hcycle
  rcases transGen_beside hcycle with hold | ⟨a, b, hxa, hab, hbx⟩
  · exact h x hold
  · exact hnew a b hab (hbx.trans hxa)

/-- When all added pairs start at one element, a path to it needs none of them. -/
theorem reflTransGen_of_beside {x y : α} (hs : forall a b, s a b -> a = x)
    (h : ReflTransGen (Beside r s) y x) : ReflTransGen r y x := by
  induction h using ReflTransGen.head_induction_on with
  | refl => exact ReflTransGen.refl
  | @head a c hac _ ih =>
      cases hac with
      | inl hr => exact ReflTransGen.head hr ih
      | inr hnew =>
          rw [hs a c hnew]

/-- A nonempty finite set has a member that no member leads to. -/
theorem Acyclic.exists_source (h : Acyclic r) {members : Finset α} (hne : members.Nonempty) :
    exists y, y ∈ members ∧ forall x, x ∈ members -> ¬ r x y := by
  let below : members -> members -> Prop := fun a b => TransGen r a.1 b.1
  have : IsTrans members below := ⟨fun _ _ _ hab hbc => TransGen.trans hab hbc⟩
  have : Std.Irrefl below := ⟨fun a => h a.1⟩
  have hwf : WellFounded below := Finite.wellFounded_of_trans_of_irrefl below
  rcases hne with ⟨z, hz⟩
  rcases hwf.has_min Set.univ ⟨⟨z, hz⟩, trivial⟩ with ⟨y, _, hmin⟩
  refine ⟨y.1, y.2, ?_⟩
  intro x hx hxy
  exact hmin ⟨x, hx⟩ trivial (TransGen.single hxy)

end Foundation
