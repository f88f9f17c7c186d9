import Mathlib.Data.List.Basic
import Mathlib.Data.List.Chain

/-!
# Orders without conflicting neighbours

Things are put in an order in which no two neighbours conflict.  The greedy walk goes on
each time to the first thing left that does not conflict with the one it is at; it
ends early when everything left conflicts.
-/

namespace Foundation
namespace Separation

variable {α : Type}

/-- No two neighbours conflict. -/
def Separated (conflict : α -> α -> Bool) (order : List α) : Prop :=
  order.IsChain (fun a b => conflict a b = false)

instance (conflict : α -> α -> Bool) (order : List α) :
    Decidable (Separated conflict order) :=
  inferInstanceAs (Decidable (order.IsChain (fun a b => conflict a b = false)))

/-- The greedy walk over what is left does not end early. -/
inductive Walks (conflict : α -> α -> Bool) : α -> List α -> Prop where
  | done (last : α) : Walks conflict last []
  | next {last next : α} {skipped rest : List α}
      (hskipped : forall x, x ∈ skipped -> conflict last x = true)
      (hnext : conflict last next = false)
      (hrest : Walks conflict next (skipped ++ rest)) :
      Walks conflict last (skipped ++ next :: rest)

/-- The walk that begins with the first thing passes them all. -/
def WalksAll (conflict : α -> α -> Bool) : List α -> Prop
  | [] => True
  | first :: rest => Walks conflict first rest

section Walks

variable {conflict : α -> α -> Bool}

/-- Nothing else can be the first that does not conflict. -/
theorem split_unique {p : α -> Bool} {u v u' v' : List α} {x x' : α}
    (heq : u ++ x :: v = u' ++ x' :: v')
    (hu : forall y, y ∈ u -> p y = true) (hx : p x = false)
    (hu' : forall y, y ∈ u' -> p y = true) (hx' : p x' = false) :
    u = u' ∧ x = x' ∧ v = v' := by
  induction u generalizing u' with
  | nil =>
      cases u' with
      | nil =>
          cases heq
          exact ⟨rfl, rfl, rfl⟩
      | cons y rest =>
          cases heq
          rw [hu' x List.mem_cons_self] at hx
          cases hx
  | cons z rest ih =>
      cases u' with
      | nil =>
          cases heq
          rw [hu x' List.mem_cons_self] at hx'
          cases hx'
      | cons y rest' =>
          injection heq with hhead htail
          rcases ih htail (fun w hw => hu w (List.mem_cons_of_mem z hw))
            (fun w hw => hu' w (List.mem_cons_of_mem y hw)) with ⟨h₁, h₂, h₃⟩
          exact ⟨by rw [hhead, h₁], h₂, h₃⟩

/-- The next thing of the walk is determined. -/
theorem walks_append_cons_iff {last next : α} {skipped rest : List α}
    (hskipped : forall x, x ∈ skipped -> conflict last x = true)
    (hnext : conflict last next = false) :
    Walks conflict last (skipped ++ next :: rest) <-> Walks conflict next (skipped ++ rest) := by
  constructor
  · intro h
    generalize hleft : skipped ++ next :: rest = left at h
    cases h with
    | done =>
        cases skipped <;> cases hleft
    | next hskipped' hnext' hrest =>
        rcases split_unique hleft hskipped hnext hskipped' hnext' with ⟨h₁, h₂, h₃⟩
        rw [h₁, h₂, h₃]
        exact hrest
  · exact Walks.next hskipped hnext

theorem walks_cons_iff {last next : α} {rest : List α} (hnext : conflict last next = false) :
    Walks conflict last (next :: rest) <-> Walks conflict next rest := by
  have hskipped : forall x, x ∈ ([] : List α) -> conflict last x = true := by
    intro x hx
    cases hx
  exact walks_append_cons_iff hskipped hnext

/-- Where everything left conflicts the walk ends early. -/
theorem not_walks_of_conflicts {last : α} {left : List α} (hleft : left ≠ [])
    (h : forall x, x ∈ left -> conflict last x = true) : ¬ Walks conflict last left := by
  intro hwalk
  cases hwalk with
  | done => exact hleft rfl
  | @next _ next skipped rest hskipped hnext hrest =>
      rw [h next (List.mem_append_right skipped List.mem_cons_self)] at hnext
      cases hnext

/-- Where neighbours do not conflict the walk keeps to the order it is given. -/
theorem walks_of_separated {last : α} {left : List α} (h : Separated conflict (last :: left)) :
    Walks conflict last left := by
  induction left generalizing last with
  | nil => exact Walks.done last
  | cons next rest ih =>
      rcases List.isChain_cons_cons.mp h with ⟨hnext, hrest⟩
      exact (walks_cons_iff hnext).mpr (ih hrest)

/-- Things of which no two conflict are separated in every order. -/
theorem separated_of_free {order : List α}
    (h : forall a b, a ∈ order -> b ∈ order -> conflict a b = false) :
    Separated conflict order :=
  (List.pairwise_of_forall_mem_list (fun a ha b hb => h a b ha hb)).isChain

end Walks

/-!
## Orders that end with a given thing
-/

theorem separated_append_singleton {conflict : α -> α -> Bool} {order : List α} {last x : α} :
    Separated conflict (order ++ [last] ++ [x]) <->
      Separated conflict (order ++ [last]) ∧ conflict last x = false := by
  unfold Separated
  rw [List.append_assoc, List.singleton_append, List.isChain_split, List.isChain_pair]

/-- An order is separated only if the part of it up to a point is. -/
theorem Separated.of_initial {conflict : α -> α -> Bool} {order more : List α}
    (h : Separated conflict (order ++ more)) : Separated conflict order :=
  (List.isChain_append.mp h).1

/-- A thing that conflicts with all others cannot stand beside one of them. -/
theorem not_separated_of_conflicts {conflict : α -> α -> Bool}
    (hsymm : forall a b, conflict a b = conflict b a) {first : α} {rest order : List α}
    (hrest : rest ≠ []) (hall : forall x, x ∈ rest -> conflict first x = true)
    (hperm : order.Perm (first :: rest)) : ¬ Separated conflict order := by
  intro hseparated
  rcases List.append_of_mem (hperm.mem_iff.mpr List.mem_cons_self) with ⟨u, v, heq⟩
  subst heq
  have hothers : (u ++ v).Perm rest := (List.perm_middle.symm.trans hperm).cons_inv
  cases v with
  | cons z v =>
      have hz := hall z (hothers.mem_iff.mp (List.mem_append_right u List.mem_cons_self))
      have hnext := (List.isChain_append.mp hseparated).2.1
      rw [(List.isChain_cons_cons.mp hnext).1] at hz
      cases hz
  | nil =>
      rcases List.eq_nil_or_concat' u with hnil | ⟨u, z, hu⟩
      · subst hnil
        exact hrest (List.nil_perm.mp hothers)
      · subst hu
        have hz := hall z (hothers.mem_iff.mp (by simp))
        rw [hsymm, (separated_append_singleton.mp hseparated).2] at hz
        cases hz

end Separation
end Foundation
