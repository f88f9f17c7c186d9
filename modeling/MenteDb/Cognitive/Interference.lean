import MenteDb.Core.Types
import MenteDb.Foundation.Separation

/-!
# Interference

Memories that resemble each other are told apart by not standing side by side.  The
arrangement takes the first memory left that does not interfere with the last one placed,
without looking ahead, and places an interfering one when nothing else is left.
-/

namespace MenteDb
namespace Cognitive

open Foundation
open Separation

variable {F : Type}

structure InterferencePair (F : Type) where
  memoryA : MemoryId
  memoryB : MemoryId
  similarity : F
  disambiguation : String

namespace InterferenceDetector

/-- The pairs, both ways round. -/
def conflicts (pairs : List (InterferencePair F)) (a b : MemoryId) : Bool :=
  pairs.any (fun p =>
    decide ((p.memoryA, p.memoryB) = (a, b) ∨ (p.memoryB, p.memoryA) = (a, b)))

/-- The rounds of the loop: each places one memory. -/
def arrangeRounds (conflict : MemoryId -> MemoryId -> Bool) :
    Nat -> List MemoryId -> List MemoryId -> List MemoryId
  | 0, result, _ => result
  | _ + 1, result, [] => result
  | n + 1, result, first :: remaining =>
      match result.getLast? with
      | none => arrangeRounds conflict n (result ++ [first]) remaining
      | some last =>
          if conflict last first = false then
            arrangeRounds conflict n (result ++ [first]) remaining
          else
            match remaining.findIdx? (fun m => !conflict last m) with
            | some i =>
                -- the interfering memory goes back to the front
                arrangeRounds conflict n (result ++ remaining[i]?.toList)
                  (first :: remaining.eraseIdx i)
            | none => arrangeRounds conflict n (result ++ [first]) remaining

def arrangeWithSeparation (memories : List MemoryId) (pairs : List (InterferencePair F)) :
    List MemoryId :=
  if memories = [] ∨ pairs = [] then memories
  else arrangeRounds (conflicts pairs) memories.length [] memories

/-!
## One round after another
-/

section Rounds

variable {conflict : MemoryId -> MemoryId -> Bool}

/-- A memory that is found, with those before it. -/
theorem findIdx?_eq_some {p : MemoryId -> Bool} {xs : List MemoryId} {i : Nat}
    (h : xs.findIdx? p = some i) :
    exists before x after, xs = before ++ x :: after ∧ before.length = i ∧ p x = true ∧
      forall y, y ∈ before -> p y = false := by
  rcases List.findIdx?_eq_some_iff_getElem.mp h with ⟨hlt, hp, hbefore⟩
  refine ⟨xs.take i, xs[i], xs.drop (i + 1), ?_, ?_, hp, ?_⟩
  · rw [List.getElem_cons_drop, List.take_append_drop]
  · exact List.length_take_of_le (Nat.le_of_lt hlt)
  · intro y hy
    rcases List.mem_take_iff_getElem.mp hy with ⟨j, hj, heq⟩
    rw [← heq]
    have hji : j < i := by omega
    simpa using hbefore j hji

/-- Enough rounds place every memory once. -/
theorem arrangeRounds_perm {n : Nat} {result remaining : List MemoryId}
    (hn : remaining.length <= n) :
    (arrangeRounds conflict n result remaining).Perm (result ++ remaining) := by
  induction n generalizing result remaining with
  | zero =>
      have hnil : remaining = [] := List.eq_nil_of_length_eq_zero (Nat.le_zero.mp hn)
      rw [hnil, List.append_nil]
      exact List.Perm.refl result
  | succ n ih =>
      cases remaining with
      | nil =>
          rw [List.append_nil]
          exact List.Perm.refl result
      | cons first rest =>
          have hrest : rest.length <= n := Nat.le_of_succ_le_succ hn
          have hplaced : (arrangeRounds conflict n (result ++ [first]) rest).Perm
              (result ++ first :: rest) := by
            have h : (arrangeRounds conflict n (result ++ [first]) rest).Perm
                (result ++ [first] ++ rest) := ih hrest
            rwa [List.append_assoc, List.singleton_append] at h
          unfold arrangeRounds
          split
          · exact hplaced
          · split
            · exact hplaced
            · split
              · rename_i i hfound
                rcases findIdx?_eq_some hfound with ⟨before, x, after, heq, hlen, -, -⟩
                subst heq hlen
                rw [List.getElem?_append_right (Nat.le_refl _), Nat.sub_self,
                  List.eraseIdx_append_of_length_le (Nat.le_refl _), Nat.sub_self]
                have hlength : (first :: (before ++ after)).length <= n := by
                  simp only [List.length_append, List.length_cons] at hrest ⊢
                  omega
                refine (ih hlength).trans ?_
                rw [List.append_assoc]
                apply List.Perm.append_left
                have hmove : (first :: before ++ x :: after).Perm
                    (x :: (first :: before ++ after)) := List.perm_middle
                exact hmove.symm
              · exact hplaced

/-- What has been placed stays in place. -/
theorem arrangeRounds_initial (n : Nat) (result remaining : List MemoryId) :
    result <+: arrangeRounds conflict n result remaining := by
  induction n generalizing result remaining with
  | zero => exact List.prefix_rfl
  | succ n ih =>
      cases remaining with
      | nil => exact List.prefix_rfl
      | cons first rest =>
          unfold arrangeRounds
          have hplaced := fun placed left =>
            (List.prefix_append result placed).trans (ih (result ++ placed) left)
          split
          · exact hplaced [first] rest
          · split
            · exact hplaced [first] rest
            · split
              · exact hplaced _ _
              · exact hplaced [first] rest

/-- A conflict with the last memory remains once it is placed. -/
theorem not_separated_of_placed {last first : MemoryId} (h : conflict last first = true)
    (n : Nat) (result remaining : List MemoryId) :
    ¬ Separated conflict (arrangeRounds conflict n (result ++ [last] ++ [first]) remaining) := by
  intro hseparated
  have hplaced : result ++ [last] ++ [first] <+:
      arrangeRounds conflict n (result ++ [last] ++ [first]) remaining :=
    arrangeRounds_initial n _ remaining
  rcases hplaced with ⟨more, hmore⟩
  rw [← hmore] at hseparated
  have hpair := (separated_append_singleton.mp hseparated.of_initial).2
  rw [h] at hpair
  cases hpair

/-- The rounds keep neighbours apart exactly when the walk does not end early. -/
theorem separated_arrangeRounds_iff {n : Nat} {result remaining : List MemoryId}
    {last : MemoryId} (hn : remaining.length <= n)
    (hresult : Separated conflict (result ++ [last])) :
    Separated conflict (arrangeRounds conflict n (result ++ [last]) remaining) <->
      Walks conflict last remaining := by
  induction n generalizing result remaining last with
  | zero =>
      have hnil : remaining = [] := List.eq_nil_of_length_eq_zero (Nat.le_zero.mp hn)
      subst hnil
      exact iff_of_true hresult (Walks.done last)
  | succ n ih =>
      cases remaining with
      | nil => exact iff_of_true hresult (Walks.done last)
      | cons first rest =>
          have hrest : rest.length <= n := Nat.le_of_succ_le_succ hn
          unfold arrangeRounds
          rw [List.getLast?_concat]
          simp only
          cases hfirst : conflict last first with
          | false =>
              rw [if_pos rfl, ih hrest (separated_append_singleton.mpr ⟨hresult, hfirst⟩)]
              exact (walks_cons_iff hfirst).symm
          | true =>
              rw [if_neg (by simp)]
              split
              · rename_i i hfound
                rcases findIdx?_eq_some hfound with ⟨before, x, after, heq, hlen, hx, hbefore⟩
                subst heq hlen
                rw [List.getElem?_append_right (Nat.le_refl _), Nat.sub_self,
                  List.eraseIdx_append_of_length_le (Nat.le_refl _), Nat.sub_self]
                have hlength : (first :: (before ++ after)).length <= n := by
                  simp only [List.length_append, List.length_cons] at hrest ⊢
                  omega
                have hfree : conflict last x = false := by simpa using hx
                have hskipped : forall y, y ∈ first :: before -> conflict last y = true :=
                  List.forall_mem_cons.mpr ⟨hfirst, fun y hy => by simpa using hbefore y hy⟩
                have h := ih hlength (separated_append_singleton.mpr ⟨hresult, hfree⟩)
                exact h.trans (walks_append_cons_iff hskipped hfree).symm
              · rename_i hnone
                -- everything left conflicts, and the first of it is placed all the same
                have hall : forall y, y ∈ first :: rest -> conflict last y = true :=
                  List.forall_mem_cons.mpr ⟨hfirst,
                    fun y hy => by simpa using List.findIdx?_eq_none_iff.mp hnone y hy⟩
                exact iff_of_false (not_separated_of_placed hfirst n result rest)
                  (not_walks_of_conflicts (List.cons_ne_nil first rest) hall)

end Rounds

/-!
## The arrangement
-/

theorem arrangeWithSeparation_perm (memories : List MemoryId)
    (pairs : List (InterferencePair F)) :
    (arrangeWithSeparation memories pairs).Perm memories := by
  unfold arrangeWithSeparation
  split
  · exact List.Perm.refl memories
  · exact arrangeRounds_perm (Nat.le_refl _)

/-- The arrangement keeps interfering memories apart when the walk that begins with the first
memory does not end early. -/
theorem separated_arrangeWithSeparation_iff (memories : List MemoryId)
    (pairs : List (InterferencePair F)) :
    Separated (conflicts pairs) (arrangeWithSeparation memories pairs) <->
      WalksAll (conflicts pairs) memories := by
  unfold arrangeWithSeparation
  cases memories with
  | nil =>
      rw [if_pos (Or.inl rfl)]
      exact iff_of_true List.IsChain.nil trivial
  | cons first rest =>
      cases pairs with
      | nil =>
          rw [if_pos (Or.inr rfl)]
          have hseparated : Separated (conflicts ([] : List (InterferencePair F)))
              (first :: rest) := separated_of_free (fun _ _ _ _ => rfl)
          exact iff_of_true hseparated (walks_of_separated hseparated)
      | cons pair more =>
          rw [if_neg (by simp)]
          have hfirst : Separated (conflicts (pair :: more)) ([] ++ [first]) :=
            List.IsChain.singleton first
          exact separated_arrangeRounds_iff (Nat.le_refl _) hfirst

/-- Some order of the memories has no interfering neighbours. -/
def Separable (pairs : List (InterferencePair F)) (memories : List MemoryId) : Prop :=
  exists order, order.Perm memories ∧ Separated (conflicts pairs) order

/-- The memories are rearranged, and kept apart if they can be. -/
structure SeparatesWhenPossible (memories : List MemoryId) (pairs : List (InterferencePair F)) :
    Prop where
  permutes : (arrangeWithSeparation memories pairs).Perm memories
  separates : Separable pairs memories ->
    Separated (conflicts pairs) (arrangeWithSeparation memories pairs)

/-- Memories that can be kept apart are, exactly when the walk from the first of them does not
end early. -/
theorem arrange_separates_iff (memories : List MemoryId) (pairs : List (InterferencePair F)) :
    SeparatesWhenPossible memories pairs <->
      (Separable pairs memories -> WalksAll (conflicts pairs) memories) := by
  constructor
  · intro h hseparable
    exact (separated_arrangeWithSeparation_iff memories pairs).mp (h.separates hseparable)
  · intro h
    constructor
    · exact arrangeWithSeparation_perm memories pairs
    · intro hseparable
      exact (separated_arrangeWithSeparation_iff memories pairs).mpr (h hseparable)

theorem conflicts_comm (pairs : List (InterferencePair F)) (a b : MemoryId) :
    conflicts pairs a b = conflicts pairs b a := by
  unfold conflicts
  congr 1
  funext p
  simp only [Prod.mk.injEq, and_comm, or_comm]

/-- Memories are kept apart if they can be, where interference concerns only the first. -/
theorem separates_of_first {first : MemoryId} {rest : List MemoryId}
    {pairs : List (InterferencePair F)}
    (hrest : forall a b, a ∈ rest -> b ∈ rest -> conflicts pairs a b = false) :
    SeparatesWhenPossible (first :: rest) pairs := by
  refine ⟨arrangeWithSeparation_perm (first :: rest) pairs, ?_⟩
  rintro ⟨order, hperm, hseparated⟩
  refine (separated_arrangeWithSeparation_iff (first :: rest) pairs).mpr ?_
  show Walks (conflicts pairs) first rest
  cases hfound : rest.findIdx? (fun m => !conflicts pairs first m) with
  | some i =>
      rcases findIdx?_eq_some hfound with ⟨before, next, after, heq, -, hnext, hbefore⟩
      subst heq
      refine Walks.next (fun y hy => by simpa using hbefore y hy) (by simpa using hnext)
        (walks_of_separated (separated_of_free ?_))
      have hleft : forall y, y ∈ next :: (before ++ after) -> y ∈ before ++ next :: after :=
        fun y hy => List.perm_middle.mem_iff.mpr hy
      exact fun a b ha hb => hrest a b (hleft a ha) (hleft b hb)
  | none =>
      have hall : forall x, x ∈ rest -> conflicts pairs first x = true :=
        fun x hx => by simpa using List.findIdx?_eq_none_iff.mp hfound x hx
      cases rest with
      | nil => exact Walks.done first
      | cons y more =>
          exact absurd hseparated (not_separated_of_conflicts (conflicts_comm pairs)
            (List.cons_ne_nil y more) hall hperm)

/-- Two memories that interfere are left for the end, though the third could stand between
them. -/
theorem separator_is_used_up : ¬ forall (memories : List MemoryId)
    (pairs : List (InterferencePair Rat)), SeparatesWhenPossible memories pairs := by
  intro h
  have hseparated := (h [⟨1⟩, ⟨2⟩, ⟨3⟩] [⟨⟨2⟩, ⟨3⟩, 1, ""⟩]).separates
    ⟨[⟨2⟩, ⟨1⟩, ⟨3⟩], List.Perm.swap _ _ _, by decide⟩
  revert hseparated
  decide

end InterferenceDetector
end Cognitive
end MenteDb
