import Mathlib.Data.List.Nodup
import Mathlib.Data.List.Perm.Subperm
import Mathlib.Logic.Relation

/-!
# Closure of a relation by a work list

Everything in reach of an element along a successor function, by a queue of elements whose
successors are still to be looked at.  What is seen for the first time is listed and queued.
-/

namespace Foundation
namespace Closure

open Relation

variable {α : Type}

/-- The elements to look at, those seen, and those found, in the order in which they were. -/
structure State (α : Type) where
  queue : List α
  visited : List α
  found : List α

def start (x : α) : State α where
  queue := [x]
  visited := [x]
  found := []

def visit [DecidableEq α] (s : State α) (y : α) : State α :=
  if y ∈ s.visited then s
  else
    { queue := s.queue ++ [y]
      visited := s.visited ++ [y]
      found := s.found ++ [y] }

/-- The loop over the queue; there is no answer when the rounds do not suffice. -/
def loop [DecidableEq α] (next : α -> List α) : Nat -> State α -> Option (List α)
  | 0, _ => none
  | rounds + 1, s =>
      match s.queue with
      | [] => some s.found
      | y :: rest => loop next rounds ((next y).foldl visit { s with queue := rest })

/-- The elements one step away. -/
def Next (next : α -> List α) (x y : α) : Prop := y ∈ next x

section Invariant

variable {next : α -> List α} {x : α}

/-- What is seen is in reach, and it is queued, or its successors are being looked at, or
they are all seen. -/
structure Invariant (next : α -> List α) (x : α) (looking : α -> Prop) (done : Nat)
    (s : State α) : Prop where
  visited_eq : s.visited = x :: s.found
  nodup : s.visited.Nodup
  reached : forall y, y ∈ s.visited -> ReflTransGen (Next next) x y
  queued : s.queue ⊆ s.visited
  length_eq : done + s.queue.length = s.visited.length
  closed : forall y, y ∈ s.visited -> y ∈ s.queue ∨ looking y ∨ next y ⊆ s.visited

theorem invariant_start : Invariant next x (fun _ => False) 0 (start x) where
  visited_eq := rfl
  nodup := List.nodup_singleton x
  reached := by
    intro y hy
    rw [List.mem_singleton.mp hy]
  queued := List.Subset.refl _
  length_eq := rfl
  closed := fun y hy => Or.inl hy

variable [DecidableEq α]

theorem visited_subset_visit (s : State α) (y : α) :
    s.visited ⊆ (visit s y).visited ∧ y ∈ (visit s y).visited := by
  unfold visit
  split
  · rename_i hseen
    exact ⟨List.Subset.refl _, hseen⟩
  · exact ⟨List.subset_append_left _ _, List.mem_append_right _ (List.mem_singleton.mpr rfl)⟩

theorem Invariant.visit {looking : α -> Prop} {z y : α} {done : Nat} {s : State α}
    (h : Invariant next x looking done s) (hz : ReflTransGen (Next next) x z)
    (hy : y ∈ next z) : Invariant next x looking done (visit s y) := by
  unfold Closure.visit
  split
  · exact h
  rename_i hnew
  refine
    { visited_eq := by simp only [h.visited_eq, List.cons_append]
      nodup := ?_
      reached := ?_
      queued := ?_
      length_eq := ?_
      closed := ?_ }
  · have hnodup := h.nodup.concat hnew
    rw [List.concat_eq_append] at hnodup
    exact hnodup
  · intro u hu
    rcases List.mem_append.mp hu with hold | hself
    · exact h.reached u hold
    · rw [List.mem_singleton.mp hself]
      exact hz.tail hy
  · exact List.append_subset.mpr ⟨List.subset_append_of_subset_left _ h.queued,
      List.subset_append_right _ _⟩
  · simp only [List.length_append, List.length_singleton]
    rw [← Nat.add_assoc, h.length_eq]
  · intro u hu
    rcases List.mem_append.mp hu with hold | hself
    · rcases h.closed u hold with hqueue | hlooking | hsub
      · exact Or.inl (List.mem_append_left _ hqueue)
      · exact Or.inr (Or.inl hlooking)
      · exact Or.inr (Or.inr (List.subset_append_of_subset_left _ hsub))
    · exact Or.inl (List.mem_append_right _ hself)

theorem Invariant.visitAll {looking : α -> Prop} {z : α} {done : Nat} {ys : List α}
    {s : State α} (h : Invariant next x looking done s) (hz : ReflTransGen (Next next) x z)
    (hys : ys ⊆ next z) :
    Invariant next x looking done (ys.foldl Closure.visit s) ∧
      s.visited ⊆ (ys.foldl Closure.visit s).visited ∧
      ys ⊆ (ys.foldl Closure.visit s).visited := by
  induction ys generalizing s with
  | nil => exact ⟨h, List.Subset.refl _, List.nil_subset _⟩
  | cons y rest ih =>
      have hsub := visited_subset_visit s y
      have hrest := ih (h.visit hz (hys List.mem_cons_self))
        (fun u hu => hys (List.mem_cons_of_mem y hu))
      refine ⟨hrest.1, fun u hu => hrest.2.1 (hsub.1 hu), ?_⟩
      intro u hu
      rcases List.mem_cons.mp hu with heq | hmem
      · rw [heq]
        exact hrest.2.1 hsub.2
      · exact hrest.2.2 hmem

omit [DecidableEq α] in
/-- The head of the queue is taken out and its successors are looked at. -/
theorem Invariant.pop {y : α} {rest : List α} {done : Nat} {s : State α}
    (h : Invariant next x (fun _ => False) done s) (hqueue : s.queue = y :: rest) :
    Invariant next x (fun u => u = y) (done + 1) { s with queue := rest } where
  visited_eq := h.visited_eq
  nodup := h.nodup
  reached := h.reached
  queued := fun u hu => h.queued (hqueue ▸ List.mem_cons_of_mem y hu)
  length_eq := by
    have hlength := h.length_eq
    rw [hqueue, List.length_cons] at hlength
    simp only
    omega
  closed := by
    intro u hu
    rcases h.closed u hu with hqueued | hnone | hsub
    · rw [hqueue] at hqueued
      rcases List.mem_cons.mp hqueued with heq | hmem
      · exact Or.inr (Or.inl heq)
      · exact Or.inl hmem
    · exact False.elim hnone
    · exact Or.inr (Or.inr hsub)

/-- One round of the loop. -/
theorem Invariant.step {y : α} {rest : List α} {done : Nat} {s : State α}
    (h : Invariant next x (fun _ => False) done s) (hqueue : s.queue = y :: rest) :
    Invariant next x (fun _ => False) (done + 1)
      ((next y).foldl Closure.visit { s with queue := rest }) := by
  have hy : y ∈ s.visited := h.queued (hqueue ▸ List.mem_cons_self)
  have hall := (h.pop hqueue).visitAll (h.reached y hy) (List.Subset.refl (next y))
  refine { hall.1 with closed := ?_ }
  intro u hu
  rcases hall.1.closed u hu with hqueued | heq | hsub
  · exact Or.inl hqueued
  · rw [heq]
    exact Or.inr (Or.inr hall.2.2)
  · exact Or.inr (Or.inr hsub)

omit [DecidableEq α] in
/-- With an empty queue, what is seen is what is in reach. -/
theorem Invariant.mem_found_iff {done : Nat} {s : State α}
    (h : Invariant next x (fun _ => False) done s) (hqueue : s.queue = []) (y : α) :
    y ∈ s.found <-> y ≠ x ∧ ReflTransGen (Next next) x y := by
  have hmem : forall u, ReflTransGen (Next next) x u -> u ∈ s.visited := by
    intro u hu
    induction hu with
    | refl =>
        rw [h.visited_eq]
        exact List.mem_cons_self
    | tail _ hstep ih =>
        rcases h.closed _ ih with hqueued | hnone | hsub
        · rw [hqueue] at hqueued
          cases hqueued
        · exact False.elim hnone
        · exact hsub hstep
  have hnodup := h.nodup
  rw [h.visited_eq, List.nodup_cons] at hnodup
  constructor
  · intro hy
    refine ⟨fun heq => hnodup.1 (heq ▸ hy), h.reached y ?_⟩
    rw [h.visited_eq]
    exact List.mem_cons_of_mem x hy
  · rintro ⟨hne, hreach⟩
    have hvisited := hmem y hreach
    rw [h.visited_eq] at hvisited
    exact (List.mem_cons.mp hvisited).resolve_left hne

/-- With a round for each element in reach and one to see that the queue is empty, the loop
lists what is in reach, each element once. -/
theorem loop_eq_some {nodes : List α}
    (hnodes : forall y, ReflTransGen (Next next) x y -> y ∈ nodes)
    (rounds : Nat) {done : Nat} {s : State α} (hrounds : nodes.length < done + rounds)
    (h : Invariant next x (fun _ => False) done s) :
    exists found, loop next rounds s = some found ∧ found.Nodup ∧
      forall y, y ∈ found <-> y ≠ x ∧ ReflTransGen (Next next) x y := by
  have hlength : s.visited.length <= nodes.length :=
    (List.subperm_of_subset h.nodup (fun y hy => hnodes y (h.reached y hy))).length_le
  have hcount := h.length_eq
  induction rounds generalizing done s with
  | zero => omega
  | succ rounds ih =>
      cases hqueue : s.queue with
      | nil =>
          have hnodup := h.nodup
          rw [h.visited_eq, List.nodup_cons] at hnodup
          refine ⟨s.found, ?_, hnodup.2, h.mem_found_iff hqueue⟩
          simp only [loop, hqueue]
      | cons y rest =>
          have hstep := h.step hqueue
          have hnext : nodes.length < done + 1 + rounds := by omega
          simp only [loop, hqueue]
          exact ih hnext hstep (List.subperm_of_subset hstep.nodup
            (fun y hy => hnodes y (hstep.reached y hy))).length_le hstep.length_eq

theorem search_eq_some {nodes : List α}
    (hnodes : forall y, ReflTransGen (Next next) x y -> y ∈ nodes) {rounds : Nat}
    (hrounds : nodes.length < rounds) :
    exists found, loop next rounds (start x) = some found ∧ found.Nodup ∧
      forall y, y ∈ found <-> y ≠ x ∧ ReflTransGen (Next next) x y :=
  loop_eq_some hnodes rounds (by omega) invariant_start

/-- More rounds do not change the answer. -/
theorem loop_mono {rounds rounds' : Nat} (hle : rounds <= rounds') {s : State α}
    {found : List α} (h : loop next rounds s = some found) :
    loop next rounds' s = some found := by
  induction rounds generalizing rounds' s with
  | zero => cases h
  | succ rounds ih =>
      cases rounds' with
      | zero => omega
      | succ rounds' =>
          cases hqueue : s.queue with
          | nil =>
              simp only [loop, hqueue] at h ⊢
              exact h
          | cons y rest =>
              simp only [loop, hqueue] at h ⊢
              exact ih (Nat.le_of_succ_le_succ hle) h

end Invariant

end Closure
end Foundation
