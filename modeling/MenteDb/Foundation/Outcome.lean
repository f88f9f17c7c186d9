import Mathlib.Logic.Basic

/-!
# Computations that may not return

Beside the errors it reports, a computation may be cut short by a panic, or not come
to an end within the fuel it was given.
-/

namespace Foundation

/-- Why there is no result. -/
inductive Stop (ε : Type) where
  | error (e : ε)
  | panic
  | timeout
deriving DecidableEq, Repr

/-- What a computation in two parts returns, the second part returns for what the first did. -/
theorem except_bind_ok {ε α β : Type} {x : Except ε α} {f : α -> Except ε β} {b : β}
    (h : (x >>= f) = Except.ok b) : exists a, x = Except.ok a ∧ f a = Except.ok b := by
  cases x with
  | error e => cases h
  | ok a => exact ⟨a, rfl, h⟩

theorem except_map_ok {ε α β : Type} {x : Except ε α} {f : α -> β} {b : β}
    (h : x.map f = Except.ok b) : exists a, x = Except.ok a ∧ f a = b := by
  cases x with
  | error e => cases h
  | ok a =>
      cases h
      exact ⟨a, rfl, rfl⟩

/-!
## Lists of computations

Without a result to report, the absence of one stands for a panic.
-/

section Lists

variable {α β : Type}

/-- A list of computations returns when each of them does. -/
theorem mapM_isSome_iff (f : α -> Option β) (xs : List α) :
    (xs.mapM f).isSome = true <-> forall x, x ∈ xs -> (f x).isSome = true := by
  induction xs with
  | nil => simp
  | cons x rest ih =>
      rw [List.mapM_cons, List.forall_mem_cons, ← ih]
      cases f x with
      | none => simp
      | some y =>
          cases rest.mapM f with
          | none => simp
          | some ys => simp

theorem mapM_id_eq_some_iff {xs : List (Option α)} {ys : List α} :
    xs.mapM id = some ys <-> xs = ys.map some := by
  induction xs generalizing ys with
  | nil => cases ys <;> simp
  | cons x rest ih =>
      rw [List.mapM_cons]
      cases x with
      | none => cases ys <;> simp
      | some y =>
          cases hrest : rest.mapM id with
          | none => cases ys <;> simp [← ih, hrest]
          | some found => cases ys <;> simp [← ih, hrest]

/-- So does a loop whose steps return whatever was accumulated. -/
theorem foldlM_isSome_iff {step : β -> α -> Option β} {P : α -> Prop}
    (h : forall acc x, (step acc x).isSome = true <-> P x) (xs : List α) (acc : β) :
    (xs.foldlM step acc).isSome = true <-> forall x, x ∈ xs -> P x := by
  induction xs generalizing acc with
  | nil => simp
  | cons x rest ih =>
      rw [List.foldlM_cons, List.forall_mem_cons, ← h acc x]
      cases hstep : step acc x with
      | none => simp
      | some next =>
          rw [← ih next]
          simp

/-- The elements that pass a test which may not return. -/
def retain (keep : α -> Option Bool) : List α -> Option (List α)
  | [] => some []
  | x :: rest =>
      (keep x).bind (fun kept =>
        (retain keep rest).map (fun others => if kept = true then x :: others else others))

/-- A test that returns keeps what passes it. -/
theorem retain_of_test {keep : α -> Option Bool} {test : α -> Bool} {xs : List α}
    (h : forall x, x ∈ xs -> keep x = some (test x)) : retain keep xs = some (xs.filter test) := by
  induction xs with
  | nil => rfl
  | cons x rest ih =>
      unfold retain
      rw [h x List.mem_cons_self, ih (fun y hy => h y (List.mem_cons_of_mem x hy)),
        List.filter_cons]
      rfl

theorem retain_sublist {keep : α -> Option Bool} {xs ys : List α} (h : retain keep xs = some ys) :
    ys.Sublist xs := by
  induction xs generalizing ys with
  | nil =>
      cases h
      exact List.Sublist.refl []
  | cons x rest ih =>
      rcases Option.bind_eq_some_iff.mp h with ⟨kept, -, hrest⟩
      rcases Option.map_eq_some_iff.mp hrest with ⟨others, hothers, heq⟩
      subst heq
      split
      · exact (ih hothers).cons_cons x
      · exact (ih hothers).cons x

theorem retain_isSome_iff (keep : α -> Option Bool) (xs : List α) :
    (retain keep xs).isSome = true <-> forall x, x ∈ xs -> (keep x).isSome = true := by
  induction xs with
  | nil => simp [retain]
  | cons x rest ih =>
      unfold retain
      rw [List.forall_mem_cons, ← ih]
      cases keep x with
      | none => simp
      | some kept => simp

end Lists

/-!
## Runs of steps that may not return
-/

section Runs

variable {σ ι : Type}

/-- What is asked about every step of a run, in the state before it. -/
def Throughout (step : σ -> ι -> Option σ) (p : σ -> ι -> Prop) : σ -> List ι -> Prop
  | _, [] => True
  | s, i :: rest => p s i ∧ forall s', step s i = some s' -> Throughout step p s' rest

/-- One question can stand for another that agrees with it wherever an invariant holds, if the
invariant is kept by the steps of which the first is true. -/
theorem Throughout.congr {step : σ -> ι -> Option σ} {p q : σ -> ι -> Prop} {I : σ -> Prop}
    (hagree : forall s i, I s -> (p s i <-> q s i))
    (hkeep : forall s i s', I s -> p s i -> step s i = some s' -> I s') {s : σ} (hs : I s)
    (steps : List ι) : Throughout step p s steps <-> Throughout step q s steps := by
  induction steps generalizing s with
  | nil => exact Iff.rfl
  | cons i rest ih =>
      constructor
      · rintro ⟨hp, hrest⟩
        exact ⟨(hagree s i hs).mp hp, fun s' hstep =>
          (ih (hkeep s i s' hs hp hstep)).mp (hrest s' hstep)⟩
      · rintro ⟨hq, hrest⟩
        have hp := (hagree s i hs).mpr hq
        exact ⟨hp, fun s' hstep => (ih (hkeep s i s' hs hp hstep)).mpr (hrest s' hstep)⟩

end Runs

end Foundation
