import MenteDb.Foundation.Prog

/-!
# Programs on a part of a state

A program that knows only a part of the state can be run on the whole.  What it establishes of
its part it establishes there, and what does not depend on the part is not touched.
-/

namespace Foundation

variable {σ τ ε ε' α : Type}

/-- A part of a state: reading it, and putting another value in its place. -/
structure Part (σ τ : Type) where
  get : σ -> τ
  set : τ -> σ -> σ
  get_set : forall t s, get (set t s) = t

namespace Part

variable (part : Part σ τ)

/-- Run on the part; errors are reported as errors of the whole. -/
def run (f : ε -> ε') (x : Prog τ ε α) : Prog σ ε' α := fun s =>
  ((x (part.get s)).1.mapError f, part.set (x (part.get s)).2 s)

variable {part}

theorem triple_run {f : ε -> ε'} {x : Prog τ ε α} {P E : τ -> Prop} {Q : α -> τ -> Prop}
    (h : Prog.Triple P x Q E) :
    Prog.Triple (fun s => P (part.get s)) (part.run f x) (fun a s => Q a (part.get s))
      (fun s => E (part.get s)) := by
  intro s hs
  have hpost := h (part.get s) hs
  unfold run
  rcases hrun : x (part.get s) with ⟨result, t⟩
  rw [hrun] at hpost
  cases result with
  | ok a =>
      show Q a (part.get (part.set t s))
      rw [part.get_set]
      exact hpost
  | error e =>
      show E (part.get (part.set t s))
      rw [part.get_set]
      exact hpost

theorem keeps_run {f : ε -> ε'} {x : Prog τ ε α} {I : τ -> Prop} (h : Prog.Keeps I x) :
    Prog.Keeps (fun s => I (part.get s)) (part.run f x) :=
  triple_run h

/-- Whatever a program does to its part, the rest keeps what does not depend on the part. -/
theorem keeps_frame {f : ε -> ε'} {x : Prog τ ε α} {J : σ -> Prop}
    (hJ : forall t s, J s -> J (part.set t s)) : Prog.Keeps J (part.run f x) := by
  intro s hs
  have hset := hJ (x (part.get s)).2 s hs
  unfold run
  rcases hrun : x (part.get s) with ⟨result, t⟩
  rw [hrun] at hset
  cases result with
  | ok a => exact hset
  | error e => exact hset

theorem run_eq_ok {f : ε -> ε'} {x : Prog τ ε α} {s s' : σ} {a : α}
    (h : part.run f x s = (Except.ok a, s')) :
    exists t, x (part.get s) = (Except.ok a, t) ∧ s' = part.set t s := by
  unfold run at h
  rcases hrun : x (part.get s) with ⟨result, t⟩
  rw [hrun] at h
  cases result with
  | ok b =>
      cases h
      exact ⟨t, rfl, rfl⟩
  | error e => cases h

end Part

/-- What is only asserted under a condition is kept with it. -/
theorem Prog.Keeps.imp {C : Prop} {J : σ -> Prop} {x : Prog σ ε α} (hx : Prog.Keeps J x) :
    Prog.Keeps (fun s => C -> J s) x := by
  by_cases hC : C
  · exact hx.weaken (fun _ hs => hs hC) (fun _ _ hs _ => hs) (fun _ hs _ => hs)
  · exact Prog.triple_of_states (fun _ _ h => absurd h hC)

end Foundation
