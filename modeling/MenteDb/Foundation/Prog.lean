import Mathlib.Data.List.Basic
import Mathlib.Data.List.Induction

/-!
# Stateful programs that may fail

Two kinds of programs over a state.  An atomic step either succeeds with a new
state or fails and leaves nothing behind.  A program runs step after step; when
it fails, the effects of the steps already done remain.  The rules below carry
an invariant through both.
-/

namespace Foundation

/-!
## Atomic steps
-/

/-- An all-or-nothing state transformer. -/
abbrev Atomic (σ ε : Type) := σ -> Except ε σ

namespace Atomic

variable {σ ε α : Type}

def andThen (a b : Atomic σ ε) : Atomic σ ε := fun s =>
  match a s with
  | Except.ok s' => b s'
  | Except.error e => Except.error e

/-- Run the body once per element, in order; the first failure aborts all. -/
def forEach : List α -> (α -> Atomic σ ε) -> Atomic σ ε
  | [], _ => fun s => Except.ok s
  | x :: xs, body => andThen (body x) (forEach xs body)

/-- Success preserves the property. -/
def Keeps (P : σ -> Prop) (a : Atomic σ ε) : Prop :=
  forall s s', P s -> a s = Except.ok s' -> P s'

theorem andThen_eq_ok {a b : Atomic σ ε} {s s' : σ} :
    andThen a b s = Except.ok s' <->
      exists mid, a s = Except.ok mid ∧ b mid = Except.ok s' := by
  unfold andThen
  cases h : a s with
  | ok mid => simp
  | error e => simp

theorem forEach_append_ok {xs ys : List α} {body : α -> Atomic σ ε} {s s' : σ}
    (h : forEach (xs ++ ys) body s = Except.ok s') :
    exists mid, forEach xs body s = Except.ok mid ∧ forEach ys body mid = Except.ok s' := by
  induction xs generalizing s with
  | nil => exact ⟨s, rfl, h⟩
  | cons x rest ih =>
      rcases andThen_eq_ok.mp h with ⟨first, hfirst, hrest⟩
      rcases ih hrest with ⟨mid, hmid, hend⟩
      exact ⟨mid, andThen_eq_ok.mpr ⟨first, hfirst, hmid⟩, hend⟩

theorem Keeps.andThen {P : σ -> Prop} {a b : Atomic σ ε}
    (ha : Keeps P a) (hb : Keeps P b) : Keeps P (andThen a b) := by
  intro s s' hs hrun
  rcases andThen_eq_ok.mp hrun with ⟨mid, hmid, hend⟩
  exact hb mid s' (ha s mid hs hmid) hend

theorem Keeps.forEach {P : σ -> Prop} {xs : List α} {body : α -> Atomic σ ε}
    (h : forall x, x ∈ xs -> Keeps P (body x)) : Keeps P (forEach xs body) := by
  induction xs with
  | nil =>
      intro s s' hs hrun
      cases hrun
      exact hs
  | cons x xs ih =>
      have hhead := h x List.mem_cons_self
      have htail := ih (fun y hy => h y (List.mem_cons_of_mem x hy))
      exact hhead.andThen htail

/-- A property that one element establishes, from states with an invariant, and
that every element keeps holds at the end. -/
theorem forEach_establishes {K P : σ -> Prop} {xs : List α} {body : α -> Atomic σ ε}
    {x : α} (hx : x ∈ xs) (hinv : forall y, y ∈ xs -> Keeps K (body y))
    (hkeep : forall y, y ∈ xs -> Keeps P (body y))
    (hmake : forall s s', K s -> body x s = Except.ok s' -> P s') {s s' : σ} (hs : K s)
    (hrun : forEach xs body s = Except.ok s') : P s' := by
  induction xs generalizing s with
  | nil => cases hx
  | cons y ys ih =>
      rcases andThen_eq_ok.mp hrun with ⟨mid, hmid, hend⟩
      have htail : forall z, z ∈ ys -> Keeps P (body z) :=
        fun z hz => hkeep z (List.mem_cons_of_mem y hz)
      cases List.mem_cons.mp hx with
      | inl heq =>
          subst heq
          exact Keeps.forEach htail mid s' (hmake s mid hs hmid) hend
      | inr hmem =>
          exact ih hmem (fun z hz => hinv z (List.mem_cons_of_mem y hz)) htail
            (hinv y List.mem_cons_self s mid hs hmid) hend

end Atomic

/-!
## Programs
-/

/-- A program returns a result or an error, and the state either way. -/
def Prog (σ ε α : Type) := σ -> Except ε α × σ

namespace Prog

variable {σ ε α β : Type}

protected def pure (a : α) : Prog σ ε α := fun s => (Except.ok a, s)

protected def bind (x : Prog σ ε α) (f : α -> Prog σ ε β) : Prog σ ε β := fun s =>
  match x s with
  | (Except.ok a, s') => f a s'
  | (Except.error e, s') => (Except.error e, s')

instance : Monad (Prog σ ε) where
  pure := Prog.pure
  bind := Prog.bind

def fail (e : ε) : Prog σ ε α := fun s => (Except.error e, s)

/-- Read the state. -/
def gets (f : σ -> α) : Prog σ ε α := fun s => (Except.ok (f s), s)

/-- Change the state. -/
def modify (f : σ -> σ) : Prog σ ε Unit := fun s => (Except.ok (), f s)

/-- Run and report failure as a value, as a caller that ignores errors does. -/
def attempt (x : Prog σ ε α) : Prog σ ε (Except ε α) := fun s =>
  (Except.ok (x s).1, (x s).2)

/-- Run and report failure as another error. -/
def mapError {ε' : Type} (f : ε -> ε') (x : Prog σ ε α) : Prog σ ε' α := fun s =>
  ((x s).1.mapError f, (x s).2)

def forEach : List α -> (α -> Prog σ ε Unit) -> Prog σ ε Unit
  | [], _ => Prog.pure ()
  | x :: xs, body => Prog.bind (body x) (fun _ => forEach xs body)

/-- Programs that go on to the same states end in the same state. -/
theorem bind_state_congr {γ : Type} {x : Prog σ ε α} {f : α -> Prog σ ε β}
    {g : α -> Prog σ ε γ} (h : forall a s, (f a s).2 = (g a s).2) (s : σ) :
    (Prog.bind x f s).2 = (Prog.bind x g s).2 := by
  unfold Prog.bind
  rcases x s with ⟨result, s'⟩
  cases result with
  | ok a => exact h a s'
  | error e => rfl

/-- A sequence succeeds when both parts do. -/
theorem bind_ok {x : Prog σ ε α} {f : α -> Prog σ ε β} {s s' : σ} {b : β}
    (h : (x >>= f) s = (Except.ok b, s')) :
    exists a mid, x s = (Except.ok a, mid) ∧ f a mid = (Except.ok b, s') := by
  have hbind : Prog.bind x f s = (Except.ok b, s') := h
  unfold Prog.bind at hbind
  rcases hrun : x s with ⟨result, mid⟩
  rw [hrun] at hbind
  cases result with
  | ok a => exact ⟨a, mid, rfl, hbind⟩
  | error e => cases hbind

theorem bind_assoc {γ : Type} (x : Prog σ ε α) (f : α -> Prog σ ε β) (g : β -> Prog σ ε γ) :
    (x >>= f) >>= g = x >>= (fun a => f a >>= g) := by
  funext s
  show Prog.bind (Prog.bind x f) g s = Prog.bind x (fun a => Prog.bind (f a) g) s
  unfold Prog.bind
  rcases x s with ⟨result, mid⟩
  cases result with
  | ok a => rfl
  | error e => rfl

theorem bind_of_ok {x : Prog σ ε α} {f : α -> Prog σ ε β} {s mid : σ} {a : α}
    (h : x s = (Except.ok a, mid)) : (x >>= f) s = f a mid := by
  show Prog.bind x f s = f a mid
  unfold Prog.bind
  rw [h]

theorem bind_of_error {x : Prog σ ε α} {f : α -> Prog σ ε β} {s mid : σ} {e : ε}
    (h : x s = (Except.error e, mid)) : (x >>= f) s = (Except.error e, mid) := by
  show Prog.bind x f s = (Except.error e, mid)
  unfold Prog.bind
  rw [h]

theorem eq_of_isOk {x : Prog σ ε Unit} {s : σ} (h : (x s).1.isOk = true) :
    x s = (Except.ok (), (x s).2) := by
  rcases hrun : x s with ⟨result, s'⟩
  rw [hrun] at h
  cases result with
  | ok u => rfl
  | error e => cases h

theorem forEach_cons_of_ok {x : α} {xs : List α} {body : α -> Prog σ ε Unit} {s mid : σ}
    (h : body x s = (Except.ok (), mid)) : forEach (x :: xs) body s = forEach xs body mid := by
  exact bind_of_ok h

theorem forEach_map (f : α -> β) (body : β -> Prog σ ε Unit) (xs : List α) :
    forEach (xs.map f) body = forEach xs (fun x => body (f x)) := by
  induction xs with
  | nil => rfl
  | cons x rest ih =>
      show Prog.bind (body (f x)) _ = Prog.bind (body (f x)) _
      rw [ih]

theorem forEach_append (xs ys : List α) (body : α -> Prog σ ε Unit) :
    forEach (xs ++ ys) body = forEach xs body >>= fun _ => forEach ys body := by
  induction xs with
  | nil => rfl
  | cons x rest ih =>
      show (body x >>= fun _ => forEach (rest ++ ys) body) =
        (body x >>= fun _ => forEach rest body) >>= fun _ => forEach ys body
      rw [bind_assoc, ih]

theorem forEach_flatMap {γ : Type} (xs : List γ) (f : γ -> List α) (body : α -> Prog σ ε Unit) :
    forEach (xs.flatMap f) body = forEach xs (fun x => forEach (f x) body) := by
  induction xs with
  | nil => rfl
  | cons x rest ih =>
      rw [List.flatMap_cons, forEach_append, ih]
      rfl

/-- From a state with the precondition, success ends with the first postcondition
of the result and the state, failure with the second of the state. -/
def Triple (P : σ -> Prop) (x : Prog σ ε α) (Q : α -> σ -> Prop) (E : σ -> Prop) : Prop :=
  forall s, P s ->
    match x s with
    | (Except.ok a, s') => Q a s'
    | (Except.error _, s') => E s'

/-- The invariant survives, whatever the result. -/
def Keeps (I : σ -> Prop) (x : Prog σ ε α) : Prop := Triple I x (fun _ => I) I

section Rules

variable {P P' E E' I : σ -> Prop} {Q Q' : α -> σ -> Prop} {R : β -> σ -> Prop}

/-- What both outcomes end with holds in the state left behind. -/
theorem Triple.state {x : Prog σ ε α} (h : Triple P x (fun _ => I) I) {s : σ} (hs : P s) :
    I (x s).2 := by
  have hpost := h s hs
  rcases hrun : x s with ⟨result, s'⟩
  rw [hrun] at hpost
  cases result with
  | ok a => exact hpost
  | error e => exact hpost

theorem Keeps.state {x : Prog σ ε α} (h : Keeps I x) {s : σ} (hs : I s) : I (x s).2 :=
  Triple.state h hs

/-- A fact that does not depend on the state can be taken out of a precondition. -/
theorem Triple.of_and {C : Prop} {x : Prog σ ε α} (h : C -> Triple P x Q E) :
    Triple (fun s => P s ∧ C) x Q E :=
  fun s hs => h hs.2 s hs.1

/-- A program that cannot fail ends with its postcondition. -/
theorem Triple.state_of_sure {x : Prog σ ε α} (h : Triple P x (fun _ => I) (fun _ => False))
    {s : σ} (hs : P s) : I (x s).2 := by
  have hpost := h s hs
  rcases hrun : x s with ⟨result, s'⟩
  rw [hrun] at hpost
  cases result with
  | ok a => exact hpost
  | error e => exact False.elim hpost

/-- From a single state, what is known of the state the program leaves is a triple. -/
theorem triple_of_state {x : Prog σ ε α} {s0 : σ} {J : σ -> Prop} (hI : I (x s0).2)
    (hJ : J (x s0).2) : Triple (fun s => s = s0) x (fun _ => I) J := by
  intro s hs
  rw [hs]
  rcases hrun : x s0 with ⟨result, s'⟩
  rw [hrun] at hI hJ
  cases result with
  | ok a => exact hI
  | error e => exact hJ

theorem triple_of_states {x : Prog σ ε α} (h : forall s, P s -> I (x s).2) :
    Triple P x (fun _ => I) I := by
  intro s hs
  exact triple_of_state (h s hs) (h s hs) s rfl

theorem Triple.weaken {x : Prog σ ε α} (h : Triple P x Q E) (hP : forall s, P' s -> P s)
    (hQ : forall a s, Q a s -> Q' a s) (hE : forall s, E s -> E' s) : Triple P' x Q' E' := by
  intro s hs
  have hpost := h s (hP s hs)
  rcases hrun : x s with ⟨result, s'⟩
  rw [hrun] at hpost
  cases result with
  | ok a => exact hQ a s' hpost
  | error e => exact hE s' hpost

theorem Triple.of_sure {x : Prog σ ε α} (h : Triple P x Q (fun _ => False)) : Triple P x Q E :=
  h.weaken (fun _ hs => hs) (fun _ _ hs => hs) (fun _ hs => False.elim hs)

theorem triple_fail {e : ε} : Triple E (fail e : Prog σ ε α) Q E := fun _ hs => hs

theorem triple_gets {f : σ -> α} (h : forall s, P s -> Q (f s) s) :
    Triple P (gets f : Prog σ ε α) Q E := h

theorem triple_modify {f : σ -> σ} {Q : Unit -> σ -> Prop} (h : forall s, P s -> Q () (f s)) :
    Triple P (modify f : Prog σ ε Unit) Q E := h

theorem Triple.bind {x : Prog σ ε α} {f : α -> Prog σ ε β} (hx : Triple P x Q E)
    (hf : forall a, Triple (Q a) (f a) R E) : Triple P (x >>= f) R E := by
  intro s hs
  have hstep := hx s hs
  show match Prog.bind x f s with
    | (Except.ok b, s') => R b s'
    | (Except.error _, s') => E s'
  unfold Prog.bind
  rcases hrun : x s with ⟨result, s'⟩
  rw [hrun] at hstep
  cases result with
  | ok a => exact hf a s' hstep
  | error e => exact hstep

/-- Reading the state does not change it. -/
theorem triple_gets_bind {f : σ -> α} {g : α -> Prog σ ε β}
    (h : forall a, Triple P (g a) R E) : Triple P (gets f >>= g) R E :=
  fun s hs => h (f s) s hs

/-- Ignoring a failure is sound when both outcomes end well. -/
theorem Triple.attempt {x : Prog σ ε α} {E : σ -> Prop} {Q : σ -> Prop}
    (h : Triple P x (fun _ => Q) Q) : Triple P (attempt x) (fun _ => Q) E := by
  intro s hs
  have hpost := h s hs
  show Q (x s).2
  rcases hrun : x s with ⟨result, s'⟩
  rw [hrun] at hpost
  cases result with
  | ok a => exact hpost
  | error e => exact hpost

/-- A loop whose assertion speaks about the elements still to come. -/
theorem Triple.forEach {J : List α -> σ -> Prop} {body : α -> Prog σ ε Unit} {xs : List α}
    (h : forall x rest, x ∈ xs -> Triple (J (x :: rest)) (body x) (fun _ => J rest) E) :
    Triple (J xs) (forEach xs body) (fun _ => J []) E := by
  induction xs with
  | nil => exact fun _ hs => hs
  | cons x xs ih =>
      have htail := ih (fun y rest hy => h y rest (List.mem_cons_of_mem x hy))
      exact Triple.bind (h x xs List.mem_cons_self) (fun _ => htail)

theorem triple_ite {c : Prop} [Decidable c] {x y : Prog σ ε α}
    (hx : c -> Triple P x Q E) (hy : ¬ c -> Triple P y Q E) :
    Triple P (if c then x else y) Q E := by
  split
  · rename_i hc
    exact hx hc
  · rename_i hc
    exact hy hc

theorem keeps_pure (a : α) : Keeps I (pure a : Prog σ ε α) := fun _ hs => hs

theorem keeps_fail (e : ε) : Keeps I (fail e : Prog σ ε α) := fun _ hs => hs

theorem keeps_gets (f : σ -> α) : Keeps I (gets f : Prog σ ε α) := fun _ hs => hs

theorem keeps_modify {f : σ -> σ} (h : forall s, I s -> I (f s)) :
    Keeps I (modify f : Prog σ ε Unit) := h

theorem Keeps.bind {x : Prog σ ε α} {f : α -> Prog σ ε β} (hx : Keeps I x)
    (hf : forall a, Keeps I (f a)) : Keeps I (x >>= f) := Triple.bind hx hf

/-- A step that keeps the assertion, where a failure needs less. -/
theorem Keeps.triple {x : Prog σ ε α} (h : Keeps I x) (hE : forall s, I s -> E s) :
    Triple I x (fun _ => I) E :=
  Triple.weaken h (fun _ hs => hs) (fun _ _ hs => hs) hE

theorem Triple.and {x : Prog σ ε α} (h : Triple P x Q E) (h' : Triple P' x Q' E') :
    Triple (fun s => P s ∧ P' s) x (fun a s => Q a s ∧ Q' a s) (fun s => E s ∧ E' s) := by
  intro s hs
  have hfirst := h s hs.1
  have hsecond := h' s hs.2
  rcases hrun : x s with ⟨result, s'⟩
  rw [hrun] at hfirst hsecond
  cases result with
  | ok a => exact ⟨hfirst, hsecond⟩
  | error e => exact ⟨hfirst, hsecond⟩

theorem Keeps.and {J : σ -> Prop} {x : Prog σ ε α} (h : Keeps I x) (h' : Keeps J x) :
    Keeps (fun s => I s ∧ J s) x :=
  Triple.and h h'

theorem Keeps.attempt {x : Prog σ ε α} (h : Keeps I x) : Keeps I (attempt x) :=
  Triple.attempt h

theorem Triple.mapError {ε' : Type} {f : ε -> ε'} {x : Prog σ ε α} (h : Triple P x Q E) :
    Triple P (mapError f x) Q E := by
  intro s hs
  have hpost := h s hs
  unfold Prog.mapError
  rcases hrun : x s with ⟨result, s'⟩
  rw [hrun] at hpost
  cases result with
  | ok a => exact hpost
  | error e => exact hpost

theorem Keeps.forEach {xs : List α} {body : α -> Prog σ ε Unit}
    (h : forall x, x ∈ xs -> Keeps I (body x)) : Keeps I (forEach xs body) :=
  Triple.forEach (J := fun _ => I) (fun x _ hx => h x hx)

end Rules

/-!
### Programs that do not fail
-/

def Succeeds (x : Prog σ ε α) : Prop := forall s, exists a s', x s = (Except.ok a, s')

theorem Succeeds.triple {P E : σ -> Prop} {x : Prog σ ε α} (h : Succeeds x) :
    Triple P x (fun _ _ => True) E := by
  intro s _
  rcases h s with ⟨a, s', hrun⟩
  rw [hrun]
  trivial

theorem Succeeds.triple_of_states {P I : σ -> Prop} {x : Prog σ ε α} (h : Succeeds x)
    (hstate : forall s, P s -> I (x s).2) : Triple P x (fun _ => I) (fun _ => False) := by
  intro s hs
  have hI := hstate s hs
  rcases h s with ⟨a, s', hrun⟩
  rw [hrun] at hI ⊢
  exact hI

theorem succeeds_pure (a : α) : Succeeds (pure a : Prog σ ε α) := fun s => ⟨a, s, rfl⟩

theorem succeeds_gets (f : σ -> α) : Succeeds (gets f : Prog σ ε α) := fun s => ⟨f s, s, rfl⟩

theorem succeeds_modify (f : σ -> σ) : Succeeds (modify f : Prog σ ε Unit) :=
  fun s => ⟨(), f s, rfl⟩

theorem succeeds_attempt (x : Prog σ ε α) : Succeeds (attempt x) := fun _ => ⟨_, _, rfl⟩

theorem Succeeds.bind {x : Prog σ ε α} {f : α -> Prog σ ε β} (hx : Succeeds x)
    (hf : forall a, Succeeds (f a)) : Succeeds (x >>= f) := by
  intro s
  rcases hx s with ⟨a, mid, hrun⟩
  rcases hf a mid with ⟨b, s', hend⟩
  refine ⟨b, s', ?_⟩
  show Prog.bind x f s = _
  unfold Prog.bind
  rw [hrun]
  exact hend

theorem Succeeds.forEach {xs : List α} {body : α -> Prog σ ε Unit}
    (h : forall x, Succeeds (body x)) : Succeeds (forEach xs body) := by
  induction xs with
  | nil => exact succeeds_pure ()
  | cons x rest ih => exact (h x).bind (fun _ => ih)

theorem succeeds_ite {c : Prop} [Decidable c] {x y : Prog σ ε α} (hx : Succeeds x)
    (hy : Succeeds y) : Succeeds (if c then x else y) := by
  split
  · exact hx
  · exact hy

end Prog

/-!
## Runs

A run performs one command after another; the guard is asked about each command
in the state before it.
-/

inductive Run {σ ι : Type} (step : σ -> ι -> σ) (guard : σ -> ι -> Prop) :
    σ -> List ι -> σ -> Prop where
  | nil (s : σ) : Run step guard s [] s
  | snoc {s mid : σ} {past : List ι} {i : ι} : Run step guard s past mid -> guard mid i ->
      Run step guard s (past ++ [i]) (step mid i)

theorem Run.invariant {σ ι : Type} {step : σ -> ι -> σ} {guard : σ -> ι -> Prop}
    {I : σ -> Prop} (hstep : forall s i, I s -> guard s i -> I (step s i)) {s s' : σ}
    {commands : List ι} (hrun : Run step guard s commands s') (hs : I s) : I s' := by
  induction hrun with
  | nil => exact hs
  | snoc _ hguard ih => exact hstep _ _ ih hguard

theorem Run.mono {σ ι : Type} {step : σ -> ι -> σ} {guard guard' : σ -> ι -> Prop}
    (h : forall s i, guard s i -> guard' s i) {s s' : σ} {commands : List ι}
    (hrun : Run step guard s commands s') : Run step guard' s commands s' := by
  induction hrun with
  | nil => exact Run.nil s
  | snoc _ hguard ih => exact ih.snoc (h _ _ hguard)

/-- The last command of a run. -/
theorem Run.last {σ ι : Type} {step : σ -> ι -> σ} {guard : σ -> ι -> Prop} {s s' : σ}
    {past : List ι} {i : ι} (hrun : Run step guard s (past ++ [i]) s') :
    exists mid, Run step guard s past mid ∧ guard mid i ∧ step mid i = s' := by
  generalize hcommands : past ++ [i] = commands at hrun
  cases hrun with
  | nil => exact absurd hcommands (List.append_ne_nil_of_right_ne_nil past (List.cons_ne_nil i []))
  | snoc hpast hguard =>
      rcases List.append_inj' hcommands rfl with ⟨hsame, hlast⟩
      injection hlast with hlast
      rw [hsame, hlast]
      exact ⟨_, hpast, hguard, rfl⟩

theorem Run.unique {σ ι : Type} {step : σ -> ι -> σ} {guard guard' : σ -> ι -> Prop}
    {s s1 s2 : σ} {commands : List ι} (h1 : Run step guard s commands s1)
    (h2 : Run step guard' s commands s2) : s1 = s2 := by
  induction h1 generalizing s2 with
  | nil =>
      generalize hcommands : ([] : List ι) = commands at h2
      cases h2 with
      | nil => rfl
      | snoc _ _ => exact absurd hcommands.symm (List.append_ne_nil_of_right_ne_nil _
          (List.cons_ne_nil _ []))
  | snoc _ _ ih =>
      rcases h2.last with ⟨mid, hpast, _, hend⟩
      rw [← hend, ih hpast]

/-- In a run, one guard can stand for another that agrees with it there. -/
theorem Run.congr_guard {σ ι : Type} {step : σ -> ι -> σ} {guard p q : σ -> ι -> Prop}
    (h : forall s i, guard s i -> (p s i <-> q s i)) {s s' : σ} {commands : List ι}
    (hrun : Run step guard s commands s') :
    Run step p s commands s' <-> Run step q s commands s' := by
  induction hrun with
  | nil => exact ⟨fun _ => Run.nil s, fun _ => Run.nil s⟩
  | snoc hpast hguard ih =>
      constructor
      · intro hp
        rcases hp.last with ⟨mid, hbefore, hlast, _⟩
        cases hpast.unique hbefore
        exact (ih.mp hbefore).snoc ((h _ _ hguard).mp hlast)
      · intro hq
        rcases hq.last with ⟨mid, hbefore, hlast, _⟩
        cases hpast.unique hbefore
        exact (ih.mpr hbefore).snoc ((h _ _ hguard).mpr hlast)

/-- Without a guard, every list of commands is a run. -/
theorem Run.unguarded {σ ι : Type} (step : σ -> ι -> σ) (s : σ) (commands : List ι) :
    Run step (fun _ _ => True) s commands (commands.foldl step s) := by
  induction commands using List.reverseRecOn with
  | nil => exact Run.nil s
  | append_singleton past i ih =>
      rw [List.foldl_append]
      exact ih.snoc trivial

end Foundation
