import MenteDb.Foundation.Outcome
import Mathlib.Data.List.Basic

/-!
# Programs that move a position

A program over a position in a list: it may move the position, and it ends with a
result or is stopped.  Every position it moves to is recorded.  Two kinds of rules
follow.  The first carry bounds on the positions through a program and exclude panics
and timeouts; the second say which parts of the list a program reads as what.
-/

namespace Foundation

/-- The positions that were moved to, and the end. -/
structure ScanRun (ε α : Type) where
  visited : List Nat
  outcome : Except (Stop ε) (α × Nat)

def Scan (ε α : Type) := Nat -> ScanRun ε α

namespace Scan

variable {ε α β τ : Type}

protected def pure (a : α) : Scan ε α := fun pos => ⟨[], Except.ok (a, pos)⟩

protected def bind (x : Scan ε α) (f : α -> Scan ε β) : Scan ε β := fun pos =>
  match (x pos).outcome with
  | Except.error s => ⟨(x pos).visited, Except.error s⟩
  | Except.ok (a, p) => ⟨(x pos).visited ++ (f a p).visited, (f a p).outcome⟩

instance : Monad (Scan ε) where
  pure := Scan.pure
  bind := Scan.bind

/-- Read the position. -/
def position : Scan ε Nat := fun pos => ⟨[], Except.ok (pos, pos)⟩

def moveTo (p : Nat) : Scan ε Unit := fun _ => ⟨[p], Except.ok ((), p)⟩

def stop (s : Stop ε) : Scan ε α := fun _ => ⟨[], Except.error s⟩

/-- A computation that does not look at the position. -/
def lift (x : Except (Stop ε) α) : Scan ε α := fun pos => ⟨[], x.map (fun a => (a, pos))⟩

/-!
## Outcomes
-/

@[simp] theorem outcome_pure (a : α) (pos : Nat) :
    ((pure a : Scan ε α) pos).outcome = Except.ok (a, pos) := rfl

theorem outcome_bind_eq_ok {x : Scan ε α} {f : α -> Scan ε β} {pos q : Nat} {b : β} :
    ((x >>= f) pos).outcome = Except.ok (b, q) <->
      exists a p, (x pos).outcome = Except.ok (a, p) ∧ (f a p).outcome = Except.ok (b, q) := by
  show (Scan.bind x f pos).outcome = _ <-> _
  unfold Scan.bind
  cases h : (x pos).outcome with
  | error s => simp
  | ok found =>
      rcases found with ⟨a, p⟩
      constructor
      · intro hrun
        exact ⟨a, p, rfl, hrun⟩
      · intro hrun
        rcases hrun with ⟨a', p', heq, hrun⟩
        cases heq
        exact hrun

/-!
## Bounds
-/

/-- A result with the property, or a reported error. -/
def Ends (post : α -> Nat -> Prop) : Except (Stop ε) (α × Nat) -> Prop
  | Except.ok (a, p) => post a p
  | Except.error (Stop.error _) => True
  | Except.error Stop.panic => False
  | Except.error Stop.timeout => False

/-- From positions with the precondition the program stays within the bound and ends
with the postcondition or an error. -/
def Safe (bound : Nat) (pre : Nat -> Prop) (x : Scan ε α) (post : α -> Nat -> Prop) : Prop :=
  forall pos, pre pos -> (forall p, p ∈ (x pos).visited -> p <= bound) ∧ Ends post (x pos).outcome

variable {bound : Nat} {pre : Nat -> Prop}

theorem Safe.pure {a : α} {post : α -> Nat -> Prop} (h : forall pos, pre pos -> post a pos) :
    Safe (ε := ε) bound pre (Pure.pure a) post := by
  intro pos hpos
  exact ⟨fun p hp => absurd hp List.not_mem_nil, h pos hpos⟩

theorem Safe.error {e : ε} {post : α -> Nat -> Prop} :
    Safe bound pre (stop (Stop.error e) : Scan ε α) post := by
  intro pos _
  exact ⟨fun p hp => absurd hp List.not_mem_nil, trivial⟩

theorem Safe.position : Safe (ε := ε) bound pre position (fun n p => n = p ∧ pre p) := by
  intro pos hpos
  exact ⟨fun p hp => absurd hp List.not_mem_nil, rfl, hpos⟩

theorem Safe.moveTo {p : Nat} {post : Unit -> Nat -> Prop}
    (h : forall pos, pre pos -> p <= bound ∧ post () p) :
    Safe (ε := ε) bound pre (moveTo p) post := by
  intro pos hpos
  refine ⟨?_, (h pos hpos).2⟩
  intro q hq
  rw [List.mem_singleton.mp hq]
  exact (h pos hpos).1

theorem Safe.lift {a : α} : Safe (ε := ε) bound pre (lift (Except.ok a)) (fun _ p => pre p) := by
  intro pos hpos
  exact ⟨fun p hp => absurd hp List.not_mem_nil, hpos⟩

theorem Safe.bind {x : Scan ε α} {f : α -> Scan ε β} {mid : α -> Nat -> Prop}
    {post : β -> Nat -> Prop} (hx : Safe bound pre x mid)
    (hf : forall a, Safe bound (mid a) (f a) post) : Safe bound pre (x >>= f) post := by
  intro pos hpos
  rcases hx pos hpos with ⟨hvisited, hend⟩
  show (forall p, p ∈ (Scan.bind x f pos).visited -> p <= bound) ∧
    Ends post (Scan.bind x f pos).outcome
  unfold Scan.bind
  cases h : (x pos).outcome with
  | error s =>
      rw [h] at hend
      refine ⟨hvisited, ?_⟩
      cases s with
      | error e => exact trivial
      | panic => exact hend
      | timeout => exact hend
  | ok found =>
      rcases found with ⟨a, p⟩
      rw [h] at hend
      rcases hf a p hend with ⟨hmore, hpost⟩
      refine ⟨?_, hpost⟩
      intro q hq
      rcases List.mem_append.mp hq with hq | hq
      · exact hvisited q hq
      · exact hmore q hq

theorem Safe.mono {x : Scan ε α} {post post' : α -> Nat -> Prop} {pre' : Nat -> Prop}
    (hx : Safe bound pre x post) (hpre : forall pos, pre' pos -> pre pos)
    (hpost : forall a p, post a p -> post' a p) : Safe bound pre' x post' := by
  intro pos hpos
  rcases hx pos (hpre pos hpos) with ⟨hvisited, hend⟩
  refine ⟨hvisited, ?_⟩
  cases h : (x pos).outcome with
  | error s =>
      rw [h] at hend
      cases s with
      | error e => exact trivial
      | panic => exact hend
      | timeout => exact hend
  | ok found =>
      rw [h] at hend
      exact hpost _ _ hend

/-!
## What a program reads

The list stands from the position on as one of its suffixes.
-/

/-- Where a suffix begins. -/
def startOf (tokens r : List τ) : Nat := tokens.length - r.length

/-- On suffixes of at most this length, the program ends with a result exactly when it
has read a piece of the list that the relation takes for the result, given what
follows; the end of the list is never read. -/
def Reads (tokens : List τ) (n : Nat) (x : Scan ε α) (reading : List τ -> α -> List τ -> Prop) :
    Prop :=
  forall r, r <:+ tokens -> r ≠ [] -> r.length <= n -> forall a p,
    (x (startOf tokens r)).outcome = Except.ok (a, p) <->
      exists u r', r = u ++ r' ∧ r' ≠ [] ∧ reading u a r' ∧ p = startOf tokens r'

section Reading

variable {tokens : List τ} {n : Nat}

theorem Reads.congr {x : Scan ε α} {reading reading' : List τ -> α -> List τ -> Prop}
    (hx : Reads tokens n x reading) (h : forall u a r, reading u a r <-> reading' u a r) :
    Reads tokens n x reading' := by
  intro r hr hne hlen a p
  rw [hx r hr hne hlen a p]
  simp only [h]

theorem Reads.pure (a : α) :
    Reads tokens n (Pure.pure a : Scan ε α) (fun u b _ => u = [] ∧ b = a) := by
  intro r _ hne _ b p
  rw [outcome_pure]
  constructor
  · intro h
    cases h
    exact ⟨[], r, rfl, hne, ⟨rfl, rfl⟩, rfl⟩
  · intro h
    rcases h with ⟨u, r', hr', _, ⟨hu, hb⟩, hp⟩
    rw [hr', hu, hb, hp]
    rfl

theorem Reads.never (s : Stop ε) :
    Reads tokens n (stop s : Scan ε α) (fun _ _ _ => False) := by
  intro r _ _ _ a p
  constructor
  · intro h
    cases h
  · intro h
    rcases h with ⟨_, _, _, _, hfalse, _⟩
    exact hfalse.elim

/-- The second program reads what the first leaves; it may count on a shorter list when
the first always reads something. -/
theorem Reads.bind {m : Nat} {x : Scan ε α} {f : α -> Scan ε β}
    {first : List τ -> α -> List τ -> Prop} {second : α -> List τ -> β -> List τ -> Prop}
    (hx : Reads tokens n x first) (hf : forall a, Reads tokens m (f a) (second a))
    (hm : forall u a r, first u a r -> n <= m + u.length) :
    Reads tokens n (x >>= f) (fun u b r =>
      exists a v w, u = v ++ w ∧ first v a (w ++ r) ∧ second a w b r) := by
  intro r hr hne hlen b q
  rw [outcome_bind_eq_ok]
  constructor
  · intro h
    rcases h with ⟨a, p, hfirst, hsecond⟩
    rcases (hx r hr hne hlen a p).mp hfirst with ⟨v, r1, hr1, hne1, hread, hp⟩
    have hsuffix : r1 <:+ tokens := (List.suffix_append v r1).trans (hr1 ▸ hr)
    have hshort : r1.length <= m := by
      have hbound := hm v a r1 hread
      rw [hr1, List.length_append] at hlen
      omega
    rw [hp] at hsecond
    rcases (hf a r1 hsuffix hne1 hshort b q).mp hsecond with ⟨w, r', hr', hne', hread', hq⟩
    refine ⟨v ++ w, r', ?_, hne', ⟨a, v, w, rfl, ?_, hread'⟩, hq⟩
    · rw [hr1, hr', List.append_assoc]
    · rw [← hr']
      exact hread
  · intro h
    rcases h with ⟨u, r', hr', hne', ⟨a, v, w, hu, hfirst, hsecond⟩, hq⟩
    have hr1 : r = v ++ (w ++ r') := by
      rw [hr', hu, List.append_assoc]
    have hne1 : w ++ r' ≠ [] := fun hnil => hne' (List.append_eq_nil_iff.mp hnil).2
    have hsuffix : w ++ r' <:+ tokens := (List.suffix_append v (w ++ r')).trans (hr1 ▸ hr)
    have hshort : (w ++ r').length <= m := by
      have hbound := hm v a (w ++ r') hfirst
      rw [hr1, List.length_append] at hlen
      omega
    refine ⟨a, startOf tokens (w ++ r'), ?_, ?_⟩
    · exact (hx r hr hne hlen a _).mpr ⟨v, w ++ r', hr1, hne1, hfirst, rfl⟩
    · rw [hq]
      exact (hf a (w ++ r') hsuffix hne1 hshort b _).mpr ⟨w, r', rfl, hne', hsecond, rfl⟩

theorem Reads.andThen {x : Scan ε α} {f : α -> Scan ε β} {first : List τ -> α -> List τ -> Prop}
    {second : α -> List τ -> β -> List τ -> Prop} (hx : Reads tokens n x first)
    (hf : forall a, Reads tokens n (f a) (second a)) :
    Reads tokens n (x >>= f) (fun u b r =>
      exists a v w, u = v ++ w ∧ first v a (w ++ r) ∧ second a w b r) :=
  Reads.bind hx hf (fun _ _ _ _ => Nat.le_add_right _ _)

theorem Reads.map {x : Scan ε α} {reading : List τ -> α -> List τ -> Prop}
    (hx : Reads tokens n x reading) (g : α -> β) :
    Reads tokens n (x >>= fun a => Pure.pure (g a)) (fun u b r =>
      exists a, reading u a r ∧ b = g a) := by
  refine Reads.congr (Reads.andThen hx (fun a => Reads.pure (g a))) ?_
  intro u b r
  constructor
  · intro h
    rcases h with ⟨a, v, w, hu, hread, hw, hb⟩
    rw [hw, List.nil_append] at hread
    rw [hw, List.append_nil] at hu
    exact ⟨a, hu ▸ hread, hb⟩
  · intro h
    rcases h with ⟨a, hread, hb⟩
    exact ⟨a, u, [], (List.append_nil u).symm, hread, rfl, hb⟩

theorem drop_startOf {r : List τ} (h : r <:+ tokens) : tokens.drop (startOf tokens r) = r :=
  (List.suffix_iff_eq_drop.mp h).symm

/-- Suffixes that begin at one position are the same. -/
theorem startOf_inj {r r' : List τ} (h : r <:+ tokens) (h' : r' <:+ tokens)
    (heq : startOf tokens r = startOf tokens r') : r = r' := by
  rw [← drop_startOf h, ← drop_startOf h', heq]

end Reading

end Scan
end Foundation
