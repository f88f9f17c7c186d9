import Mathlib.Logic.Relation
import Mathlib.Logic.Function.Basic
import Mathlib.Data.List.Basic

/-!
# Exclusive leases

Parties share a state and want to do jobs on it.  A job is done in steps, between which anybody
may move.  To begin a job a party asks for the lease, which is granted when nobody has it; the
party keeps it until its job has nothing left to do or the party vanishes.

Whatever the order of the moves, the jobs that were granted happened one after another.
-/

namespace Foundation

variable {σ π ι τ : Type}

/-- One step of a job in progress, if there is anything left to do. -/
abbrev JobStep (σ τ : Type) := τ -> σ -> Option (τ × σ)

/-- Steps of a job that nobody interferes with. -/
def Alone (next : JobStep σ τ) : τ × σ -> τ × σ -> Prop :=
  Relation.ReflTransGen (fun a b => next a.1 a.2 = some b)

/-- The jobs in progress are those of the parties at work. -/
structure LeaseState (σ π τ : Type) where
  shared : σ
  lock : Option π
  jobs : π -> Option τ

inductive LeaseMove (π ι : Type) where
  | attempt (party : π) (job : ι)
  | advance (party : π)
  | vanish (party : π)
deriving DecidableEq

namespace LeaseState

def idle (shared : σ) : LeaseState σ π τ where
  shared := shared
  lock := none
  jobs := fun _ => none

variable [DecidableEq π]

/-- The job is over; whoever had the lease gives it back. -/
def release (s : LeaseState σ π τ) (p : π) : LeaseState σ π τ :=
  { s with
    lock := if s.lock = some p then none else s.lock
    jobs := Function.update s.jobs p none }

variable (start : ι -> τ) (next : JobStep σ τ)

/-- A refused attempt changes nothing. -/
def move (s : LeaseState σ π τ) : LeaseMove π ι -> LeaseState σ π τ
  | LeaseMove.attempt p job =>
      if s.lock.isNone then
        { s with lock := some p, jobs := Function.update s.jobs p (some (start job)) }
      else s
  | LeaseMove.advance p =>
      match s.jobs p with
      | none => s
      | some l =>
          match next l s.shared with
          | none => s.release p
          | some (l', x) => { s with shared := x, jobs := Function.update s.jobs p (some l') }
  | LeaseMove.vanish p => s.release p

def run (s : LeaseState σ π τ) (moves : List (LeaseMove π ι)) : LeaseState σ π τ :=
  moves.foldl (fun s m => s.move start next m) s

omit [DecidableEq π] in
/-- What a move begins. -/
def grantedBy (s : LeaseState σ π τ) : LeaseMove π ι -> List (π × ι)
  | LeaseMove.attempt p job => if s.lock.isNone then [(p, job)] else []
  | _ => []

/-- The attempts that were granted, in order. -/
def granted : LeaseState σ π τ -> List (LeaseMove π ι) -> List (π × ι)
  | _, [] => []
  | s, m :: rest => s.grantedBy m ++ granted (s.move start next m) rest

end LeaseState

/-!
## One after another
-/

/-- A job that is not in progress any more. -/
structure Session (π ι : Type) where
  party : π
  job : ι
  completed : Bool

def Session.grant (x : Session π ι) : π × ι := (x.party, x.job)

/-- Each job begins with the state the one before it has left.  A job that was not completed
stops somewhere. -/
inductive Serial (start : ι -> τ) (next : JobStep σ τ) :
    σ -> List (Session π ι) -> σ -> Prop where
  | nil (s : σ) : Serial start next s [] s
  | snoc {s mid s' : σ} {past : List (Session π ι)} {x : Session π ι} {l : τ} :
      Serial start next s past mid -> Alone next (start x.job, mid) (l, s') ->
        (x.completed = true -> next l s' = none) -> Serial start next s (past ++ [x]) s'

/-- When each completed job is worth a function, completed jobs are worth its iteration. -/
theorem Serial.foldl {start : ι -> τ} {next : JobStep σ τ} {whole : σ -> ι -> σ}
    (hwhole : forall job s l s', Alone next (start job, s) (l, s') -> next l s' = none ->
      s' = whole s job)
    {s s' : σ} {sessions : List (Session π ι)} (h : Serial start next s sessions s')
    (hcompleted : forall x, x ∈ sessions -> x.completed = true) :
    s' = (sessions.map Session.grant).foldl (fun s g => whole s g.2) s := by
  induction h with
  | nil => rfl
  | @snoc mid s' past x l _ halone hend ih =>
      have hpast := ih (fun y hy => hcompleted y (List.mem_append_left _ hy))
      have hlast := hcompleted x (List.mem_append_right _ (List.mem_singleton.mpr rfl))
      rw [List.map_append, List.foldl_append, ← hpast]
      exact hwhole _ _ _ _ halone (hend hlast)

/-!
## Serving
-/

/-- The jobs granted so far happened one after another; the last may be in progress.  The flag
says that nobody vanished. -/
inductive Served (start : ι -> τ) (next : JobStep σ τ) (s0 : σ) :
    Bool -> List (π × ι) -> LeaseState σ π τ -> Prop where
  | free {c : Bool} {sessions : List (Session π ι)} {s : LeaseState σ π τ} :
      Serial start next s0 sessions s.shared -> s.lock = none -> (forall p, s.jobs p = none) ->
        (c = true -> forall x, x ∈ sessions -> x.completed = true) ->
          Served start next s0 c (sessions.map Session.grant) s
  | held {c : Bool} {sessions : List (Session π ι)} {s : LeaseState σ π τ} {mid : σ} {p : π}
      {job : ι} {l : τ} :
      Serial start next s0 sessions mid -> Alone next (start job, mid) (l, s.shared) ->
        s.lock = some p -> s.jobs p = some l -> (forall q, q ≠ p -> s.jobs q = none) ->
          (c = true -> forall x, x ∈ sessions -> x.completed = true) ->
            Served start next s0 c (sessions.map Session.grant ++ [(p, job)]) s

section Serving

variable [DecidableEq π] {start : ι -> τ} {next : JobStep σ τ} {s0 : σ}

/-- The party at work ends its job, completed or not. -/
theorem Served.ended {c done : Bool} {sessions : List (Session π ι)} {s : LeaseState σ π τ}
    {mid : σ} {p : π} {job : ι} {l : τ} (hserial : Serial start next s0 sessions mid)
    (halone : Alone next (start job, mid) (l, s.shared)) (hlock : s.lock = some p)
    (hothers : forall q, q ≠ p -> s.jobs q = none)
    (hcompleted : c = true -> forall x, x ∈ sessions -> x.completed = true)
    (hdone : done = true -> next l s.shared = none) :
    Served start next s0 (c && done) (sessions.map Session.grant ++ [(p, job)])
      (s.release p) := by
  have hserial' : Serial start next s0 (sessions ++ [⟨p, job, done⟩]) (s.release p).shared :=
    hserial.snoc halone hdone
  have hfree := Served.free (c := c && done) hserial' (if_pos hlock)
    (by
      intro q
      by_cases hq : q = p
      · rw [hq]
        exact Function.update_self p none s.jobs
      · show Function.update s.jobs p none q = none
        rw [Function.update_of_ne hq]
        exact hothers q hq)
    (by
      intro hc x hx
      rw [Bool.and_eq_true] at hc
      rcases List.mem_append.mp hx with hpast | hlast
      · exact hcompleted hc.1 x hpast
      · rw [List.mem_singleton.mp hlast]
        exact hc.2)
  rw [List.map_append] at hfree
  exact hfree

omit [DecidableEq π] in
theorem Served.weaken {c : Bool} {gs : List (π × ι)} {s : LeaseState σ π τ}
    (h : Served start next s0 c gs s) (b : Bool) : Served start next s0 (c && b) gs s := by
  cases h with
  | free hserial hlock hjobs hcompleted =>
      exact Served.free hserial hlock hjobs
        (fun hc => hcompleted (Bool.and_eq_true _ _ ▸ hc).1)
  | held hserial halone hlock hjob hothers hcompleted =>
      exact Served.held hserial halone hlock hjob hothers
        (fun hc => hcompleted (Bool.and_eq_true _ _ ▸ hc).1)

end Serving

end Foundation
