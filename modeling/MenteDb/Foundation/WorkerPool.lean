import Mathlib.Data.List.Perm.Basic
import Mathlib.Data.List.Perm.Lattice

/-!
# A bounded queue with a pool of workers

Requests wait in a queue of bounded length.  A dispatcher takes them out in order and starts a
task for each as soon as one of a fixed number of permits is free; a task gives its permit back
when it is over.  The queue is closed when nobody who could send is left.  The dispatcher then
takes out what is still there, waits for the last task and ends.

The parties move in any order, and the scheduler that picks the next move is not restricted.
-/

namespace Foundation

/-- What the dispatcher of a pool does. -/
inductive Dispatcher (α : Type) where
  | receiving
  | holding (request : α)
  | draining
  | finished
deriving DecidableEq, Repr

/-- The request that has left the queue and has no task yet. -/
def Dispatcher.held {α : Type} : Dispatcher α -> List α
  | holding request => [request]
  | _ => []

/-- The steps the dispatcher itself has left. -/
def Dispatcher.stepsLeft {α : Type} : Dispatcher α -> Nat
  | receiving => 2
  | holding _ => 2
  | draining => 1
  | finished => 0

/-- The last three fields only record what happened, in the order in which it did. -/
structure Pool (α : Type) where
  holders : Nat
  queue : List α
  dispatcher : Dispatcher α
  running : List α
  accepted : List α
  started : List α
  completed : List α
deriving DecidableEq, Repr

/-- A move of one of the parties: those that may send, the dispatcher, and the tasks. -/
inductive PoolMove (α : Type) where
  | share
  | release
  | trySend (request : α)
  | receive
  | start
  | complete (task : Nat)
  | finish
deriving DecidableEq, Repr

/-- The moves of the dispatcher and of the tasks. -/
def PoolMove.isInternal {α : Type} : PoolMove α -> Bool
  | receive => true
  | start => true
  | complete _ => true
  | finish => true
  | _ => false

/-- Holding a request is what leaves the dispatcher the most to do. -/
theorem Dispatcher.stepsLeft_le {α : Type} (d : Dispatcher α) :
    2 * d.held.length + d.stepsLeft <= 4 := by
  cases d with
  | receiving => exact Nat.le_of_ble_eq_true rfl
  | holding request => exact Nat.le_of_ble_eq_true rfl
  | draining => exact Nat.le_of_ble_eq_true rfl
  | finished => exact Nat.le_of_ble_eq_true rfl

theorem Dispatcher.length_held_le {α : Type} (d : Dispatcher α) : d.held.length <= 1 := by
  cases d with
  | receiving => exact Nat.zero_le 1
  | holding request => exact Nat.le_refl 1
  | draining => exact Nat.zero_le 1
  | finished => exact Nat.zero_le 1

namespace Pool

variable {α : Type}

def opened (holders : Nat) : Pool α where
  holders := holders
  queue := []
  dispatcher := Dispatcher.receiving
  running := []
  accepted := []
  started := []
  completed := []

/-- None stands for a move that its party cannot make now. -/
def step (capacity permits : Nat) (s : Pool α) : PoolMove α -> Option (Pool α)
  | PoolMove.share =>
      if 0 < s.holders then some { s with holders := s.holders + 1 } else none
  | PoolMove.release =>
      if 0 < s.holders then some { s with holders := s.holders - 1 } else none
  | PoolMove.trySend request =>
      if 0 < s.holders then
        if s.queue.length < capacity then
          some { s with queue := s.queue ++ [request], accepted := s.accepted ++ [request] }
        else some s
      else none
  | PoolMove.receive =>
      match s.dispatcher, s.queue with
      | Dispatcher.receiving, request :: rest =>
          some { s with dispatcher := Dispatcher.holding request, queue := rest }
      | Dispatcher.receiving, [] =>
          if s.holders = 0 then some { s with dispatcher := Dispatcher.draining } else none
      | _, _ => none
  | PoolMove.start =>
      match s.dispatcher with
      | Dispatcher.holding request =>
          if s.running.length < permits then
            some { s with
              dispatcher := Dispatcher.receiving
              running := s.running ++ [request]
              started := s.started ++ [request] }
          else none
      | _ => none
  | PoolMove.complete task =>
      match s.running[task]? with
      | some request =>
          some { s with
            running := s.running.eraseIdx task
            completed := s.completed ++ [request] }
      | none => none
  | PoolMove.finish =>
      match s.dispatcher with
      | Dispatcher.draining =>
          if s.running = [] then some { s with dispatcher := Dispatcher.finished } else none
      | _ => none

/-!
## What a move does
-/

/-- The moves as a relation, one constructor for each of their outcomes. -/
inductive Steps (capacity permits : Nat) (s : Pool α) : PoolMove α -> Pool α -> Prop where
  | share : 0 < s.holders ->
      Steps capacity permits s PoolMove.share { s with holders := s.holders + 1 }
  | release : 0 < s.holders ->
      Steps capacity permits s PoolMove.release { s with holders := s.holders - 1 }
  | accept (request : α) : 0 < s.holders -> s.queue.length < capacity ->
      Steps capacity permits s (PoolMove.trySend request)
        { s with queue := s.queue ++ [request], accepted := s.accepted ++ [request] }
  | refuse (request : α) : 0 < s.holders -> capacity <= s.queue.length ->
      Steps capacity permits s (PoolMove.trySend request) s
  | receive (request : α) (rest : List α) : s.dispatcher = Dispatcher.receiving ->
      s.queue = request :: rest ->
      Steps capacity permits s PoolMove.receive
        { s with dispatcher := Dispatcher.holding request, queue := rest }
  | close : s.dispatcher = Dispatcher.receiving -> s.queue = [] -> s.holders = 0 ->
      Steps capacity permits s PoolMove.receive { s with dispatcher := Dispatcher.draining }
  | start (request : α) : s.dispatcher = Dispatcher.holding request ->
      s.running.length < permits ->
      Steps capacity permits s PoolMove.start
        { s with
          dispatcher := Dispatcher.receiving
          running := s.running ++ [request]
          started := s.started ++ [request] }
  | complete (task : Nat) (request : α) : s.running[task]? = some request ->
      Steps capacity permits s (PoolMove.complete task)
        { s with
          running := s.running.eraseIdx task
          completed := s.completed ++ [request] }
  | finish : s.dispatcher = Dispatcher.draining -> s.running = [] ->
      Steps capacity permits s PoolMove.finish { s with dispatcher := Dispatcher.finished }

theorem steps_of_step {capacity permits : Nat} {s s' : Pool α} {move : PoolMove α}
    (h : s.step capacity permits move = some s') : Steps capacity permits s move s' := by
  cases move with
  | share =>
      rcases Option.ite_none_right_eq_some.mp h with ⟨hpos, heq⟩
      cases heq
      exact Steps.share hpos
  | release =>
      rcases Option.ite_none_right_eq_some.mp h with ⟨hpos, heq⟩
      cases heq
      exact Steps.release hpos
  | trySend request =>
      rcases Option.ite_none_right_eq_some.mp h with ⟨hpos, heq⟩
      split at heq
      · rename_i hroom
        cases heq
        exact Steps.accept request hpos hroom
      · rename_i hfull
        cases heq
        exact Steps.refuse request hpos (Nat.le_of_not_lt hfull)
  | receive =>
      simp only [step] at h
      split at h
      · rename_i request rest hdispatcher hqueue
        cases h
        exact Steps.receive request rest hdispatcher hqueue
      · rename_i hdispatcher hqueue
        rcases Option.ite_none_right_eq_some.mp h with ⟨hclosed, heq⟩
        cases heq
        exact Steps.close hdispatcher hqueue hclosed
      · cases h
  | start =>
      simp only [step] at h
      split at h
      · rename_i request hdispatcher
        rcases Option.ite_none_right_eq_some.mp h with ⟨hfree, heq⟩
        cases heq
        exact Steps.start request hdispatcher hfree
      · cases h
  | complete task =>
      simp only [step] at h
      split at h
      · rename_i request htask
        cases h
        exact Steps.complete task request htask
      · cases h
  | finish =>
      simp only [step] at h
      split at h
      · rename_i hdispatcher
        rcases Option.ite_none_right_eq_some.mp h with ⟨hrest, heq⟩
        cases heq
        exact Steps.finish hdispatcher hrest
      · cases h

/-- Only a send adds to what is accepted. -/
theorem accepted_step {capacity permits : Nat} {s s' : Pool α} {move : PoolMove α}
    (h : s.step capacity permits move = some s') :
    s'.accepted = s.accepted ∨
      exists request, move = PoolMove.trySend request ∧
        s'.accepted = s.accepted ++ [request] := by
  cases steps_of_step h with
  | accept request hpos hroom => exact Or.inr ⟨request, rfl, rfl⟩
  | _ => exact Or.inl rfl

/-- Only a release lowers the number of those that may send. -/
theorem holders_step {capacity permits : Nat} {s s' : Pool α} {move : PoolMove α}
    (hmove : move ≠ PoolMove.release) (h : s.step capacity permits move = some s') :
    s.holders <= s'.holders := by
  cases steps_of_step h with
  | share hpos => exact Nat.le_succ s.holders
  | release hpos => exact absurd rfl hmove
  | _ => exact Nat.le_refl s.holders

/-!
## Safety
-/

/-- Every accepted request is in one place, and the places are as large as they may be. -/
structure Sound (capacity permits : Nat) (s : Pool α) : Prop where
  queue_le : s.queue.length <= capacity
  running_le : s.running.length <= permits
  in_order : s.accepted = s.started ++ s.dispatcher.held ++ s.queue
  once : s.started.Perm (s.completed ++ s.running)
  closed : s.dispatcher = Dispatcher.draining ∨ s.dispatcher = Dispatcher.finished ->
    s.holders = 0 ∧ s.queue = []
  idle : s.dispatcher = Dispatcher.finished -> s.running = []

theorem sound_opened (capacity permits holders : Nat) :
    (opened holders : Pool α).Sound capacity permits where
  queue_le := Nat.zero_le capacity
  running_le := Nat.zero_le permits
  in_order := rfl
  once := List.Perm.refl []
  closed := by
    intro h
    cases h with
    | inl h => cases h
    | inr h => cases h
  idle := by
    intro h
    cases h

theorem Sound.step {capacity permits : Nat} {s s' : Pool α} {move : PoolMove α}
    (hs : s.Sound capacity permits) (h : s.step capacity permits move = some s') :
    s'.Sound capacity permits := by
  cases steps_of_step h with
  | share hpos =>
      -- nobody is left who could share once the queue is closed
      refine { hs with closed := ?_ }
      intro hend
      have hzero := (hs.closed hend).1
      omega
  | release hpos =>
      refine { hs with closed := ?_ }
      intro hend
      have hzero := (hs.closed hend).1
      omega
  | accept request hpos hroom =>
      refine { hs with queue_le := ?_, in_order := ?_, closed := ?_ }
      · rw [List.length_append]
        exact hroom
      · show s.accepted ++ [request] = s.started ++ s.dispatcher.held ++ (s.queue ++ [request])
        rw [hs.in_order, List.append_assoc]
      · intro hend
        have hzero := (hs.closed hend).1
        omega
  | refuse request hpos hfull => exact hs
  | receive request rest hdispatcher hqueue =>
      refine { hs with queue_le := ?_, in_order := ?_, closed := ?_, idle := ?_ }
      · have hle := hs.queue_le
        rw [hqueue, List.length_cons] at hle
        exact Nat.le_of_succ_le hle
      · have horder := hs.in_order
        rw [hdispatcher, hqueue] at horder
        show s.accepted = s.started ++ [request] ++ rest
        rw [horder]
        simp [Dispatcher.held]
      · intro hend
        cases hend with
        | inl h => cases h
        | inr h => cases h
      · intro hend
        cases hend
  | close hdispatcher hqueue hclosed =>
      refine { hs with in_order := ?_, closed := ?_, idle := ?_ }
      · have horder := hs.in_order
        rw [hdispatcher] at horder
        exact horder
      · intro _
        exact ⟨hclosed, hqueue⟩
      · intro hend
        cases hend
  | start request hdispatcher hfree =>
      refine { hs with running_le := ?_, in_order := ?_, once := ?_, closed := ?_, idle := ?_ }
      · rw [List.length_append]
        exact hfree
      · have horder := hs.in_order
        rw [hdispatcher] at horder
        show s.accepted = s.started ++ [request] ++ [] ++ s.queue
        rw [List.append_nil]
        exact horder
      · show (s.started ++ [request]).Perm (s.completed ++ (s.running ++ [request]))
        rw [← List.append_assoc]
        exact hs.once.append_right [request]
      · intro hend
        cases hend with
        | inl h => cases h
        | inr h => cases h
      · intro hend
        cases hend
  | complete task request htask =>
      refine { hs with running_le := ?_, once := ?_, idle := ?_ }
      · exact Nat.le_trans (List.eraseIdx_sublist s.running task).length_le hs.running_le
      · show s.started.Perm (s.completed ++ [request] ++ s.running.eraseIdx task)
        rw [List.append_assoc]
        refine hs.once.trans (List.Perm.append_left s.completed ?_)
        rcases List.getElem?_eq_some_iff.mp htask with ⟨hlt, hget⟩
        have hperm := List.getElem_cons_eraseIdx_perm hlt
        rw [hget] at hperm
        exact hperm.symm
      · intro hend
        have hnone := hs.idle hend
        rw [hnone] at htask
        cases htask
  | finish hdispatcher hrest =>
      refine { hs with in_order := ?_, closed := ?_, idle := ?_ }
      · have horder := hs.in_order
        rw [hdispatcher] at horder
        exact horder
      · intro _
        exact hs.closed (Or.inl hdispatcher)
      · intro _
        exact hrest

/-- What is accepted and not over waits in the queue, is held or runs. -/
theorem Sound.length_accepted {capacity permits : Nat} {s : Pool α}
    (hs : s.Sound capacity permits) :
    s.accepted.length =
      s.completed.length + s.running.length + s.dispatcher.held.length + s.queue.length := by
  have hlength := hs.once.length_eq
  rw [List.length_append] at hlength
  rw [hs.in_order, List.length_append, List.length_append, hlength]

/-!
## Progress
-/

/-- The moves of the dispatcher and the tasks that are left to do.  A request in the queue costs
three of them, one that is held two, and one that runs one. -/
def load (s : Pool α) : Nat :=
  3 * s.queue.length + 2 * s.dispatcher.held.length + s.running.length + s.dispatcher.stepsLeft

/-- An internal move lowers the load by exactly one and accepts nothing. -/
theorem load_step {capacity permits : Nat} {s s' : Pool α} {move : PoolMove α}
    (hinternal : move.isInternal = true) (h : s.step capacity permits move = some s') :
    s'.load + 1 = s.load ∧ s'.accepted = s.accepted ∧ s'.holders = s.holders := by
  cases steps_of_step h with
  | share hpos => cases hinternal
  | release hpos => cases hinternal
  | accept request hpos hroom => cases hinternal
  | refuse request hpos hfull => cases hinternal
  | receive request rest hdispatcher hqueue =>
      refine ⟨?_, rfl, rfl⟩
      unfold load
      rw [hdispatcher, hqueue]
      simp only [Dispatcher.held, Dispatcher.stepsLeft, List.length_cons, List.length_nil]
      omega
  | close hdispatcher hqueue hclosed =>
      refine ⟨?_, rfl, rfl⟩
      unfold load
      rw [hdispatcher]
      simp only [Dispatcher.held, Dispatcher.stepsLeft, List.length_nil]
  | start request hdispatcher hfree =>
      refine ⟨?_, rfl, rfl⟩
      unfold load
      rw [hdispatcher]
      simp only [Dispatcher.held, Dispatcher.stepsLeft, List.length_append, List.length_cons,
        List.length_nil]
      omega
  | complete task request htask =>
      refine ⟨?_, rfl, rfl⟩
      have hlt := (List.getElem?_eq_some_iff.mp htask).1
      have hlength := List.length_eraseIdx_of_lt hlt
      show 3 * s.queue.length + 2 * s.dispatcher.held.length + (s.running.eraseIdx task).length +
        s.dispatcher.stepsLeft + 1 = 3 * s.queue.length + 2 * s.dispatcher.held.length +
        s.running.length + s.dispatcher.stepsLeft
      omega
  | finish hdispatcher hrest =>
      refine ⟨?_, rfl, rfl⟩
      unfold load
      rw [hdispatcher]
      simp only [Dispatcher.held, Dispatcher.stepsLeft, List.length_nil]

/-- No move of the dispatcher or of a task is possible. -/
def AtRest (capacity permits : Nat) (s : Pool α) : Prop :=
  forall move : PoolMove α, move.isInternal = true -> s.step capacity permits move = none

/-- With a permit at all, the pool rests only when nothing is left to do. -/
theorem atRest_iff {capacity permits : Nat} (hpermits : 0 < permits) {s : Pool α}
    (hs : s.Sound capacity permits) :
    s.AtRest capacity permits <->
      s.queue = [] ∧ s.running = [] ∧
        (s.dispatcher = Dispatcher.finished ∨
          s.dispatcher = Dispatcher.receiving ∧ 0 < s.holders) := by
  constructor
  · intro hrest
    have hrunning : s.running = [] := by
      cases hcase : s.running with
      | nil => rfl
      | cons request others =>
          have hstuck := hrest (PoolMove.complete 0) rfl
          simp [Pool.step, hcase] at hstuck
    have hreceive := hrest PoolMove.receive rfl
    have hstart := hrest PoolMove.start rfl
    have hfinish := hrest PoolMove.finish rfl
    cases hdispatcher : s.dispatcher with
    | receiving =>
        cases hqueue : s.queue with
        | cons request rest => simp [Pool.step, hdispatcher, hqueue] at hreceive
        | nil =>
            simp only [Pool.step, hdispatcher, hqueue, ite_eq_right_iff, reduceCtorEq,
              imp_false] at hreceive
            exact ⟨rfl, hrunning, Or.inr ⟨rfl, Nat.pos_of_ne_zero hreceive⟩⟩
    | holding request => simp [Pool.step, hdispatcher, hrunning, hpermits] at hstart
    | draining => simp [Pool.step, hdispatcher, hrunning] at hfinish
    | finished =>
        exact ⟨(hs.closed (Or.inr hdispatcher)).2, hrunning, Or.inl rfl⟩
  · rintro ⟨hqueue, hrunning, hdispatcher⟩ move hmove
    cases move with
    | share => cases hmove
    | release => cases hmove
    | trySend request => cases hmove
    | receive =>
        rcases hdispatcher with hdone | ⟨hreceiving, hpos⟩
        · simp [Pool.step, hdone]
        · simp [Pool.step, hreceiving, hqueue, Nat.pos_iff_ne_zero.mp hpos]
    | start =>
        rcases hdispatcher with hdone | ⟨hreceiving, -⟩
        · simp [Pool.step, hdone]
        · simp [Pool.step, hreceiving]
    | complete task => simp [Pool.step, hrunning]
    | finish =>
        rcases hdispatcher with hdone | ⟨hreceiving, -⟩
        · simp [Pool.step, hdone]
        · simp [Pool.step, hreceiving]

/-- At rest everything that was accepted is over, in an order of its own. -/
theorem completed_of_atRest {capacity permits : Nat} (hpermits : 0 < permits) {s : Pool α}
    (hs : s.Sound capacity permits) (hrest : s.AtRest capacity permits) :
    s.completed.Perm s.accepted := by
  rcases (atRest_iff hpermits hs).mp hrest with ⟨hqueue, hrunning, hdispatcher⟩
  have hheld : s.dispatcher.held = [] := by
    rcases hdispatcher with hdone | ⟨hreceiving, -⟩
    · rw [hdone]
      rfl
    · rw [hreceiving]
      rfl
  have hstarted := hs.once
  rw [hrunning, List.append_nil] at hstarted
  rw [hs.in_order, hheld, hqueue, List.append_nil, List.append_nil]
  exact hstarted.symm

end Pool

end Foundation
