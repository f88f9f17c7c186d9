import Mathlib.Logic.Function.Basic
import MenteDb.Core.Types

/-!
# The event bus

Subscribers are called under a read lock, one after the other, while other threads may publish as
well.  Changes of the subscriber list need the write lock, so nobody changes the list while it is
being gone through.  The number of the next subscriber has a lock of its own, which a thread keeps
until its subscriber is in the list.  A callback returns to the thread that called it and does
not use the bus; what else it does is not looked at.
-/

namespace MenteDb
namespace Core

/-- Handles returned by {lit}`subscribe`. -/
abbrev SubscriberId := UInt64

/-- What a thread is doing with the bus. -/
inductive BusTask (ε : Type) where
  | idle
  | subscribing (id : SubscriberId)
  | publishing (event : ε) (remaining : List SubscriberId)
deriving DecidableEq

/-- The bus, its two locks, and what the callbacks have been called with.  A callback is known by
the handle of its subscriber. -/
structure EventBus (π ε : Type) where
  subscribers : List SubscriberId
  nextId : SubscriberId
  /-- Who holds the lock of {lit}`next_id`. -/
  numbering : Option π
  /-- Who holds a read lock of the list. -/
  readers : List π
  tasks : π -> BusTask ε
  received : SubscriberId -> List (π × ε)

inductive BusMove (π ε : Type) where
  | takeNumber (p : π)
  | addSubscriber (p : π)
  | unsubscribe (p : π) (id : SubscriberId)
  | publish (p : π) (event : ε)
  | deliver (p : π)
  | finish (p : π)

/-- How many handles a move takes. -/
def BusMove.handles {π ε : Type} : BusMove π ε -> Nat
  | BusMove.takeNumber _ => 1
  | _ => 0

namespace EventBus

variable {π ε : Type}

def new : EventBus π ε where
  subscribers := []
  nextId := 0
  numbering := none
  readers := []
  tasks _ := BusTask.idle
  received _ := []

section Steps

variable [DecidableEq π]

def setTask (s : EventBus π ε) (p : π) (task : BusTask ε) : EventBus π ε :=
  { s with tasks := Function.update s.tasks p task }

/-- None when the thread has to wait for a lock, or is doing something else. -/
def step (s : EventBus π ε) : BusMove π ε -> Option (EventBus π ε)
  | BusMove.takeNumber p =>
      match s.tasks p, s.numbering with
      | BusTask.idle, none =>
          some { s.setTask p (BusTask.subscribing s.nextId) with
            nextId := s.nextId + 1
            numbering := some p }
      | _, _ => none
  | BusMove.addSubscriber p =>
      match s.tasks p, s.readers with
      | BusTask.subscribing id, [] =>
          some { s.setTask p BusTask.idle with
            subscribers := s.subscribers ++ [id]
            numbering := none }
      | _, _ => none
  | BusMove.unsubscribe p id =>
      match s.tasks p, s.readers with
      | BusTask.idle, [] =>
          some { s with subscribers := s.subscribers.filter (fun i => decide (i ≠ id)) }
      | _, _ => none
  | BusMove.publish p event =>
      match s.tasks p with
      | BusTask.idle =>
          some { s.setTask p (BusTask.publishing event s.subscribers) with
            readers := p :: s.readers }
      | _ => none
  | BusMove.deliver p =>
      match s.tasks p with
      | BusTask.publishing event (id :: remaining) =>
          some { s.setTask p (BusTask.publishing event remaining) with
            received := Function.update s.received id (s.received id ++ [(p, event)]) }
      | _ => none
  | BusMove.finish p =>
      match s.tasks p with
      | BusTask.publishing _ [] =>
          some { s.setTask p BusTask.idle with readers := s.readers.erase p }
      | _ => none

def run (s : EventBus π ε) : List (BusMove π ε) -> Option (EventBus π ε)
  | [] => some s
  | move :: rest => (s.step move).bind (fun s' => s'.run rest)

end Steps

/-!
## Histories
-/

/-- An event with the subscribers there were when it was published. -/
structure Publication (π ε : Type) where
  publisher : π
  event : ε
  audience : List SubscriberId

section Histories

variable [DecidableEq π]

def publication? (s : EventBus π ε) : BusMove π ε -> Option (Publication π ε)
  | BusMove.publish p event =>
      some { publisher := p, event := event, audience := s.subscribers }
  | _ => none

/-- A state that threads come to, with how many handles they have taken and what they have
published on the way. -/
inductive Reached : Nat -> List (Publication π ε) -> EventBus π ε -> Prop where
  | new : Reached 0 [] EventBus.new
  | step {taken : Nat} {log : List (Publication π ε)} {s s' : EventBus π ε}
      (move : BusMove π ε) :
      Reached taken log s -> s.step move = some s' ->
        Reached (taken + move.handles) (log ++ (s.publication? move).toList) s'

/-- What a subscriber is to hear of a thread. -/
def heard (log : List (Publication π ε)) (p : π) (id : SubscriberId) : List (π × ε) :=
  (log.filter (fun x => decide (x.publisher = p) && decide (id ∈ x.audience))).map
    (fun x => (x.publisher, x.event))

/-- What a subscriber has not heard yet of a thread that is publishing. -/
def pending (s : EventBus π ε) (p : π) (id : SubscriberId) : List (π × ε) :=
  match s.tasks p with
  | BusTask.publishing event remaining => if id ∈ remaining then [(p, event)] else []
  | _ => []

def heardOf (s : EventBus π ε) (p : π) (id : SubscriberId) : List (π × ε) :=
  (s.received id).filter (fun x => decide (x.1 = p))

/-- The subscriber was removed, or its handle was never given out. -/
def Gone (s : EventBus π ε) (id : SubscriberId) : Prop :=
  id < s.nextId ∧ id ∉ s.subscribers ∧ forall p, s.tasks p ≠ BusTask.subscribing id

/-- The handles in the list ascend, and the one that is being given out comes after them. -/
structure Registered (s : EventBus π ε) : Prop where
  ascending : s.subscribers.Pairwise (fun a b => a < b)
  numbered : forall id, id ∈ s.subscribers -> id < s.nextId
  subscribing : forall p id, s.tasks p = BusTask.subscribing id ->
    s.numbering = some p ∧ id < s.nextId ∧ forall i, i ∈ s.subscribers -> i < id

/-- Those who publish have the read lock, and every subscriber has heard of each thread what it
was to hear, except for what is still being delivered. -/
structure Delivering (log : List (Publication π ε)) (s : EventBus π ε) : Prop where
  reading : forall p, p ∈ s.readers <->
    exists event rest, s.tasks p = BusTask.publishing event rest
  listed : s.readers.Nodup
  remaining : forall p event rest, s.tasks p = BusTask.publishing event rest ->
    rest <:+ s.subscribers
  delivered : forall p id, s.heardOf p id ++ s.pending p id = heard log p id

theorem tasks_setTask (s : EventBus π ε) (p q : π) (task : BusTask ε) :
    (s.setTask p task).tasks q = if q = p then task else s.tasks q :=
  Function.update_apply s.tasks p task q

/-- What a move does, and when it can be made. -/
inductive Stepped (s : EventBus π ε) : BusMove π ε -> EventBus π ε -> Prop where
  | takeNumber {p : π} (htask : s.tasks p = BusTask.idle) (hfree : s.numbering = none) :
      Stepped s (BusMove.takeNumber p)
        { s.setTask p (BusTask.subscribing s.nextId) with
          nextId := s.nextId + 1
          numbering := some p }
  | addSubscriber {p : π} {id : SubscriberId} (htask : s.tasks p = BusTask.subscribing id)
      (hreaders : s.readers = []) :
      Stepped s (BusMove.addSubscriber p)
        { s.setTask p BusTask.idle with
          subscribers := s.subscribers ++ [id]
          numbering := none }
  | unsubscribe {p : π} (id : SubscriberId) (hreaders : s.readers = []) :
      Stepped s (BusMove.unsubscribe p id)
        { s with subscribers := s.subscribers.filter (fun i => decide (i ≠ id)) }
  | publish {p : π} (event : ε) (htask : s.tasks p = BusTask.idle) :
      Stepped s (BusMove.publish p event)
        { s.setTask p (BusTask.publishing event s.subscribers) with readers := p :: s.readers }
  | deliver {p : π} {event : ε} {id : SubscriberId} {rest : List SubscriberId}
      (htask : s.tasks p = BusTask.publishing event (id :: rest)) :
      Stepped s (BusMove.deliver p)
        { s.setTask p (BusTask.publishing event rest) with
          received := Function.update s.received id (s.received id ++ [(p, event)]) }
  | finish {p : π} {event : ε} (htask : s.tasks p = BusTask.publishing event []) :
      Stepped s (BusMove.finish p)
        { s.setTask p BusTask.idle with readers := s.readers.erase p }

theorem stepped_of_step {s s' : EventBus π ε} {move : BusMove π ε} (h : s.step move = some s') :
    Stepped s move s' := by
  cases move with
  | takeNumber p =>
      simp only [step] at h
      split at h
      · rename_i htask hfree
        cases h
        exact Stepped.takeNumber htask hfree
      · cases h
  | addSubscriber p =>
      simp only [step] at h
      split at h
      · rename_i id htask hreaders
        cases h
        exact Stepped.addSubscriber htask hreaders
      · cases h
  | unsubscribe p id =>
      simp only [step] at h
      split at h
      · rename_i htask hreaders
        cases h
        exact Stepped.unsubscribe id hreaders
      · cases h
  | publish p event =>
      simp only [step] at h
      split at h
      · rename_i htask
        cases h
        exact Stepped.publish event htask
      · cases h
  | deliver p =>
      simp only [step] at h
      split at h
      · rename_i event id rest htask
        cases h
        exact Stepped.deliver htask
      · cases h
  | finish p =>
      simp only [step] at h
      split at h
      · rename_i event htask
        cases h
        exact Stepped.finish htask
      · cases h

/-- Only who takes a handle begins to subscribe. -/
theorem subscribing_of_setTask {s : EventBus π ε} {p q : π} {task : BusTask ε}
    {id : SubscriberId} (htask : task ≠ BusTask.subscribing id)
    (h : (s.setTask p task).tasks q = BusTask.subscribing id) :
    s.tasks q = BusTask.subscribing id := by
  rw [tasks_setTask] at h
  split at h
  · exact absurd h htask
  · exact h

/-- Without readers nobody is going through the list. -/
theorem Delivering.not_publishing {log : List (Publication π ε)} {s : EventBus π ε}
    (h : Delivering log s) (hreaders : s.readers = []) (p : π) (event : ε)
    (rest : List SubscriberId) : s.tasks p ≠ BusTask.publishing event rest := by
  intro htask
  have hmem := (h.reading p).mpr ⟨event, rest, htask⟩
  rw [hreaders] at hmem
  cases hmem

/-!
### Changes of the list
-/

theorem Registered.takeNumber {s : EventBus π ε} (h : Registered s) (p : π)
    (hfree : s.numbering = none) (hleft : s.nextId < s.nextId + 1) :
    Registered { s.setTask p (BusTask.subscribing s.nextId) with
      nextId := s.nextId + 1
      numbering := some p } where
  ascending := h.ascending
  numbered id hid := UInt64.lt_trans (h.numbered id hid) hleft
  subscribing q id hq := by
    have htask := (tasks_setTask s p q (BusTask.subscribing s.nextId)).symm.trans hq
    split at htask
    · rename_i heq
      cases htask
      exact ⟨congrArg some heq.symm, hleft, h.numbered⟩
    · have hheld := (h.subscribing q id htask).1
      rw [hfree] at hheld
      cases hheld

theorem Registered.addSubscriber {s : EventBus π ε} (h : Registered s) {p : π}
    {id : SubscriberId} (htask : s.tasks p = BusTask.subscribing id) :
    Registered { s.setTask p BusTask.idle with
      subscribers := s.subscribers ++ [id]
      numbering := none } where
  ascending := by
    rw [List.pairwise_append]
    refine ⟨h.ascending, List.pairwise_singleton _ _, ?_⟩
    intro a ha b hb
    rw [List.mem_singleton.mp hb]
    exact (h.subscribing p id htask).2.2 a ha
  numbered i hi := by
    rcases List.mem_append.mp hi with hold | hnew
    · exact h.numbered i hold
    · rw [List.mem_singleton.mp hnew]
      exact (h.subscribing p id htask).2.1
  subscribing q i hq := by
    have hother := (tasks_setTask s p q BusTask.idle).symm.trans hq
    split at hother
    · cases hother
    · rename_i hne
      -- the lock of the number has one holder
      have hheld := (h.subscribing q i hother).1
      rw [(h.subscribing p id htask).1] at hheld
      exact absurd (Option.some.inj hheld).symm hne

omit [DecidableEq π] in
theorem Registered.unsubscribe {s : EventBus π ε} (h : Registered s) (id : SubscriberId) :
    Registered { s with subscribers := s.subscribers.filter (fun i => decide (i ≠ id)) } where
  ascending := h.ascending.sublist List.filter_sublist
  numbered i hi := h.numbered i ((List.mem_filter.mp hi).1)
  subscribing p i hp :=
    ⟨(h.subscribing p i hp).1, (h.subscribing p i hp).2.1,
      fun j hj => (h.subscribing p i hp).2.2 j ((List.mem_filter.mp hj).1)⟩

omit [DecidableEq π] in
/-- Publishing does not change the list. -/
theorem Registered.congr {s s' : EventBus π ε} (h : Registered s)
    (hsubscribers : s'.subscribers = s.subscribers) (hnext : s'.nextId = s.nextId)
    (hnumbering : s'.numbering = s.numbering)
    (htasks : forall p id, s'.tasks p = BusTask.subscribing id ->
      s.tasks p = BusTask.subscribing id) : Registered s' where
  ascending := hsubscribers ▸ h.ascending
  numbered := by
    rw [hsubscribers, hnext]
    exact h.numbered
  subscribing p id hp := by
    rw [hsubscribers, hnext, hnumbering]
    exact h.subscribing p id (htasks p id hp)

/-!
### Deliveries
-/

omit [DecidableEq π] in
theorem pending_eq_nil {s : EventBus π ε} {p : π}
    (h : forall event rest, s.tasks p ≠ BusTask.publishing event rest) (id : SubscriberId) :
    s.pending p id = [] := by
  unfold pending
  split
  · rename_i event rest htask
    exact absurd htask (h event rest)
  · rfl

omit [DecidableEq π] in
theorem pending_publishing {s : EventBus π ε} {p : π} {event : ε} {rest : List SubscriberId}
    (h : s.tasks p = BusTask.publishing event rest) (id : SubscriberId) :
    s.pending p id = if id ∈ rest then [(p, event)] else [] := by
  unfold pending
  rw [h]

omit [DecidableEq π] in
theorem pending_congr {s s' : EventBus π ε} {p : π}
    (h : forall event rest, s'.tasks p = BusTask.publishing event rest <->
      s.tasks p = BusTask.publishing event rest) (id : SubscriberId) :
    s'.pending p id = s.pending p id := by
  by_cases hpub : exists event rest, s.tasks p = BusTask.publishing event rest
  · rcases hpub with ⟨event, rest, htask⟩
    rw [pending_publishing htask, pending_publishing ((h event rest).mpr htask)]
  · have hnone : forall event rest, s.tasks p ≠ BusTask.publishing event rest :=
      fun event rest htask => hpub ⟨event, rest, htask⟩
    rw [pending_eq_nil hnone,
      pending_eq_nil (fun event rest htask => hnone event rest ((h event rest).mp htask))]

/-- Changes of the list do not touch what is being delivered. -/
theorem Delivering.congr {log : List (Publication π ε)} {s s' : EventBus π ε}
    (h : Delivering log s) (hreaders : s'.readers = s.readers)
    (hreceived : s'.received = s.received)
    (htasks : forall p event rest, s'.tasks p = BusTask.publishing event rest <->
      s.tasks p = BusTask.publishing event rest)
    (hlist : s'.subscribers = s.subscribers ∨ s.readers = []) : Delivering log s' where
  reading p := by
    rw [hreaders, h.reading p]
    simp only [htasks]
  listed := hreaders ▸ h.listed
  remaining p event rest hp := by
    have hbefore := (htasks p event rest).mp hp
    rcases hlist with hsame | hnone
    · rw [hsame]
      exact h.remaining p event rest hbefore
    · exact absurd hbefore (h.not_publishing hnone p event rest)
  delivered p id := by
    have hheard : s'.heardOf p id = s.heardOf p id := by
      unfold heardOf
      rw [hreceived]
    rw [hheard, pending_congr (htasks p)]
    exact h.delivered p id

theorem publishing_setTask_iff {s : EventBus π ε} {p : π} {task : BusTask ε}
    (hbefore : forall event rest, s.tasks p ≠ BusTask.publishing event rest)
    (hafter : forall event rest, task ≠ BusTask.publishing event rest) (q : π) (event : ε)
    (rest : List SubscriberId) :
    (s.setTask p task).tasks q = BusTask.publishing event rest <->
      s.tasks q = BusTask.publishing event rest := by
  rw [tasks_setTask]
  split
  · rename_i heq
    rw [heq]
    exact ⟨fun h => absurd h (hafter event rest), fun h => absurd h (hbefore event rest)⟩
  · exact Iff.rfl

theorem heard_append (log : List (Publication π ε)) (x : Publication π ε) (p : π)
    (id : SubscriberId) :
    heard (log ++ [x]) p id = heard log p id ++
      if x.publisher = p ∧ id ∈ x.audience then [(x.publisher, x.event)] else [] := by
  unfold heard
  rw [List.filter_append, List.map_append, List.filter_cons, List.filter_nil, ← Bool.decide_and]
  by_cases hp : x.publisher = p ∧ id ∈ x.audience
  · rw [if_pos (decide_eq_true hp), if_pos hp]
    rfl
  · rw [if_neg (fun htrue => hp (of_decide_eq_true htrue)), if_neg hp]
    rfl

theorem Delivering.publish {log : List (Publication π ε)} {s : EventBus π ε}
    (h : Delivering log s) {p : π} (htask : s.tasks p = BusTask.idle) (event : ε) :
    Delivering (log ++ [{ publisher := p, event := event, audience := s.subscribers }])
      { s.setTask p (BusTask.publishing event s.subscribers) with
        readers := p :: s.readers } where
  reading q := by
    rw [List.mem_cons, h.reading q]
    show _ <-> exists event' rest, (s.setTask p _).tasks q = _
    rw [tasks_setTask]
    by_cases heq : q = p
    · rw [if_pos heq]
      exact ⟨fun _ => ⟨event, s.subscribers, rfl⟩, fun _ => Or.inl heq⟩
    · rw [if_neg heq]
      exact ⟨fun hor => hor.resolve_left heq, Or.inr⟩
  listed := by
    rw [List.nodup_cons]
    refine ⟨?_, h.listed⟩
    intro hmem
    rcases (h.reading p).mp hmem with ⟨event', rest, hpub⟩
    rw [htask] at hpub
    cases hpub
  remaining q event' rest hq := by
    have hnow := (tasks_setTask s p q (BusTask.publishing event s.subscribers)).symm.trans hq
    split at hnow
    · cases hnow
      exact List.suffix_refl _
    · exact h.remaining q event' rest hnow
  delivered q id := by
    rw [heard_append, ← h.delivered q id]
    show s.heardOf q id ++ _ = _
    by_cases heq : p = q
    · rw [← heq, pending_publishing (Function.update_self p _ s.tasks), pending_eq_nil]
      · rw [List.append_nil]
        by_cases hid : id ∈ s.subscribers
        · rw [if_pos hid, if_pos ⟨rfl, hid⟩]
        · rw [if_neg hid, if_neg (fun hboth => hid hboth.2)]
      · intro event' rest hpub
        rw [htask] at hpub
        cases hpub
    · rw [if_neg (fun hboth => heq hboth.1), List.append_nil, pending_congr]
      intro event' rest
      show (s.setTask p _).tasks q = _ <-> _
      rw [tasks_setTask, if_neg (fun hqp => heq hqp.symm)]

theorem Delivering.deliver {log : List (Publication π ε)} {s : EventBus π ε}
    (h : Delivering log s) (hregistered : Registered s) {p : π} {event : ε}
    {id : SubscriberId} {rest : List SubscriberId}
    (htask : s.tasks p = BusTask.publishing event (id :: rest)) :
    Delivering log { s.setTask p (BusTask.publishing event rest) with
      received := Function.update s.received id (s.received id ++ [(p, event)]) } where
  reading q := by
    refine (h.reading q).trans ?_
    show _ <-> exists event' rest', (s.setTask p _).tasks q = _
    rw [tasks_setTask]
    by_cases heq : q = p
    · rw [if_pos heq, heq, htask]
      exact ⟨fun _ => ⟨event, rest, rfl⟩, fun _ => ⟨event, id :: rest, rfl⟩⟩
    · rw [if_neg heq]
  listed := h.listed
  remaining q event' rest' hq := by
    have hnow := (tasks_setTask s p q (BusTask.publishing event rest)).symm.trans hq
    split at hnow
    · cases hnow
      exact (List.suffix_cons id rest).trans (h.remaining p event (id :: rest) htask)
    · exact h.remaining q event' rest' hnow
  delivered q i := by
    -- a handle is in the list once
    have hfresh : id ∉ rest := by
      have hascending := hregistered.ascending.sublist
        (h.remaining p event (id :: rest) htask).sublist
      intro hmem
      exact UInt64.lt_irrefl _ ((List.pairwise_cons.mp hascending).1 id hmem)
    have hreceived : (Function.update s.received id (s.received id ++ [(p, event)]) i).filter
        (fun x => decide (x.1 = q)) =
          s.heardOf q i ++ if i = id ∧ p = q then [(p, event)] else [] := by
      rw [Function.update_apply]
      unfold heardOf
      by_cases hi : i = id
      · rw [if_pos hi, List.filter_append, List.filter_cons, List.filter_nil, hi]
        by_cases hp : p = q
        · rw [if_pos (decide_eq_true hp), if_pos ⟨rfl, hp⟩]
        · rw [if_neg (fun htrue => hp (of_decide_eq_true htrue)),
            if_neg (fun hboth => hp hboth.2)]
      · rw [if_neg hi, if_neg (fun hboth => hi hboth.1), List.append_nil]
    rw [← h.delivered q i]
    show (Function.update s.received id _ i).filter _ ++ _ = _
    rw [hreceived, List.append_assoc]
    congr 1
    by_cases hp : p = q
    · rw [← hp, pending_publishing htask,
        pending_publishing (Function.update_self p _ s.tasks)]
      by_cases hi : i = id
      · rw [if_pos ⟨hi, rfl⟩, hi, if_neg hfresh, if_pos List.mem_cons_self]
        rfl
      · rw [if_neg (fun hboth => hi hboth.1)]
        simp only [List.mem_cons, hi, false_or, List.nil_append]
    · rw [if_neg (fun hboth => hp hboth.2), List.nil_append, pending_congr]
      intro event' rest'
      show (s.setTask p _).tasks q = _ <-> _
      rw [tasks_setTask, if_neg (fun hqp => hp hqp.symm)]

theorem Delivering.finish {log : List (Publication π ε)} {s : EventBus π ε}
    (h : Delivering log s) {p : π} {event : ε}
    (htask : s.tasks p = BusTask.publishing event []) :
    Delivering log { s.setTask p BusTask.idle with readers := s.readers.erase p } where
  reading q := by
    show q ∈ s.readers.erase p <-> exists event' rest, (s.setTask p _).tasks q = _
    rw [tasks_setTask, h.listed.mem_erase_iff, h.reading q]
    by_cases heq : q = p
    · rw [if_pos heq]
      exact ⟨fun hboth => absurd heq hboth.1, fun hexists => by
        rcases hexists with ⟨event', rest, hnone⟩
        cases hnone⟩
    · rw [if_neg heq]
      exact ⟨fun hboth => hboth.2, fun hexists => ⟨heq, hexists⟩⟩
  listed := h.listed.erase p
  remaining q event' rest hq := by
    have hnow := (tasks_setTask s p q BusTask.idle).symm.trans hq
    split at hnow
    · cases hnow
    · exact h.remaining q event' rest hnow
  delivered q id := by
    rw [← h.delivered q id]
    show s.heardOf q id ++ _ = _
    congr 1
    by_cases heq : q = p
    · rw [heq, pending_publishing htask, pending_eq_nil]
      · rfl
      · intro event' rest hpub
        have hidle : (s.setTask p BusTask.idle).tasks p = BusTask.publishing event' rest := hpub
        rw [tasks_setTask, if_pos rfl] at hidle
        cases hidle
    · rw [pending_congr]
      intro event' rest
      show (s.setTask p _).tasks q = _ <-> _
      rw [tasks_setTask, if_neg heq]

/-!
## Any interleaving
-/

/-- The number of the next subscriber counts the handles that were taken. -/
theorem nextId_reached {taken : Nat} {log : List (Publication π ε)} {s : EventBus π ε}
    (h : Reached taken log s) : s.nextId = UInt64.ofNat taken := by
  induction h with
  | new => rfl
  | @step taken log s s' move _ hstep ih =>
      cases stepped_of_step hstep with
      | takeNumber _ _ =>
          show s.nextId + 1 = UInt64.ofNat (taken + 1)
          rw [ih, UInt64.ofNat_add]
          rfl
      | _ => exact ih

theorem nextId_lt_succ {taken : Nat} {log : List (Publication π ε)} {s : EventBus π ε}
    {move : BusMove π ε} (h : Reached taken log s) (hfew : taken + move.handles < 2 ^ 64) (p : π)
    (hmove : move = BusMove.takeNumber p) : s.nextId < s.nextId + 1 := by
  rw [hmove] at hfew
  change taken + 1 < 2 ^ 64 at hfew
  rw [nextId_reached h, UInt64.lt_iff_toNat_lt, UInt64.toNat_add, UInt64.toNat_ofNat']
  show taken % 2 ^ 64 < (taken % 2 ^ 64 + 1) % 2 ^ 64
  omega

theorem step_sound {log : List (Publication π ε)} {s s' : EventBus π ε} {move : BusMove π ε}
    (hregistered : Registered s) (hdelivering : Delivering log s)
    (hleft : forall p, move = BusMove.takeNumber p -> s.nextId < s.nextId + 1)
    (h : s.step move = some s') :
    Registered s' ∧ Delivering (log ++ (s.publication? move).toList) s' := by
  have hquiet : log ++ (none : Option (Publication π ε)).toList = log := List.append_nil log
  cases stepped_of_step h with
  | takeNumber htask hfree =>
      refine ⟨hregistered.takeNumber _ hfree (hleft _ rfl), ?_⟩
      refine hquiet.symm ▸ hdelivering.congr rfl rfl ?_ (Or.inl rfl)
      exact publishing_setTask_iff (fun _ _ hpub => by rw [htask] at hpub; cases hpub)
        (fun _ _ hpub => by cases hpub)
  | addSubscriber htask hreaders =>
      refine ⟨hregistered.addSubscriber htask, ?_⟩
      refine hquiet.symm ▸ hdelivering.congr rfl rfl ?_ (Or.inr hreaders)
      exact publishing_setTask_iff (fun _ _ hpub => by rw [htask] at hpub; cases hpub)
        (fun _ _ hpub => by cases hpub)
  | unsubscribe id hreaders =>
      refine ⟨hregistered.unsubscribe id, ?_⟩
      exact hquiet.symm ▸ hdelivering.congr rfl rfl (fun _ _ _ => Iff.rfl) (Or.inr hreaders)
  | publish event htask =>
      refine ⟨hregistered.congr rfl rfl rfl ?_, hdelivering.publish htask event⟩
      exact fun q id hq => subscribing_of_setTask (fun heq => by cases heq) hq
  | deliver htask =>
      refine ⟨hregistered.congr rfl rfl rfl ?_, ?_⟩
      · exact fun q id hq => subscribing_of_setTask (fun heq => by cases heq) hq
      · exact hquiet.symm ▸ hdelivering.deliver hregistered htask
  | finish htask =>
      refine ⟨hregistered.congr rfl rfl rfl ?_, ?_⟩
      · exact fun q id hq => subscribing_of_setTask (fun heq => by cases heq) hq
      · exact hquiet.symm ▸ hdelivering.finish htask

theorem sound_reached {taken : Nat} {log : List (Publication π ε)} {s : EventBus π ε}
    (h : Reached taken log s) (hfew : taken < 2 ^ 64) : Registered s ∧ Delivering log s := by
  induction h with
  | new =>
      constructor
      · exact
          { ascending := List.Pairwise.nil
            numbered := fun _ h => by cases h
            subscribing := fun _ _ h => by cases h }
      · refine
          { reading := fun p => ⟨(fun h => by cases h), ?_⟩
            listed := List.nodup_nil
            remaining := fun _ _ _ h => by cases h
            delivered := fun _ _ => rfl }
        rintro ⟨event, rest, h⟩
        cases h
  | step move hreached hstep ih =>
      have hsound := ih (Nat.lt_of_le_of_lt (Nat.le_add_right _ _) hfew)
      exact step_sound hsound.1 hsound.2 (nextId_lt_succ hreached hfew) hstep

/-- A subscriber that is gone stays gone and is not called. -/
theorem Gone.step {log : List (Publication π ε)} {s s' : EventBus π ε} {move : BusMove π ε}
    {id : SubscriberId} (hgone : s.Gone id) (hdelivering : Delivering log s)
    (hleft : forall p, move = BusMove.takeNumber p -> s.nextId < s.nextId + 1)
    (h : s.step move = some s') : s'.Gone id ∧ s'.received id = s.received id := by
  rcases hgone with ⟨hnumber, hlist, htasks⟩
  have hset : forall (p : π) (task : BusTask ε), task ≠ BusTask.subscribing id -> forall q,
      (s.setTask p task).tasks q ≠ BusTask.subscribing id :=
    fun p task htask q hq => htasks q (subscribing_of_setTask htask hq)
  cases stepped_of_step h with
  | takeNumber _ _ =>
      refine ⟨⟨UInt64.lt_trans hnumber (hleft _ rfl), hlist, hset _ _ ?_⟩, rfl⟩
      intro heq
      cases heq
      exact UInt64.lt_irrefl _ hnumber
  | @addSubscriber p i htask _ =>
      refine ⟨⟨hnumber, ?_, hset _ _ (fun heq => by cases heq)⟩, rfl⟩
      intro hmem
      rcases List.mem_append.mp hmem with hold | hnew
      · exact hlist hold
      · rw [← List.mem_singleton.mp hnew] at htask
        exact htasks p htask
  | unsubscribe i _ =>
      exact ⟨⟨hnumber, fun hmem => hlist ((List.mem_filter.mp hmem).1), htasks⟩, rfl⟩
  | publish event _ => exact ⟨⟨hnumber, hlist, hset _ _ (fun heq => by cases heq)⟩, rfl⟩
  | @deliver p event i rest htask =>
      refine ⟨⟨hnumber, hlist, hset _ _ (fun heq => by cases heq)⟩, ?_⟩
      refine Function.update_of_ne ?_ _ _
      intro heq
      rw [heq] at hlist
      exact hlist ((hdelivering.remaining p event _ htask).subset List.mem_cons_self)
  | finish _ => exact ⟨⟨hnumber, hlist, hset _ _ (fun heq => by cases heq)⟩, rfl⟩

theorem Gone.run {taken : Nat} {log : List (Publication π ε)} {s s' : EventBus π ε}
    {id : SubscriberId} (hgone : s.Gone id) (hreached : Reached taken log s)
    {moves : List (BusMove π ε)} (hfew : taken + (moves.map BusMove.handles).sum < 2 ^ 64)
    (h : s.run moves = some s') : s'.received id = s.received id := by
  induction moves generalizing s log taken with
  | nil =>
      cases h
      rfl
  | cons move rest ih =>
      rw [List.map_cons, List.sum_cons, ← Nat.add_assoc] at hfew
      have hnow : taken + move.handles < 2 ^ 64 := Nat.lt_of_le_of_lt (Nat.le_add_right _ _) hfew
      rcases Option.bind_eq_some_iff.mp h with ⟨mid, hmid, hend⟩
      have hdelivering :=
        (sound_reached hreached (Nat.lt_of_le_of_lt (Nat.le_add_right _ _) hnow)).2
      rcases hgone.step hdelivering (nextId_lt_succ hreached hnow) hmid with ⟨hgone', hsame⟩
      exact (ih hgone' (Reached.step move hreached hmid) hfew hend).trans hsame

theorem gone_of_unsubscribe {s s' : EventBus π ε} (hregistered : Registered s) {p : π}
    {id : SubscriberId} (hid : id ∈ s.subscribers)
    (h : s.step (BusMove.unsubscribe p id) = some s') : s'.Gone id := by
  cases stepped_of_step h with
  | unsubscribe _ _ =>
      refine ⟨hregistered.numbered id hid, ?_, ?_⟩
      · intro hmem
        exact of_decide_eq_true (List.mem_filter.mp hmem).2 rfl
      · intro q hq
        exact UInt64.lt_irrefl _ ((hregistered.subscribing q id hq).2.2 id hid)

/-- Who has begun something can end it, or waits for somebody who can. -/
theorem somebody_moves {log : List (Publication π ε)} {s : EventBus π ε}
    (h : Delivering log s) {p : π} (hbusy : s.tasks p ≠ BusTask.idle) :
    exists q, s.tasks q ≠ BusTask.idle ∧
      ((s.step (BusMove.addSubscriber q)).isSome = true ∨
        (s.step (BusMove.deliver q)).isSome = true ∨
        (s.step (BusMove.finish q)).isSome = true) := by
  cases hreaders : s.readers with
  | nil =>
      cases htask : s.tasks p with
      | idle => exact absurd htask hbusy
      | subscribing id =>
          refine ⟨p, hbusy, Or.inl ?_⟩
          simp only [EventBus.step, htask, hreaders]
          rfl
      | publishing event rest => exact absurd htask (h.not_publishing hreaders p event rest)
  | cons q others =>
      have hreader : q ∈ s.readers := hreaders ▸ List.mem_cons_self
      rcases (h.reading q).mp hreader with ⟨event, rest, htask⟩
      have hbusy' : s.tasks q ≠ BusTask.idle := by
        rw [htask]
        exact fun heq => by cases heq
      cases rest with
      | nil =>
          refine ⟨q, hbusy', Or.inr (Or.inr ?_)⟩
          simp only [EventBus.step, htask]
          rfl
      | cons id rest =>
          refine ⟨q, hbusy', Or.inr (Or.inl ?_)⟩
          simp only [EventBus.step, htask]
          rfl

/-- However threads are interleaved, with fewer than 2^64 subscriptions: handles are given out
in order and once; each subscriber is called with the events of a thread in the order in which
they were published, once with each event that was published while it was subscribed and with no
other, up to what is still being delivered; after it was removed it is not called again; and the
locks never bring everything to a halt. -/
theorem subscribers_receive_publications {taken : Nat} {log : List (Publication π ε)}
    {s : EventBus π ε} (h : Reached taken log s) (hfew : taken < 2 ^ 64) :
    s.subscribers.Pairwise (fun a b => a < b) ∧
      s.nextId.toNat = taken ∧
      (forall p id, s.heardOf p id ++ s.pending p id = heard log p id) ∧
      (forall p id mid moves s', id ∈ s.subscribers ->
        s.step (BusMove.unsubscribe p id) = some mid -> mid.run moves = some s' ->
        taken + (moves.map BusMove.handles).sum < 2 ^ 64 ->
        s'.received id = s.received id) ∧
      forall p, s.tasks p ≠ BusTask.idle -> exists q, s.tasks q ≠ BusTask.idle ∧
        ((s.step (BusMove.addSubscriber q)).isSome = true ∨
          (s.step (BusMove.deliver q)).isSome = true ∨
          (s.step (BusMove.finish q)).isSome = true) := by
  rcases sound_reached h hfew with ⟨hregistered, hdelivering⟩
  refine ⟨hregistered.ascending, ?_, hdelivering.delivered, ?_,
    fun p hbusy => somebody_moves hdelivering hbusy⟩
  · rw [nextId_reached h]
    exact UInt64.toNat_ofNat_of_lt' hfew
  · intro p id mid moves s' hid hstep hrun hmore
    have hgone := gone_of_unsubscribe hregistered hid hstep
    have hkept : mid.received id = s.received id := by
      simp only [EventBus.step] at hstep
      split at hstep
      · cases hstep
        rfl
      · cases hstep
    exact (hgone.run (Reached.step _ h hstep) hmore hrun).trans hkept

end Histories

/-- Two threads publish at once to two subscribers. -/
def crossing : List (BusMove Nat String) :=
  [BusMove.takeNumber 0, BusMove.addSubscriber 0, BusMove.takeNumber 1, BusMove.addSubscriber 1,
    BusMove.publish 0 "created", BusMove.deliver 0, BusMove.publish 1 "deleted",
    BusMove.deliver 1, BusMove.deliver 1, BusMove.deliver 0, BusMove.finish 1]

theorem reached_run {π ε : Type} [DecidableEq π] {taken : Nat} {log : List (Publication π ε)}
    {s s' : EventBus π ε} (h : Reached taken log s) {moves : List (BusMove π ε)}
    (hrun : s.run moves = some s') :
    exists log', Reached (taken + (moves.map BusMove.handles).sum) (log ++ log') s' := by
  induction moves generalizing s log taken with
  | nil =>
      cases hrun
      exact ⟨[], by rw [List.append_nil]; exact h⟩
  | cons move rest ih =>
      rcases Option.bind_eq_some_iff.mp hrun with ⟨mid, hmid, hend⟩
      rcases ih (Reached.step move h hmid) hend with ⟨log', hlog⟩
      rw [List.map_cons, List.sum_cons, ← Nat.add_assoc]
      exact ⟨_, List.append_assoc _ _ _ ▸ hlog⟩

theorem subscribers_receive_publications_crossing :
    ((EventBus.new : EventBus Nat String).run crossing).map
        (fun s => (s.received 0, s.received 1)) =
      some ([(0, "created"), (1, "deleted")], [(1, "deleted"), (0, "created")]) ∧
      exists log s, Reached 2 log s ∧ (EventBus.new : EventBus Nat String).run crossing = some s ∧
        s.heardOf 0 1 ++ s.pending 0 1 = heard log 0 1 := by
  refine ⟨by decide, ?_⟩
  have hends : ((EventBus.new : EventBus Nat String).run crossing).isSome = true := by decide
  rcases Option.isSome_iff_exists.mp hends with ⟨s, hs⟩
  rcases reached_run Reached.new hs with ⟨log, hreached⟩
  exact ⟨_, s, hreached, hs,
    (subscribers_receive_publications hreached (by decide)).2.2.1 0 1⟩

end EventBus
end Core
end MenteDb
