import Mathlib.Data.List.Infix
import MenteDb.Foundation.Machines

/-!
# A relay behind a bounded channel

A task reads inputs one after the other and answers each with some outputs, which it pushes into a
channel of bounded length.  It waits while the channel is full.  The inputs end when the sender
closes its half, or break off with whatever has arrived by then.  The reader may leave at any time.

The parties move in any order.
-/

namespace Foundation

/-- What the inputs still have to come. -/
inductive Source where
  | flowing
  | closed
  | broken
deriving DecidableEq, Repr

/-- What the task of a relay does; it may have outputs left that are not in the channel yet. -/
inductive RelayTask (σ ο : Type) where
  | working (state : σ) (unsent : List ο)
  | finished
deriving DecidableEq, Repr

/-- The last three fields only record what happened, in the order in which it did. -/
structure Relay (σ ι ο : Type) where
  inbound : List ι
  source : Source
  task : RelayTask σ ο
  channel : List ο
  reading : Bool
  sent : List ι
  taken : List ι
  received : List ο
deriving DecidableEq, Repr

/-- A move of the sender, of the task, or of the reader. -/
inductive RelayMove (ι : Type) where
  | send (input : ι)
  | close
  /-- The connection is lost, and only the first of the inputs on their way arrive. -/
  | lose (arriving : Nat)
  | take
  | push
  | stop
  | read
  | leave
deriving DecidableEq, Repr

/-- The moves that bring outputs to the reader. -/
def RelayMove.isInternal {ι : Type} : RelayMove ι -> Bool
  | take => true
  | push => true
  | stop => true
  | read => true
  | _ => false

namespace RelayTask

variable {σ ι ο : Type}

def unsent : RelayTask σ ο -> List ο
  | working _ outputs => outputs
  | finished => []

/-- The moves of the task and the reader that are left to do for some inputs. -/
def load (m : Machine σ ι ο) (inbound : List ι) : RelayTask σ ο -> Nat
  | working s outputs =>
      1 + inbound.length + 2 * (outputs.length + (m.answers s inbound).length)
  | finished => 0

end RelayTask

namespace Relay

variable {σ ι ο : Type}

def opened (start : σ) : Relay σ ι ο where
  inbound := []
  source := Source.flowing
  task := RelayTask.working start []
  channel := []
  reading := true
  sent := []
  taken := []
  received := []

section Moves

variable (capacity : Nat) (m : Machine σ ι ο)

/-- None stands for a move that its party cannot make now. -/
def step (r : Relay σ ι ο) : RelayMove ι -> Option (Relay σ ι ο)
  | RelayMove.send x =>
      if r.source = Source.flowing then
        some { r with inbound := r.inbound ++ [x], sent := r.sent ++ [x] }
      else none
  | RelayMove.close =>
      if r.source = Source.flowing then some { r with source := Source.closed } else none
  | RelayMove.lose arriving =>
      if r.source = Source.broken then none
      else some { r with source := Source.broken, inbound := r.inbound.take arriving }
  | RelayMove.take =>
      match r.task, r.inbound with
      | RelayTask.working s [], x :: rest =>
          some { r with
            inbound := rest
            task := RelayTask.working (m.next s x) (m.answer s x)
            taken := r.taken ++ [x] }
      | _, _ => none
  | RelayMove.push =>
      match r.task with
      | RelayTask.working s (o :: rest) =>
          if r.reading = true then
            if r.channel.length < capacity then
              some { r with task := RelayTask.working s rest, channel := r.channel ++ [o] }
            else none
          else some { r with task := RelayTask.finished }
      | _ => none
  | RelayMove.stop =>
      match r.task, r.inbound with
      | RelayTask.working _ [], [] =>
          if r.source = Source.flowing then none else some { r with task := RelayTask.finished }
      | _, _ => none
  | RelayMove.read =>
      match r.channel with
      | o :: rest => some { r with channel := rest, received := r.received ++ [o] }
      | [] => none
  | RelayMove.leave =>
      if r.reading = true then some { r with reading := false, channel := [] } else none

def run (r : Relay σ ι ο) (moves : List (RelayMove ι)) : Option (Relay σ ι ο) :=
  moves.foldlM (step capacity m) r

/-- The moves as a relation, one constructor for each of their outcomes. -/
inductive Steps (r : Relay σ ι ο) : RelayMove ι -> Relay σ ι ο -> Prop where
  | send (x : ι) : r.source = Source.flowing ->
      Steps r (RelayMove.send x) { r with inbound := r.inbound ++ [x], sent := r.sent ++ [x] }
  | close : r.source = Source.flowing ->
      Steps r RelayMove.close { r with source := Source.closed }
  | lose (arriving : Nat) : r.source ≠ Source.broken ->
      Steps r (RelayMove.lose arriving)
        { r with source := Source.broken, inbound := r.inbound.take arriving }
  | take (s : σ) (x : ι) (rest : List ι) : r.task = RelayTask.working s [] ->
      r.inbound = x :: rest ->
      Steps r RelayMove.take
        { r with
          inbound := rest
          task := RelayTask.working (m.next s x) (m.answer s x)
          taken := r.taken ++ [x] }
  | push (s : σ) (o : ο) (rest : List ο) : r.task = RelayTask.working s (o :: rest) ->
      r.reading = true -> r.channel.length < capacity ->
      Steps r RelayMove.push
        { r with task := RelayTask.working s rest, channel := r.channel ++ [o] }
  | giveUp (s : σ) (o : ο) (rest : List ο) : r.task = RelayTask.working s (o :: rest) ->
      r.reading = false -> Steps r RelayMove.push { r with task := RelayTask.finished }
  | stop (s : σ) : r.task = RelayTask.working s [] -> r.inbound = [] ->
      r.source ≠ Source.flowing -> Steps r RelayMove.stop { r with task := RelayTask.finished }
  | read (o : ο) (rest : List ο) : r.channel = o :: rest ->
      Steps r RelayMove.read { r with channel := rest, received := r.received ++ [o] }
  | leave : r.reading = true ->
      Steps r RelayMove.leave { r with reading := false, channel := [] }

variable {capacity m}

theorem steps_of_step {r r' : Relay σ ι ο} {move : RelayMove ι}
    (h : r.step capacity m move = some r') : Steps capacity m r move r' := by
  cases move with
  | send x =>
      rcases Option.ite_none_right_eq_some.mp h with ⟨hflowing, heq⟩
      cases heq
      exact Steps.send x hflowing
  | close =>
      rcases Option.ite_none_right_eq_some.mp h with ⟨hflowing, heq⟩
      cases heq
      exact Steps.close hflowing
  | lose arriving =>
      rcases Option.ite_none_left_eq_some.mp h with ⟨hwhole, heq⟩
      cases heq
      exact Steps.lose arriving hwhole
  | take =>
      simp only [step] at h
      split at h
      · rename_i s x rest htask hinbound
        cases h
        exact Steps.take s x rest htask hinbound
      · cases h
  | push =>
      simp only [step] at h
      split at h
      · rename_i s o rest htask
        split at h
        · rename_i hreading
          rcases Option.ite_none_right_eq_some.mp h with ⟨hroom, heq⟩
          cases heq
          exact Steps.push s o rest htask hreading hroom
        · rename_i hreading
          cases h
          exact Steps.giveUp s o rest htask (Bool.eq_false_iff.mpr hreading)
      · cases h
  | stop =>
      simp only [step] at h
      split at h
      · rename_i s htask hinbound
        rcases Option.ite_none_left_eq_some.mp h with ⟨hdone, heq⟩
        cases heq
        exact Steps.stop s htask hinbound hdone
      · cases h
  | read =>
      simp only [step] at h
      split at h
      · rename_i o rest hchannel
        cases h
        exact Steps.read o rest hchannel
      · cases h
  | leave =>
      rcases Option.ite_none_right_eq_some.mp h with ⟨hreading, heq⟩
      cases heq
      exact Steps.leave hreading

/-- A property that every move keeps holds after all of them. -/
theorem run_invariant {I : Relay σ ι ο -> Prop}
    (hstep : forall r r' move, I r -> r.step capacity m move = some r' -> I r')
    {moves : List (RelayMove ι)} {r r' : Relay σ ι ο} (hr : I r)
    (hrun : r.run capacity m moves = some r') : I r' := by
  induction moves generalizing r with
  | nil =>
      cases hrun
      exact hr
  | cons move rest ih =>
      rcases Option.bind_eq_some_iff.mp hrun with ⟨mid, hmid, hend⟩
      exact ih (hstep r mid move hr hmid) hend

end Moves

/-!
## Safety
-/

/-- What was taken is what arrived of what was sent, and its answers are with the reader, in the
channel or with the task, in order. -/
structure Sound (capacity : Nat) (m : Machine σ ι ο) (start : σ) (r : Relay σ ι ο) : Prop where
  room : r.channel.length <= capacity
  arrived : r.taken ++ r.inbound <+: r.sent
  whole : r.source ≠ Source.broken -> r.taken ++ r.inbound = r.sent
  state : forall s outputs, r.task = RelayTask.working s outputs -> s = m.after start r.taken
  relayed : r.reading = true ->
    r.received ++ r.channel ++ r.task.unsent = m.answers start r.taken
  received : r.received <+: m.answers start r.taken
  gone : r.reading = false -> r.channel = []
  finished : r.task = RelayTask.finished -> r.reading = true ->
    r.inbound = [] ∧ r.source ≠ Source.flowing

variable {capacity : Nat} {m : Machine σ ι ο} {start : σ}

theorem sound_opened (capacity : Nat) (m : Machine σ ι ο) (start : σ) :
    (opened start : Relay σ ι ο).Sound capacity m start where
  room := Nat.zero_le capacity
  arrived := List.prefix_rfl
  whole := fun _ => rfl
  state := by
    intro s outputs h
    cases h
    rfl
  relayed := fun _ => rfl
  received := List.prefix_rfl
  gone := fun _ => rfl
  finished := by
    intro h
    cases h

theorem Sound.step {r r' : Relay σ ι ο} {move : RelayMove ι} (hr : r.Sound capacity m start)
    (h : r.step capacity m move = some r') : r'.Sound capacity m start := by
  cases steps_of_step h with
  | send x hflowing =>
      have hwhole := hr.whole (by rw [hflowing]; exact nofun)
      have hsent : r.taken ++ (r.inbound ++ [x]) = r.sent ++ [x] := by
        rw [← List.append_assoc, hwhole]
      refine { hr with arrived := ?_, whole := fun _ => hsent, finished := ?_ }
      · show r.taken ++ (r.inbound ++ [x]) <+: r.sent ++ [x]
        rw [hsent]
      · intro hfinished hreading
        exact absurd hflowing (hr.finished hfinished hreading).2
  | close hflowing =>
      refine { hr with whole := fun _ => hr.whole ?_, finished := ?_ }
      · rw [hflowing]
        exact nofun
      · intro hfinished hreading
        exact absurd hflowing (hr.finished hfinished hreading).2
  | lose arriving hsource =>
      refine { hr with arrived := ?_, whole := fun hbroken => absurd rfl hbroken, finished := ?_ }
      · exact ((List.prefix_append_right_inj r.taken).mpr
          (List.take_prefix arriving r.inbound)).trans hr.arrived
      · intro hfinished hreading
        refine ⟨?_, nofun⟩
        show r.inbound.take arriving = []
        rw [(hr.finished hfinished hreading).1, List.take_nil]
  | take s x rest htask hinbound =>
      have hstate := hr.state s [] htask
      have hsplit : r.taken ++ [x] ++ rest = r.taken ++ r.inbound := by
        rw [hinbound, List.append_assoc]
        rfl
      have hanswers : m.answers start (r.taken ++ [x]) =
          m.answers start r.taken ++ m.answer s x := by
        rw [m.answers_concat, hstate]
      refine ⟨hr.room, ?_, ?_, ?_, ?_, ?_, hr.gone, nofun⟩
      · show r.taken ++ [x] ++ rest <+: r.sent
        rw [hsplit]
        exact hr.arrived
      · intro hsource
        exact hsplit.trans (hr.whole hsource)
      · intro s' outputs heq
        cases heq
        show m.next s x = m.after start (r.taken ++ [x])
        rw [m.after_concat, hstate]
      · intro hreading
        have hrelayed := hr.relayed hreading
        rw [htask] at hrelayed
        show r.received ++ r.channel ++ m.answer s x = m.answers start (r.taken ++ [x])
        rw [hanswers, ← hrelayed]
        exact congrArg (fun l => l ++ m.answer s x) (List.append_nil _).symm
      · show r.received <+: m.answers start (r.taken ++ [x])
        rw [hanswers]
        exact hr.received.trans (List.prefix_append _ _)
  | push s o rest htask hreading hroom =>
      refine { hr with room := ?_, state := ?_, relayed := ?_, gone := ?_, finished := nofun }
      · show (r.channel ++ [o]).length <= capacity
        rw [List.length_append]
        exact hroom
      · intro s' outputs heq
        cases heq
        exact hr.state s (o :: rest) htask
      · intro _
        have hrelayed := hr.relayed hreading
        rw [htask] at hrelayed
        rw [← hrelayed]
        show r.received ++ (r.channel ++ [o]) ++ rest = r.received ++ r.channel ++ o :: rest
        rw [← List.append_assoc, List.append_assoc, List.singleton_append]
      · intro hgone
        rw [hreading] at hgone
        cases hgone
  | giveUp s o rest htask hreading =>
      refine { hr with state := nofun, relayed := ?_, finished := ?_ }
      · intro hstill
        rw [hreading] at hstill
        cases hstill
      · intro _ hstill
        rw [hreading] at hstill
        cases hstill
  | stop s htask hinbound hsource =>
      refine { hr with state := nofun, relayed := ?_, finished := fun _ _ => ⟨hinbound, hsource⟩ }
      intro hreading
      have hrelayed := hr.relayed hreading
      rw [htask] at hrelayed
      exact hrelayed
  | read o rest hchannel =>
      have hmoved : r.received ++ [o] ++ rest = r.received ++ r.channel := by
        rw [hchannel, List.append_assoc]
        rfl
      have hreading : r.reading = true := by
        cases hcase : r.reading with
        | true => rfl
        | false =>
            have hempty := hr.gone hcase
            rw [hchannel] at hempty
            cases hempty
      have hrelayed : r.received ++ [o] ++ rest ++ r.task.unsent = m.answers start r.taken := by
        rw [hmoved]
        exact hr.relayed hreading
      refine { hr with room := ?_, relayed := fun _ => hrelayed, received := ?_, gone := ?_ }
      · have hroom := hr.room
        rw [hchannel, List.length_cons] at hroom
        exact (Nat.le_succ rest.length).trans hroom
      · show r.received ++ [o] <+: m.answers start r.taken
        rw [← hrelayed, List.append_assoc (r.received ++ [o])]
        exact List.prefix_append _ _
      · intro hgone
        rw [hreading] at hgone
        cases hgone
  | leave hreading =>
      exact { hr with
        room := Nat.zero_le capacity
        relayed := nofun
        gone := fun _ => rfl
        finished := nofun }

theorem Sound.run {moves : List (RelayMove ι)} {r r' : Relay σ ι ο}
    (hr : r.Sound capacity m start) (hrun : r.run capacity m moves = some r') :
    r'.Sound capacity m start :=
  run_invariant (fun _ _ _ hs hstep => hs.step hstep) hr hrun

/-!
## Progress
-/

/-- The moves of the task and the reader that are left to do. -/
def load (m : Machine σ ι ο) (r : Relay σ ι ο) : Nat := r.task.load m r.inbound + r.channel.length

theorem load_step {r r' : Relay σ ι ο} {move : RelayMove ι}
    (hinternal : move.isInternal = true) (h : r.step capacity m move = some r') :
    r'.load m < r.load m := by
  cases steps_of_step h with
  | send x hflowing => cases hinternal
  | close hflowing => cases hinternal
  | lose arriving hsource => cases hinternal
  | take s x rest htask hinbound =>
      unfold load
      rw [htask, hinbound]
      simp only [RelayTask.load, Machine.answers, List.length_append, List.length_cons,
        List.length_nil]
      omega
  | push s o rest htask hreading hroom =>
      unfold load
      rw [htask]
      simp only [RelayTask.load, List.length_append, List.length_cons, List.length_nil]
      omega
  | giveUp s o rest htask hreading =>
      unfold load
      rw [htask]
      simp only [RelayTask.load]
      omega
  | stop s htask hinbound hsource =>
      unfold load
      rw [htask]
      simp only [RelayTask.load]
      omega
  | read o rest hchannel =>
      unfold load
      rw [hchannel, List.length_cons]
      exact Nat.lt_succ_self _
  | leave hreading => cases hinternal

/-- The task and the reader cannot move for ever. -/
theorem length_le_load {moves : List (RelayMove ι)} {r r' : Relay σ ι ο}
    (hinternal : forall move, move ∈ moves -> move.isInternal = true)
    (hrun : r.run capacity m moves = some r') : moves.length <= r.load m := by
  induction moves generalizing r with
  | nil => exact Nat.zero_le _
  | cons move rest ih =>
      rcases Option.bind_eq_some_iff.mp hrun with ⟨mid, hmid, hend⟩
      have hfirst := load_step (hinternal move List.mem_cons_self) hmid
      have hrest := ih (fun a ha => hinternal a (List.mem_cons_of_mem move ha)) hend
      rw [List.length_cons]
      omega

/-- Neither the task nor the reader can move. -/
def AtRest (capacity : Nat) (m : Machine σ ι ο) (r : Relay σ ι ο) : Prop :=
  forall move : RelayMove ι, move.isInternal = true -> r.step capacity m move = none

/-- When nothing can move and there is room for one output, the reader has everything, and the
task is over exactly if no more inputs come. -/
theorem Sound.delivered {r : Relay σ ι ο} (hr : r.Sound capacity m start) (hcapacity : 0 < capacity)
    (hrest : r.AtRest capacity m) (hreading : r.reading = true) :
    r.received = m.answers start r.taken ∧ r.inbound = [] ∧
      (r.task = RelayTask.finished <-> r.source ≠ Source.flowing) := by
  have hchannel : r.channel = [] := by
    have hread := hrest RelayMove.read rfl
    cases hcase : r.channel with
    | nil => rfl
    | cons o rest =>
        simp only [Relay.step, hcase] at hread
        cases hread
  have hrelayed := hr.relayed hreading
  rw [hchannel, List.append_nil] at hrelayed
  cases htask : r.task with
  | finished =>
      rw [htask] at hrelayed
      have hfinished := hr.finished htask hreading
      refine ⟨?_, hfinished.1, fun _ => hfinished.2, fun _ => rfl⟩
      rw [← hrelayed]
      exact (List.append_nil _).symm
  | working s outputs =>
      have hunsent : outputs = [] := by
        have hpush := hrest RelayMove.push rfl
        cases outputs with
        | nil => rfl
        | cons o rest =>
            simp only [Relay.step, htask, hchannel, List.length_nil, if_pos hreading,
              if_pos hcapacity] at hpush
            cases hpush
      rw [hunsent] at htask
      have hinbound : r.inbound = [] := by
        have htake := hrest RelayMove.take rfl
        cases hcase : r.inbound with
        | nil => rfl
        | cons x rest =>
            simp only [Relay.step, htask, hcase] at htake
            cases htake
      have hflowing : r.source = Source.flowing := by
        have hstop := hrest RelayMove.stop rfl
        by_contra hdone
        simp only [Relay.step, htask, hinbound, if_neg hdone] at hstop
        cases hstop
      rw [htask] at hrelayed
      refine ⟨?_, hinbound, ?_, fun hdone => absurd hflowing hdone⟩
      · rw [← hrelayed]
        exact (List.append_nil _).symm
      · intro hfinished
        cases hfinished

end Relay

end Foundation
