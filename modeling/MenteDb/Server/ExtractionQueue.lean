import MenteDb.Cognitive.Stream
import MenteDb.Foundation.WorkerPool

/-!
# The extraction queue

Memories that look like conversations are handed to a worker behind a bounded channel.  The
worker starts one task for each, as long as a permit is free.  The channel is open while the
shared state of the application is referenced: by the main task while it serves, and by the
servers, the requests and the open sockets.  At shutdown the main task drops its reference and
waits for the worker, but not for longer than its patience lasts.
-/

namespace MenteDb
namespace Server

open Foundation
open Cognitive

variable {F : Type}

def queueCapacity : Nat := 64
def maxConcurrent : Nat := 4

structure ExtractionRequest where
  content : String
  sourceMemoryId : MemoryId
  agentId : AgentId
  spaceId : SpaceId
deriving DecidableEq

def conversationPatterns : List String :=
  ["user:", "assistant:", "human:", "ai:", "\nq:", "\na:"]

def looksLikeConversation (text : TextOps F) (content : String) : Bool :=
  let lower := text.toLowercase content
  decide (2 <= (conversationPatterns.filter (fun p => containsText lower p)).length)

def requestOf (node : MemoryNode F) : ExtractionRequest where
  content := node.content
  sourceMemoryId := node.id
  agentId := node.agentId
  spaceId := node.spaceId

/-- What the handler that stored a memory sends. -/
def requestFor (text : TextOps F) (node : MemoryNode F) : Option ExtractionRequest :=
  if looksLikeConversation text node.content then some (requestOf node) else none

inductive MainTask where
  | serving
  | joining
  /-- The database is closed, after the worker ended or without waiting for it any longer. -/
  | closed (drained : Bool)
deriving DecidableEq, Repr

structure ExtractionServer where
  main : MainTask
  pool : Pool ExtractionRequest
deriving DecidableEq

inductive ServerMove (F : Type) where
  /-- Another reference to the shared state. -/
  | share
  | release
  | stored (node : MemoryNode F)
  | receive
  | start
  | complete (task : Nat)
  | finish
  /-- The servers have stopped, and the main task drops its reference. -/
  | stop
  | join
  | timeout

namespace ExtractionServer

def spawned : ExtractionServer where
  main := MainTask.serving
  pool := Pool.opened 1

/-- References of others than the main task. -/
def others (s : ExtractionServer) : Nat :=
  match s.main with
  | MainTask.serving => s.pool.holders - 1
  | _ => s.pool.holders

/-- A move of the pool, until the process ends. -/
def onPool (s : ExtractionServer) (move : PoolMove ExtractionRequest) : Option ExtractionServer :=
  match s.main with
  | MainTask.closed _ => none
  | _ => (s.pool.step queueCapacity maxConcurrent move).map (fun pool => { s with pool := pool })

def step (text : TextOps F) (s : ExtractionServer) : ServerMove F -> Option ExtractionServer
  | ServerMove.share => s.onPool PoolMove.share
  | ServerMove.release => if 0 < s.others then s.onPool PoolMove.release else none
  | ServerMove.stored node =>
      if 0 < s.others then
        match requestFor text node with
        | some request => s.onPool (PoolMove.trySend request)
        | none => some s
      else none
  | ServerMove.receive => s.onPool PoolMove.receive
  | ServerMove.start => s.onPool PoolMove.start
  | ServerMove.complete task => s.onPool (PoolMove.complete task)
  | ServerMove.finish => s.onPool PoolMove.finish
  | ServerMove.stop =>
      match s.main with
      | MainTask.serving =>
          (s.onPool PoolMove.release).map (fun s' => { s' with main := MainTask.joining })
      | _ => none
  | ServerMove.join =>
      if s.main = MainTask.joining ∧ s.pool.dispatcher = Dispatcher.finished then
        some { s with main := MainTask.closed true }
      else none
  | ServerMove.timeout =>
      if s.main = MainTask.joining then some { s with main := MainTask.closed false } else none

def run (text : TextOps F) (s : ExtractionServer) (moves : List (ServerMove F)) :
    Option ExtractionServer :=
  moves.foldlM (step text) s

/-!
## The moves as moves of the pool
-/

theorem onPool_eq_some {s s' : ExtractionServer} {move : PoolMove ExtractionRequest}
    (h : s.onPool move = some s') :
    (forall drained, s.main ≠ MainTask.closed drained) ∧ s'.main = s.main ∧
      s.pool.step queueCapacity maxConcurrent move = some s'.pool := by
  unfold onPool at h
  split at h
  · cases h
  · rename_i hopen
    rcases Option.map_eq_some_iff.mp h with ⟨pool, hpool, heq⟩
    subst heq
    exact ⟨hopen, rfl, hpool⟩

theorem onPool_of_open {s : ExtractionServer}
    (hopen : forall drained, s.main ≠ MainTask.closed drained)
    (move : PoolMove ExtractionRequest) :
    s.onPool move =
      (s.pool.step queueCapacity maxConcurrent move).map (fun pool => { s with pool := pool }) := by
  unfold onPool
  split
  · rename_i drained hmain
    exact absurd hmain (hopen drained)
  · rfl

/-!
## The invariant of a run
-/

/-- The main task holds its reference while it serves, and waits for the end of the worker. -/
structure Sound (s : ExtractionServer) : Prop where
  pool : s.pool.Sound queueCapacity maxConcurrent
  held : s.main = MainTask.serving -> 0 < s.pool.holders
  drained : s.main = MainTask.closed true -> s.pool.dispatcher = Dispatcher.finished

theorem sound_spawned : spawned.Sound where
  pool := Pool.sound_opened queueCapacity maxConcurrent 1
  held := fun _ => Nat.one_pos
  drained := by
    intro h
    cases h

theorem Sound.onPool {s s' : ExtractionServer} {move : PoolMove ExtractionRequest}
    (hs : s.Sound) (hmove : move = PoolMove.release -> 0 < s.others)
    (h : s.onPool move = some s') : s'.Sound := by
  rcases onPool_eq_some h with ⟨hopen, hmain, hpool⟩
  refine ⟨hs.pool.step hpool, ?_, ?_⟩
  · intro hserving
    rw [hmain] at hserving
    by_cases hrelease : move = PoolMove.release
    · have hothers := hmove hrelease
      rw [hrelease] at hpool
      rcases Option.ite_none_right_eq_some.mp hpool with ⟨-, heq⟩
      unfold others at hothers
      rw [hserving] at hothers
      have hholders := congrArg Pool.holders (Option.some.inj heq)
      change s.pool.holders - 1 = s'.pool.holders at hholders
      change 0 < s.pool.holders - 1 at hothers
      omega
    · exact Nat.lt_of_lt_of_le (hs.held hserving)
        (Pool.holders_step hrelease hpool)
  · intro hclosed
    rw [hmain] at hclosed
    exact absurd hclosed (hopen true)

theorem Sound.step {text : TextOps F} {s s' : ExtractionServer} {move : ServerMove F}
    (hs : s.Sound) (h : s.step text move = some s') : s'.Sound := by
  have hother : forall m : PoolMove ExtractionRequest, m ≠ PoolMove.release ->
      s.onPool m = some s' -> s'.Sound :=
    fun m hm hpool => hs.onPool (fun hrelease => absurd hrelease hm) hpool
  cases move with
  | share => exact hother PoolMove.share nofun h
  | release =>
      rcases Option.ite_none_right_eq_some.mp h with ⟨hothers, hpool⟩
      exact hs.onPool (fun _ => hothers) hpool
  | stored node =>
      rcases Option.ite_none_right_eq_some.mp h with ⟨-, hsend⟩
      split at hsend
      · rename_i request hrequest
        exact hother (PoolMove.trySend request) nofun hsend
      · cases hsend
        exact hs
  | receive => exact hother PoolMove.receive nofun h
  | start => exact hother PoolMove.start nofun h
  | complete task => exact hother (PoolMove.complete task) nofun h
  | finish => exact hother PoolMove.finish nofun h
  | stop =>
      simp only [ExtractionServer.step] at h
      split at h
      · rcases Option.map_eq_some_iff.mp h with ⟨mid, hmid, heq⟩
        subst heq
        refine ⟨hs.pool.step (onPool_eq_some hmid).2.2, ?_, ?_⟩
        · intro hserving
          cases hserving
        · intro hclosed
          cases hclosed
      · cases h
  | join =>
      rcases Option.ite_none_right_eq_some.mp h with ⟨⟨-, hfinished⟩, heq⟩
      cases heq
      refine ⟨hs.pool, ?_, fun _ => hfinished⟩
      intro hserving
      cases hserving
  | timeout =>
      rcases Option.ite_none_right_eq_some.mp h with ⟨-, heq⟩
      cases heq
      refine ⟨hs.pool, ?_, ?_⟩
      · intro hserving
        cases hserving
      · intro hclosed
        cases hclosed

theorem run_invariant {text : TextOps F} {I : ExtractionServer -> Prop}
    (hstep : forall s s' move, I s -> s.step text move = some s' -> I s')
    {moves : List (ServerMove F)} {s s' : ExtractionServer} (hs : I s)
    (hrun : s.run text moves = some s') : I s' := by
  induction moves generalizing s with
  | nil =>
      cases hrun
      exact hs
  | cons move rest ih =>
      rcases Option.bind_eq_some_iff.mp hrun with ⟨mid, hmid, hend⟩
      exact ih (hstep s mid move hs hmid) hend

theorem Sound.run {text : TextOps F} {moves : List (ServerMove F)} {s s' : ExtractionServer}
    (hs : s.Sound) (hrun : s.run text moves = some s') : s'.Sound :=
  run_invariant (fun _ _ _ hkeep hstep => hkeep.step hstep) hs hrun

/-!
## No request is lost or repeated
-/

/-- The requests of the conversations among the stored memories, in order. -/
def sent (text : TextOps F) (moves : List (ServerMove F)) : List ExtractionRequest :=
  moves.filterMap (fun move =>
    match move with
    | ServerMove.stored node => requestFor text node
    | _ => none)

/-- What a move adds to the accepted requests. -/
def newlyAccepted (text : TextOps F) (s : ExtractionServer) :
    ServerMove F -> List ExtractionRequest
  | ServerMove.stored node =>
      if looksLikeConversation text node.content ∧ s.pool.queue.length < queueCapacity then
        [requestOf node]
      else []
  | _ => []

theorem accepted_onPool {s t : ExtractionServer} {m : PoolMove ExtractionRequest}
    (hmove : forall request, m ≠ PoolMove.trySend request) (h : s.onPool m = some t) :
    t.pool.accepted = s.pool.accepted ++ [] := by
  rw [List.append_nil]
  rcases Pool.accepted_step (onPool_eq_some h).2.2 with heq | ⟨request, hsend, -⟩
  · exact heq
  · exact absurd hsend (hmove request)

/-- A request is accepted when there is room in the queue. -/
theorem accepted_trySend {s t : ExtractionServer} {request : ExtractionRequest}
    (h : s.onPool (PoolMove.trySend request) = some t) :
    t.pool.accepted =
      s.pool.accepted ++ (if s.pool.queue.length < queueCapacity then [request] else []) := by
  rcases onPool_eq_some h with ⟨-, -, hpool⟩
  rcases Option.ite_none_right_eq_some.mp hpool with ⟨-, hqueue⟩
  by_cases hroom : s.pool.queue.length < queueCapacity
  · rw [if_pos hroom] at hqueue ⊢
    exact (congrArg Pool.accepted (Option.some.inj hqueue)).symm
  · rw [if_neg hroom] at hqueue ⊢
    rw [List.append_nil]
    exact (congrArg Pool.accepted (Option.some.inj hqueue)).symm

theorem accepted_step {text : TextOps F} {s s' : ExtractionServer} {move : ServerMove F}
    (h : s.step text move = some s') :
    s'.pool.accepted = s.pool.accepted ++ s.newlyAccepted text move := by
  cases move with
  | share => exact accepted_onPool (m := PoolMove.share) nofun h
  | release =>
      rcases Option.ite_none_right_eq_some.mp h with ⟨-, hpool⟩
      exact accepted_onPool (m := PoolMove.release) nofun hpool
  | stored node =>
      rcases Option.ite_none_right_eq_some.mp h with ⟨-, hsend⟩
      unfold newlyAccepted
      unfold requestFor at hsend
      by_cases hlooks : looksLikeConversation text node.content = true
      · simp only [hlooks, if_true] at hsend
        simp only [hlooks, true_and]
        exact accepted_trySend hsend
      · simp only [hlooks] at hsend
        cases hsend
        simp [hlooks]
  | receive => exact accepted_onPool (m := PoolMove.receive) nofun h
  | start => exact accepted_onPool (m := PoolMove.start) nofun h
  | complete task => exact accepted_onPool (m := PoolMove.complete task) nofun h
  | finish => exact accepted_onPool (m := PoolMove.finish) nofun h
  | stop =>
      simp only [ExtractionServer.step] at h
      split at h
      · rcases Option.map_eq_some_iff.mp h with ⟨mid, hmid, heq⟩
        subst heq
        exact accepted_onPool (t := mid) (m := PoolMove.release) nofun hmid
      · cases h
  | join =>
      rcases Option.ite_none_right_eq_some.mp h with ⟨-, heq⟩
      cases heq
      exact (List.append_nil _).symm
  | timeout =>
      rcases Option.ite_none_right_eq_some.mp h with ⟨-, heq⟩
      cases heq
      exact (List.append_nil _).symm

/-- Accepted are only conversations. -/
theorem newlyAccepted_sublist_sent (text : TextOps F) (s : ExtractionServer)
    (move : ServerMove F) : (s.newlyAccepted text move).Sublist (sent text [move]) := by
  cases move with
  | stored node =>
      unfold newlyAccepted sent requestFor
      by_cases hlooks : looksLikeConversation text node.content = true
      · by_cases hroom : s.pool.queue.length < queueCapacity
        · simp [hlooks, hroom]
        · simp [hroom]
      · simp [hlooks]
  | _ => exact List.nil_sublist _

theorem accepted_run {text : TextOps F} {moves : List (ServerMove F)} {s s' : ExtractionServer}
    (hrun : s.run text moves = some s') :
    s'.pool.accepted.Sublist (s.pool.accepted ++ sent text moves) := by
  induction moves generalizing s with
  | nil =>
      cases hrun
      exact List.sublist_append_left _ _
  | cons move rest ih =>
      rcases Option.bind_eq_some_iff.mp hrun with ⟨mid, hmid, hend⟩
      have hsplit : sent text ([move] ++ rest) = sent text [move] ++ sent text rest := by
        unfold sent
        exact List.filterMap_append
      have hfirst : mid.pool.accepted.Sublist (s.pool.accepted ++ sent text [move]) := by
        rw [accepted_step hmid]
        exact (newlyAccepted_sublist_sent text s move).append_left _
      change s'.pool.accepted.Sublist (s.pool.accepted ++ sent text ([move] ++ rest))
      rw [hsplit, ← List.append_assoc]
      exact (ih hend).trans (hfirst.append_right _)

/-- Every move of a run is made in the state that the moves before it lead to. -/
theorem exists_step_of_run {text : TextOps F} {before after : List (ServerMove F)}
    {move : ServerMove F} {s s' : ExtractionServer}
    (hrun : s.run text (before ++ move :: after) = some s') :
    exists mid next, s.run text before = some mid ∧ mid.step text move = some next := by
  unfold run at hrun
  rw [List.foldlM_append] at hrun
  rcases Option.bind_eq_some_iff.mp hrun with ⟨mid, hmid, hrest⟩
  rw [List.foldlM_cons] at hrest
  rcases Option.bind_eq_some_iff.mp hrest with ⟨next, hnext, -⟩
  exact ⟨mid, next, hmid, hnext⟩

/-- Whatever the order in which the parties move, the request of a stored memory is accepted
exactly when the memory looks like a conversation and the queue has room, each accepted request
is started once and in the order of the stores, at most four run, and at most 64 wait. -/
theorem requests_start_once_in_order {text : TextOps F} {moves : List (ServerMove F)}
    {s : ExtractionServer} (hrun : spawned.run text moves = some s) :
    (forall before node after, moves = before ++ ServerMove.stored node :: after ->
      exists mid next, spawned.run text before = some mid ∧
        mid.step text (ServerMove.stored node) = some next ∧
        next.pool.accepted = mid.pool.accepted ++
          (if looksLikeConversation text node.content ∧ mid.pool.queue.length < 64 then
            [requestOf node]
          else [])) ∧
      s.pool.accepted.Sublist (sent text moves) ∧
      s.pool.accepted = s.pool.started ++ s.pool.dispatcher.held ++ s.pool.queue ∧
      s.pool.started.Perm (s.pool.completed ++ s.pool.running) ∧
      s.pool.queue.length <= 64 ∧ s.pool.running.length <= 4 ∧
      s.pool.accepted.length <= s.pool.completed.length + 69 := by
  have hs := (sound_spawned.run hrun).pool
  have hheld := s.pool.dispatcher.length_held_le
  have hqueue : s.pool.queue.length <= 64 := hs.queue_le
  have hrunning : s.pool.running.length <= 4 := hs.running_le
  have hlength := hs.length_accepted
  refine ⟨?_, accepted_run hrun, hs.in_order, hs.once, hqueue, hrunning, ?_⟩
  · intro before node after hmoves
    rw [hmoves] at hrun
    rcases exists_step_of_run hrun with ⟨mid, next, hmid, hnext⟩
    exact ⟨mid, next, hmid, hnext, accepted_step hnext⟩
  · omega

def chatNode : MemoryNode Rat :=
  MemoryNode.new ⟨7⟩ 1000 ⟨1⟩ MemoryType.episodic "User: hi Assistant: hello" []

/-- A conversation is stored, the servers stop, and the worker has not moved yet. -/
def chatStop : List (ServerMove Rat) :=
  [ServerMove.share, ServerMove.stored chatNode, ServerMove.release, ServerMove.stop]

def chatServer : ExtractionServer where
  main := MainTask.joining
  pool :=
    { holders := 0
      queue := [requestOf chatNode]
      dispatcher := Dispatcher.receiving
      running := []
      accepted := [requestOf chatNode]
      started := []
      completed := [] }

theorem run_chatStop : spawned.run asciiOps chatStop = some chatServer := by decide +kernel

theorem requests_start_once_in_order_chat :
    (forall before node after, chatStop = before ++ ServerMove.stored node :: after ->
      exists mid next, spawned.run asciiOps before = some mid ∧
        mid.step asciiOps (ServerMove.stored node) = some next ∧
        next.pool.accepted = mid.pool.accepted ++
          (if looksLikeConversation asciiOps node.content ∧ mid.pool.queue.length < 64 then
            [requestOf node]
          else [])) ∧
    chatServer.pool.accepted.Sublist (sent asciiOps chatStop) ∧
      chatServer.pool.accepted = chatServer.pool.started ++ chatServer.pool.dispatcher.held ++
        chatServer.pool.queue ∧
      chatServer.pool.started.Perm (chatServer.pool.completed ++ chatServer.pool.running) ∧
      chatServer.pool.queue.length <= 64 ∧ chatServer.pool.running.length <= 4 ∧
      chatServer.pool.accepted.length <= chatServer.pool.completed.length + 69 :=
  requests_start_once_in_order run_chatStop

/-!
## The worker drains
-/

/-- The move of the pool that a move of the worker or of a task makes. -/
def internal? : ServerMove F -> Option (PoolMove ExtractionRequest)
  | ServerMove.receive => some PoolMove.receive
  | ServerMove.start => some PoolMove.start
  | ServerMove.complete task => some (PoolMove.complete task)
  | ServerMove.finish => some PoolMove.finish
  | _ => none

theorem step_of_internal {text : TextOps F} {move : ServerMove F}
    {m : PoolMove ExtractionRequest} (h : internal? move = some m) (s : ExtractionServer) :
    s.step text move = s.onPool m ∧ m.isInternal = true := by
  cases move with
  | receive =>
      cases h
      exact ⟨rfl, rfl⟩
  | start =>
      cases h
      exact ⟨rfl, rfl⟩
  | complete task =>
      cases h
      exact ⟨rfl, rfl⟩
  | finish =>
      cases h
      exact ⟨rfl, rfl⟩
  | _ => cases h

/-- The worker and its tasks have nothing to do. -/
def AtRest (text : TextOps F) (s : ExtractionServer) : Prop :=
  forall move : ServerMove F, (internal? move).isSome = true -> s.step text move = none

theorem AtRest.pool {text : TextOps F} {s : ExtractionServer}
    (hopen : forall drained, s.main ≠ MainTask.closed drained) (hrest : s.AtRest text) :
    s.pool.AtRest queueCapacity maxConcurrent := by
  have hnone : forall (move : ServerMove F) {m : PoolMove ExtractionRequest},
      internal? move = some m -> s.pool.step queueCapacity maxConcurrent m = none := by
    intro move m hm
    have hstuck := hrest move (by rw [hm]; rfl)
    rw [(step_of_internal hm s).1, onPool_of_open hopen] at hstuck
    exact Option.map_eq_none_iff.mp hstuck
  intro m hm
  cases m with
  | receive => exact hnone ServerMove.receive rfl
  | start => exact hnone ServerMove.start rfl
  | complete task => exact hnone (ServerMove.complete task) rfl
  | finish => exact hnone ServerMove.finish rfl
  | _ => cases hm

/-- The moves of the worker and its tasks use up the load and change nothing else. -/
theorem load_run {text : TextOps F} {inner : List (ServerMove F)} {s s' : ExtractionServer}
    (hinner : forall move, move ∈ inner -> (internal? move).isSome = true)
    (hrun : s.run text inner = some s') :
    s'.pool.load + inner.length = s.pool.load ∧ s'.pool.accepted = s.pool.accepted ∧
      s'.pool.holders = s.pool.holders ∧ s'.main = s.main := by
  induction inner generalizing s with
  | nil =>
      cases hrun
      exact ⟨rfl, rfl, rfl, rfl⟩
  | cons move rest ih =>
      rcases Option.bind_eq_some_iff.mp hrun with ⟨mid, hmid, hend⟩
      rcases Option.isSome_iff_exists.mp (hinner move List.mem_cons_self) with ⟨m, hm⟩
      have hsame : s.step text move = s.onPool m ∧ m.isInternal = true := step_of_internal hm s
      rcases hsame with ⟨hstep, hinternal⟩
      rw [hstep] at hmid
      rcases onPool_eq_some hmid with ⟨-, hmain, hpool⟩
      have hfirst := Pool.load_step hinternal hpool
      have hrest := ih (fun i hi => hinner i (List.mem_cons_of_mem move hi)) hend
      refine ⟨?_, hrest.2.1.trans hfirst.2.1, hrest.2.2.1.trans hfirst.2.2,
        hrest.2.2.2.trans hmain⟩
      rw [List.length_cons]
      omega

/-- From any state of any run the worker and its tasks make a bounded number of moves.  When they
can make no more, every accepted request is over, and the worker has ended if nobody refers to
the state any longer.  It does not end while the main task serves, and a database closed
after the worker ended leaves no request behind. -/
theorem worker_drains {text : TextOps F} {moves : List (ServerMove F)} {s : ExtractionServer}
    (hrun : spawned.run text moves = some s) :
    (s.main = MainTask.serving -> s.pool.dispatcher ≠ Dispatcher.finished) ∧
      (s.main = MainTask.closed true -> s.pool.completed.Perm s.pool.accepted) ∧
      forall (inner : List (ServerMove F)) (s' : ExtractionServer),
        (forall move, move ∈ inner -> (internal? move).isSome = true) ->
        s.run text inner = some s' ->
        inner.length <= 3 * s.pool.queue.length + s.pool.running.length + 4 ∧
          (s'.AtRest text -> (forall drained, s.main ≠ MainTask.closed drained) ->
            s'.pool.completed.Perm s.pool.accepted ∧
              (s'.pool.dispatcher = Dispatcher.finished <-> s.pool.holders = 0)) := by
  have hs := sound_spawned.run hrun
  refine ⟨?_, ?_, ?_⟩
  · intro hserving hfinished
    have hpos := hs.held hserving
    rw [(hs.pool.closed (Or.inr hfinished)).1] at hpos
    exact Nat.lt_irrefl 0 hpos
  · intro hclosed
    have hfinished := hs.drained hclosed
    have hqueue := (hs.pool.closed (Or.inr hfinished)).2
    exact Pool.completed_of_atRest (by decide) hs.pool
      ((Pool.atRest_iff (by decide) hs.pool).mpr
        ⟨hqueue, hs.pool.idle hfinished, Or.inl hfinished⟩)
  · intro inner s' hinner hmore
    rcases load_run hinner hmore with ⟨hload, haccepted, hholders, hmain⟩
    have hs' := hs.run hmore
    have hleft := s.pool.dispatcher.stepsLeft_le
    constructor
    · unfold Pool.load at hload
      omega
    · intro hrest hopen
      rw [← hmain] at hopen
      have hpool := AtRest.pool hopen hrest
      rw [← haccepted, ← hholders]
      refine ⟨Pool.completed_of_atRest (by decide) hs'.pool hpool, ?_⟩
      constructor
      · intro hfinished
        exact (hs'.pool.closed (Or.inr hfinished)).1
      · intro hzero
        rcases ((Pool.atRest_iff (by decide) hs'.pool).mp hpool).2.2 with hdone | ⟨-, hpos⟩
        · exact hdone
        · rw [hzero] at hpos
          exact absurd hpos (Nat.lt_irrefl 0)

theorem worker_drains_chat :
    (chatServer.main = MainTask.serving ->
        chatServer.pool.dispatcher ≠ Dispatcher.finished) ∧
      (chatServer.main = MainTask.closed true ->
        chatServer.pool.completed.Perm chatServer.pool.accepted) ∧
      forall (inner : List (ServerMove Rat)) (s' : ExtractionServer),
        (forall move, move ∈ inner -> (internal? move).isSome = true) ->
        chatServer.run asciiOps inner = some s' ->
        inner.length <=
            3 * chatServer.pool.queue.length + chatServer.pool.running.length + 4 ∧
          (s'.AtRest asciiOps -> (forall drained, chatServer.main ≠ MainTask.closed drained) ->
            s'.pool.completed.Perm chatServer.pool.accepted ∧
              (s'.pool.dispatcher = Dispatcher.finished <-> chatServer.pool.holders = 0)) :=
  worker_drains run_chatStop

end ExtractionServer

end Server
end MenteDb
