import MenteDb.Facade.Validity

/-!
# Interleaved operations

Threads share one database.  Each takes the lock of the connection for one read
or one write transaction at a time and computes in between on the copies it has
read.  A maintenance pass writes whole copies back, so a copy read before a
forget can undo it.
-/

namespace MenteDb
namespace Facade

open Foundation
open Sqlite
open MenteDb.Graph
open Consolidation

variable {F : Type}

/-!
## Threads
-/

/-- What a thread is asked to do. -/
inductive Operation (F : Type) where
  | applyDecayPolicyGlobal
  | applyArchivePolicyGlobal
  | applySleepDecay (maxMemories : Nat) (decayWriteEpsilon : F)
  | invalidateMemory (id : MemoryId) (at_ : Timestamp)
  | applyForgetPolicy (scope : ForgetScope) (mode : ForgetMode)

/-- A maintenance pass that loads all memories first. -/
inductive Pass (F : Type) where
  | decay (now : Timestamp)
  | archive (now : Timestamp)
  | sleepDecay (maxMemories : Nat) (decayWriteEpsilon : F)

/-- One write transaction of a thread. -/
inductive Write (F : Type) where
  | lifecycle (updates : List (MemoryNode F))
  | store (node : MemoryNode F)
  | audit

inductive Thread (F : Type) where
  | begin (op : Operation F)
  | loading (pass : Pass F) (todo : List MemoryId) (loaded : List (MemoryNode F))
  | writing (writes : List (Write F))
  | planned (affected : PolicyAffected) (mode : ForgetMode) (appliedAt : Timestamp)
  | dropping (memoryIds : List MemoryId)
  | finished

/-- The copies of memories that a transaction writes. -/
def Write.nodes : Write F -> List (MemoryNode F)
  | Write.lifecycle updates => updates
  | Write.store node => [node]
  | Write.audit => []

section Steps

variable [Scalar F]

def Write.tx (dim : Nat) : Write F -> Tx F
  | Write.lifecycle updates => Tables.applyLifecyclePolicy dim updates
  | Write.store node => Tables.storeMemory dim node
  | Write.audit => fun t => Except.ok t

/-- The transactions of a pass over what it has loaded, and the clock it reads. -/
def Pass.writes (env : Env F) (w : World F) (loaded : List (MemoryNode F)) :
    Pass F -> List (Write F) × World F
  | Pass.decay now =>
      ([Write.lifecycle (decayUpdates env.config.decayConfig (ratio 1 1000) now loaded)], w)
  | Pass.archive now => ([Write.lifecycle (archiveUpdates now loaded)], w)
  | Pass.sleepDecay maxMemories decayWriteEpsilon =>
      ((decayUpdates env.config.decayConfig decayWriteEpsilon (env.clock w.ticks)
          ((orderBy (fun a b => idLe a.id b.id) loaded).take maxMemories)).map Write.store,
        { w with ticks := w.ticks + 1 })

/-- The first step of an operation. -/
def Operation.start (env : Env F) (w : World F) : Operation F -> Thread F × World F
  | Operation.applyDecayPolicyGlobal =>
      (Thread.loading (Pass.decay (env.clock w.ticks)) w.tables.allMemoryIds [],
        { w with ticks := w.ticks + 1 })
  | Operation.applyArchivePolicyGlobal =>
      (Thread.loading (Pass.archive (env.clock w.ticks)) w.tables.allMemoryIds [],
        { w with ticks := w.ticks + 1 })
  | Operation.applySleepDecay maxMemories decayWriteEpsilon =>
      (Thread.loading (Pass.sleepDecay maxMemories decayWriteEpsilon) w.tables.allMemoryIds [], w)
  | Operation.invalidateMemory id at_ =>
      match w.tables.getMemory id with
      | none => (Thread.finished, w)
      | some node => (Thread.writing [Write.store (node.invalidate at_), Write.audit], w)
  | Operation.applyForgetPolicy scope mode =>
      (Thread.planned (buildForgetPlan w.tables scope) mode (env.clock w.ticks),
        { w with ticks := w.ticks + 1 })

/-- One transaction; if it fails, the thread gives up. -/
def commit (env : Env F) (tx : Tx F) (next : Thread F) (w : World F) : Thread F × World F :=
  match transact env tx w with
  | (Except.ok _, w') => (next, w')
  | (Except.error _, w') => (Thread.finished, w')

def Thread.advance (env : Env F) (w : World F) : Thread F -> Thread F × World F
  | Thread.begin op => op.start env w
  | Thread.loading pass (id :: todo) loaded =>
      (Thread.loading pass todo (loaded ++ (w.tables.getMemory id).toList), w)
  | Thread.loading pass [] loaded =>
      (Thread.writing (pass.writes env w loaded).1, (pass.writes env w loaded).2)
  | Thread.writing [] => (Thread.finished, w)
  | Thread.writing (x :: rest) => commit env (x.tx w.embeddingDim) (Thread.writing rest) w
  | Thread.planned affected mode appliedAt =>
      commit env (Tables.applyForgetPolicy (forgetMutation affected mode appliedAt))
        (Thread.dropping (if mode = ForgetMode.hard then affected.memoryIds else [])) w
  | Thread.dropping [] => (Thread.finished, w)
  | Thread.dropping (id :: rest) =>
      (Thread.dropping rest, { w with graph := GraphManager.removeMemory w.graph id })
  | Thread.finished => (Thread.finished, w)

/-!
## The system
-/

structure System (F : Type) where
  world : World F
  threads : List (Thread F)

/-- A scheduling decision.  Other threads may write between the queries of a
forget plan; what the queries return then is some list of affected ids. -/
inductive Move (F : Type) where
  | spawn (op : Operation F)
  | advance (i : Nat)
  | plan (i : Nat) (affected : PolicyAffected)

def System.step (env : Env F) (s : System F) : Move F -> System F
  | Move.spawn op => { s with threads := s.threads ++ [Thread.begin op] }
  | Move.advance i =>
      match s.threads[i]? with
      | none => s
      | some thread =>
          { world := (thread.advance env s.world).2
            threads := s.threads.set i (thread.advance env s.world).1 }
  | Move.plan i affected =>
      match s.threads[i]? with
      | some (Thread.begin (Operation.applyForgetPolicy _ mode)) =>
          { world := { s.world with ticks := s.world.ticks + 1 }
            threads := s.threads.set i
              (Thread.planned affected mode (env.clock s.world.ticks)) }
      | _ => s

/-!
## A thread alone

Undisturbed, the steps of a thread are the operation it was asked to do.
-/

def Operation.alone (env : Env F) (w : World F) : Operation F -> World F
  | Operation.applyDecayPolicyGlobal => (Facade.applyDecayPolicyGlobal env w).2
  | Operation.applyArchivePolicyGlobal => (Facade.applyArchivePolicyGlobal env w).2
  | Operation.applySleepDecay maxMemories decayWriteEpsilon =>
      (Facade.applySleepDecay env maxMemories decayWriteEpsilon w).2
  | Operation.invalidateMemory id at_ => (Facade.invalidateMemory env id at_ w).2
  | Operation.applyForgetPolicy scope mode => (Facade.applyForgetPolicy env scope mode w).2

/-- Without interference the thread ends in the given state. -/
inductive Finishes (env : Env F) : Thread F -> World F -> World F -> Prop where
  | done (w : World F) : Finishes env Thread.finished w w
  | step {thread : Thread F} {w w' : World F} :
      Finishes env (thread.advance env w).1 (thread.advance env w).2 w' ->
      Finishes env thread w w'

def performWrite (env : Env F) (x : Write F) : Op F Unit := do
  let dim ← Prog.gets World.embeddingDim
  transact env (x.tx dim)

theorem finishes_writing (env : Env F) (writes : List (Write F)) (w : World F) :
    Finishes env (Thread.writing writes) w (Prog.forEach writes (performWrite env) w).2 := by
  induction writes generalizing w with
  | nil => exact Finishes.step (Finishes.done w)
  | cons x rest ih =>
      apply Finishes.step
      show Finishes env (commit env (x.tx w.embeddingDim) (Thread.writing rest) w).1
        (commit env (x.tx w.embeddingDim) (Thread.writing rest) w).2
        (Prog.bind (transact env (x.tx w.embeddingDim))
          (fun _ => Prog.forEach rest (performWrite env)) w).2
      unfold commit Prog.bind
      rcases hrun : transact env (x.tx w.embeddingDim) w with ⟨result, w'⟩
      cases result with
      | ok u => exact ih w'
      | error e => exact Finishes.done w'

theorem finishes_loading {env : Env F} {pass : Pass F} {w w' : World F} (todo : List MemoryId)
    (loaded : List (MemoryNode F))
    (h : Finishes env (Thread.loading pass [] (loaded ++ todo.filterMap w.tables.getMemory)) w
      w') : Finishes env (Thread.loading pass todo loaded) w w' := by
  induction todo generalizing loaded with
  | nil =>
      rw [List.filterMap_nil, List.append_nil] at h
      exact h
  | cons id rest ih =>
      apply Finishes.step
      apply ih (loaded ++ (w.tables.getMemory id).toList)
      cases hget : w.tables.getMemory id with
      | none =>
          rw [List.filterMap_cons_none hget] at h
          simpa using h
      | some node =>
          rw [List.filterMap_cons_some hget] at h
          simpa using h

theorem finishes_dropping (env : Env F) (memoryIds : List MemoryId) (w : World F) :
    Finishes env (Thread.dropping memoryIds) w
      { w with graph := memoryIds.foldl GraphManager.removeMemory w.graph } := by
  induction memoryIds generalizing w with
  | nil => exact Finishes.step (Finishes.done w)
  | cons id rest ih => exact Finishes.step (ih _)

theorem finishes_pass (env : Env F) (pass : Pass F) (w : World F) :
    Finishes env (Thread.loading pass w.tables.allMemoryIds []) w
      (Prog.forEach (pass.writes env w w.tables.allMemories).1 (performWrite env)
        (pass.writes env w w.tables.allMemories).2).2 :=
  finishes_loading _ [] (Finishes.step (finishes_writing env _ _))

theorem writeLifecycle_state (env : Env F) (updates : List (MemoryNode F)) (w : World F) :
    (writeLifecycle env updates w).2 =
      (Prog.forEach [Write.lifecycle updates] (performWrite env) w).2 := by
  show (Prog.bind (performWrite env (Write.lifecycle updates)) _ w).2 =
    (Prog.bind (performWrite env (Write.lifecycle updates)) _ w).2
  apply Prog.bind_state_congr
  intro _ _
  rfl

theorem invalidateMemory_state (env : Env F) (id : MemoryId) (at_ : Timestamp) (w : World F) :
    (invalidateMemory env id at_ w).2 =
      match w.tables.getMemory id with
      | none => w
      | some node => (Prog.forEach [Write.store (node.invalidate at_), Write.audit]
          (performWrite env) w).2 := by
  show (Prog.bind (getMemory id) _ w).2 = _
  unfold Prog.bind getMemory
  cases w.tables.getMemory id with
  | none => rfl
  | some node =>
      show (Prog.bind (performWrite env (Write.store (node.invalidate at_))) _ w).2 =
        (Prog.bind (performWrite env (Write.store (node.invalidate at_))) _ w).2
      apply Prog.bind_state_congr
      intro _ w'
      show (performWrite env Write.audit w').2 = (Prog.bind (performWrite env Write.audit) _ w').2
      unfold Prog.bind
      rcases performWrite env Write.audit w' with ⟨result, w1⟩
      cases result with
      | ok u => rfl
      | error e => rfl

theorem finishes_alone (env : Env F) (op : Operation F) (w : World F) :
    Finishes env (Thread.begin op) w (op.alone env w) := by
  apply Finishes.step
  cases op with
  | applyDecayPolicyGlobal =>
      have h := finishes_pass env (Pass.decay (env.clock w.ticks)) { w with ticks := w.ticks + 1 }
      unfold Pass.writes at h
      rw [← writeLifecycle_state] at h
      exact h
  | applyArchivePolicyGlobal =>
      have h := finishes_pass env (Pass.archive (env.clock w.ticks))
        { w with ticks := w.ticks + 1 }
      unfold Pass.writes at h
      rw [← writeLifecycle_state] at h
      exact h
  | applySleepDecay maxMemories decayWriteEpsilon =>
      have h := finishes_pass env (Pass.sleepDecay maxMemories decayWriteEpsilon) w
      unfold Pass.writes at h
      rw [Prog.forEach_map] at h
      exact h
  | invalidateMemory id at_ =>
      show Finishes env (Operation.start env w (Operation.invalidateMemory id at_)).1
        (Operation.start env w (Operation.invalidateMemory id at_)).2
        (Facade.invalidateMemory env id at_ w).2
      rw [invalidateMemory_state]
      simp only [Operation.start]
      cases w.tables.getMemory id with
      | none => exact Finishes.done w
      | some node => exact finishes_writing env _ w
  | applyForgetPolicy scope mode =>
      apply Finishes.step
      show Finishes env (commit env _ _ { w with ticks := w.ticks + 1 }).1
        (commit env _ _ { w with ticks := w.ticks + 1 }).2
        (Prog.bind (transact env _) _ { w with ticks := w.ticks + 1 }).2
      unfold commit Prog.bind
      rcases hrun : transact env (Tables.applyForgetPolicy (forgetMutation
        (buildForgetPlan w.tables scope) mode (env.clock w.ticks)))
          { w with ticks := w.ticks + 1 } with ⟨result, w'⟩
      cases result with
      | ok u => exact finishes_dropping env _ w'
      | error e => exact Finishes.done w'

/-!
## Forgotten memories
-/

/-- What a forget leaves of the window of a memory: nothing, or an ended one. -/
def Settled (mode : ForgetMode) (appliedAt : Timestamp) : Window -> Prop :=
  match mode with
  | ForgetMode.hard => fun _ => False
  | ForgetMode.soft => Window.EndedBy appliedAt

/-- The memory is not stored, or not valid from the forget on. -/
def Forgotten (mode : ForgetMode) (m : MemoryId) (appliedAt : Timestamp) (t : Tables F) : Prop :=
  match mode with
  | ForgetMode.hard => t.memories.contains m = false
  | ForgetMode.soft => forall node s, t.getMemory m = some node -> appliedAt <= s ->
      node.isValidAt s = false

/-- The thread cannot undo the forget: it holds no copy of the memory from before
it, and ends the memory no later. -/
def Thread.Harmless (mode : ForgetMode) (m : MemoryId) (appliedAt : Timestamp) :
    Thread F -> Prop
  | Thread.begin (Operation.invalidateMemory id at_) =>
      mode = ForgetMode.soft -> id = m -> at_ <= appliedAt
  | Thread.begin _ => True
  | Thread.loading _ _ loaded =>
      forall node, node ∈ loaded -> CopyMeets m (Settled mode appliedAt) node
  | Thread.writing writes =>
      forall x, x ∈ writes -> forall node, node ∈ x.nodes ->
        CopyMeets m (Settled mode appliedAt) node
  | Thread.planned affected ForgetMode.soft _ => mode = ForgetMode.soft -> m ∉ affected.memoryIds
  | Thread.planned _ ForgetMode.hard _ => True
  | Thread.dropping _ => True
  | Thread.finished => True

omit [Scalar F] in
theorem RowMeets.forgotten {mode : ForgetMode} {m : MemoryId} {appliedAt : Timestamp}
    {t : Tables F} (h : RowMeets m (Settled mode appliedAt) t) : Forgotten mode m appliedAt t := by
  cases mode with
  | hard =>
      show t.memories.contains m = false
      rw [MemoryTable.contains_eq, Option.isSome_eq_false_iff, Option.isNone_iff_eq_none]
      cases hrow : t.memories.find? m with
      | none => rfl
      | some row => exact absurd (h row hrow) not_false
  | soft =>
      intro node s hget hle
      have hended : Window.EndedBy appliedAt (nodeWindow node) :=
        h.copyMeets hget (Tables.getMemory_id hget)
      exact hended.not_valid hle

/-- Ending the memory no later than the forget keeps it settled. -/
theorem settled_closeAt {mode : ForgetMode} {appliedAt at_ : Timestamp}
    (h : mode = ForgetMode.soft -> at_ <= appliedAt) (x : Window)
    (hx : Settled mode appliedAt x) : Settled mode appliedAt (x.closeAt at_) := by
  cases mode with
  | hard => exact hx
  | soft => exact Window.endedBy_closeAt x (h rfl)

theorem rowMeets_hardForgetOn {m : MemoryId} {P : Window -> Prop} {a : PolicyAffected} :
    Atomic.Keeps (RowMeets m P) (Tables.hardForgetOn a : Tx F) := by
  intro t t' ht hrun row hrow
  have hbetween := Between.hardForgetOn t a t t' (Between.refl t a) hrun
  exact ht row (Between.origin_eq (hbetween.memories m) hrow)

/-- The transaction of a forget settles every memory it affects. -/
theorem settled_applyForgetPolicy {mode : ForgetMode} {m : MemoryId} {appliedAt : Timestamp}
    {affected : PolicyAffected} {t t' : Tables F} (hm : m ∈ affected.memoryIds)
    (hrun : Tables.applyForgetPolicy (forgetMutation affected mode appliedAt) t
      = Except.ok t') : RowMeets m (Settled mode appliedAt) t' := by
  cases mode with
  | hard =>
      have hforget : Tables.hardForgetOn affected t = Except.ok t' := hrun
      intro row hrow
      have hbetween := Between.hardForgetOn t affected t t' (Between.refl t affected) hforget
      have hold := Between.origin_eq (hbetween.memories m) hrow
      rw [(hardForgetOn_erases hm hold hforget).memories] at hrow
      cases hrow
  | soft => exact endedBy_softForgetOn hm hrun

/-!
## Steps

A harmless thread stays harmless and leaves a forgotten memory forgotten.
-/

variable {mode : ForgetMode} {m : MemoryId} {appliedAt : Timestamp} {env : Env F}

/-- What holds of every state after the forget has committed. -/
def Safeguarded (mode : ForgetMode) (m : MemoryId) (appliedAt : Timestamp)
    (thread : Thread F) (w : World F) : Prop :=
  RowMeets m (Settled mode appliedAt) w.tables ∧ thread.Harmless mode m appliedAt

omit [Scalar F] in
theorem safeguarded_commit {tx : Tx F} {next : Thread F} {w : World F}
    (hrow : RowMeets m (Settled mode appliedAt) w.tables)
    (htx : Atomic.Keeps (RowMeets m (Settled mode appliedAt)) tx)
    (hnext : next.Harmless mode m appliedAt) :
    Safeguarded mode m appliedAt (commit env tx next w).1 (commit env tx next w).2 := by
  unfold commit transact
  cases env.fault w.ticks with
  | some e => exact ⟨hrow, trivial⟩
  | none =>
      cases hrun : tx w.tables with
      | error e => exact ⟨hrow, trivial⟩
      | ok t => exact ⟨htx w.tables t hrow hrun, hnext⟩

theorem rowMeets_write {P : Window -> Prop} {x : Write F} {dim : Nat}
    (h : forall node, node ∈ x.nodes -> CopyMeets m P node) :
    Atomic.Keeps (RowMeets m P) (x.tx dim) := by
  cases x with
  | lifecycle updates =>
      exact Atomic.Keeps.forEach (fun node hnode => rowMeets_storeMemoryOn (h node hnode))
  | store node =>
      intro t t' ht hrun
      have hstore : Tables.storeMemory dim node t = Except.ok t' := hrun
      unfold Tables.storeMemory at hstore
      split at hstore
      · cases hstore
      · exact rowMeets_storeMemoryOn (h node List.mem_cons_self) t t' ht hstore
  | audit =>
      intro t t' ht hrun
      cases hrun
      exact ht

/-- A pass writes copies of what it has loaded, with their windows. -/
theorem copyMeets_writes {P : Window -> Prop} {pass : Pass F} {w : World F}
    {loaded : List (MemoryNode F)} (h : forall node, node ∈ loaded -> CopyMeets m P node)
    {x : Write F} (hx : x ∈ (pass.writes env w loaded).1) {u : MemoryNode F}
    (hu : u ∈ x.nodes) : CopyMeets m P u := by
  cases pass with
  | decay now =>
      rw [List.mem_singleton.mp hx] at hu
      rcases mem_decayUpdates hu with ⟨node, hnode, s, heq⟩
      rw [heq]
      exact h node hnode
  | archive now =>
      rw [List.mem_singleton.mp hx] at hu
      rcases mem_archiveUpdates hu with ⟨node, hnode, tags, s, heq⟩
      rw [heq]
      exact h node hnode
  | sleepDecay maxMemories decayWriteEpsilon =>
      rcases List.mem_map.mp hx with ⟨v, hv, hxv⟩
      subst hxv
      rw [List.mem_singleton.mp hu]
      rcases mem_decayUpdates hv with ⟨node, hnode, s, heq⟩
      rw [heq]
      exact h node (mem_orderBy.mp (List.mem_of_mem_take hnode))

theorem Operation.safeguarded_start {op : Operation F} {w : World F}
    (hrow : RowMeets m (Settled mode appliedAt) w.tables)
    (hop : (Thread.begin op).Harmless mode m appliedAt)
    (hplan : forall scope, op = Operation.applyForgetPolicy scope ForgetMode.soft ->
      mode = ForgetMode.soft -> m ∉ (buildForgetPlan w.tables scope).memoryIds) :
    Safeguarded mode m appliedAt (op.start env w).1 (op.start env w).2 := by
  have hnone : forall node : MemoryNode F, node ∈ ([] : List (MemoryNode F)) ->
      CopyMeets m (Settled mode appliedAt) node := fun _ hnode => by cases hnode
  cases op with
  | applyDecayPolicyGlobal => exact ⟨hrow, hnone⟩
  | applyArchivePolicyGlobal => exact ⟨hrow, hnone⟩
  | applySleepDecay maxMemories decayWriteEpsilon => exact ⟨hrow, hnone⟩
  | invalidateMemory id at_ =>
      simp only [Operation.start]
      cases hget : w.tables.getMemory id with
      | none => exact ⟨hrow, trivial⟩
      | some node =>
          refine ⟨hrow, ?_⟩
          intro x hx u hu hid
          rcases List.mem_cons.mp hx with hstore | haudit
          · subst hstore
            rw [List.mem_singleton.mp hu] at hid ⊢
            have hsame : id = m := (Tables.getMemory_id hget).symm.trans hid
            exact settled_closeAt (fun hsoft => hop hsoft hsame) _ (hrow.copyMeets hget hid)
          · rw [List.mem_singleton.mp haudit] at hu
            cases hu
  | applyForgetPolicy scope forgetMode =>
      cases forgetMode with
      | hard => exact ⟨hrow, trivial⟩
      | soft => exact ⟨hrow, hplan scope rfl⟩

theorem Thread.safeguarded_advance {thread : Thread F} {w : World F}
    (h : Safeguarded mode m appliedAt thread w)
    (hplan : forall scope,
      thread = Thread.begin (Operation.applyForgetPolicy scope ForgetMode.soft) ->
      mode = ForgetMode.soft -> m ∉ (buildForgetPlan w.tables scope).memoryIds) :
    Safeguarded mode m appliedAt (thread.advance env w).1 (thread.advance env w).2 := by
  rcases h with ⟨hrow, hharmless⟩
  cases thread with
  | begin op =>
      refine Operation.safeguarded_start hrow hharmless ?_
      intro scope hop
      exact hplan scope (by rw [hop])
  | loading pass todo loaded =>
      cases todo with
      | nil =>
          have htables : (pass.writes env w loaded).2.tables = w.tables := by
            cases pass <;> rfl
          refine ⟨?_, fun x hx u hu => copyMeets_writes hharmless hx hu⟩
          show RowMeets m _ (pass.writes env w loaded).2.tables
          rw [htables]
          exact hrow
      | cons id rest =>
          refine ⟨hrow, ?_⟩
          intro node hnode
          cases List.mem_append.mp hnode with
          | inl hold => exact hharmless node hold
          | inr hnew => exact hrow.copyMeets (Option.mem_toList.mp hnew)
  | writing writes =>
      cases writes with
      | nil => exact ⟨hrow, trivial⟩
      | cons x rest =>
          exact safeguarded_commit hrow
            (rowMeets_write (fun node hnode => hharmless x List.mem_cons_self node hnode))
            (fun y hy => hharmless y (List.mem_cons_of_mem x hy))
  | planned affected forgetMode at_ =>
      cases forgetMode with
      | hard => exact safeguarded_commit hrow rowMeets_hardForgetOn trivial
      | soft =>
          refine safeguarded_commit hrow (rowMeets_softForgetOn ?_) trivial
          intro hin
          exact settled_closeAt (fun hsoft => absurd hin (hharmless hsoft))
  | dropping memoryIds =>
      cases memoryIds with
      | nil => exact ⟨hrow, trivial⟩
      | cons id rest => exact ⟨hrow, trivial⟩
  | finished => exact ⟨hrow, trivial⟩

/-!
## Schedules
-/

/-- The memory is settled, and no thread can undo it. -/
def AllSafeguarded (mode : ForgetMode) (m : MemoryId) (appliedAt : Timestamp) (s : System F) :
    Prop :=
  RowMeets m (Settled mode appliedAt) s.world.tables ∧
    forall (j : Nat) (thread : Thread F), s.threads[j]? = some thread ->
      thread.Harmless mode m appliedAt

/-- After a hard forget everything is permitted.  After a soft forget, the memory
is not invalidated from a later instant on and not softly forgotten again. -/
def Permitted (mode : ForgetMode) (m : MemoryId) (appliedAt : Timestamp) (s : System F) :
    Move F -> Prop
  | Move.spawn op => (Thread.begin op).Harmless mode m appliedAt
  | Move.advance i => forall scope, s.threads[i]? =
      some (Thread.begin (Operation.applyForgetPolicy scope ForgetMode.soft)) ->
      mode = ForgetMode.soft -> m ∉ (buildForgetPlan s.world.tables scope).memoryIds
  | Move.plan i affected => forall scope, s.threads[i]? =
      some (Thread.begin (Operation.applyForgetPolicy scope ForgetMode.soft)) ->
      mode = ForgetMode.soft -> m ∉ affected.memoryIds

omit [Scalar F] in
theorem allSafeguarded_set {s : System F} {i : Nat} {thread : Thread F} {w : World F}
    (hothers : forall (j : Nat) (other : Thread F), j ≠ i -> s.threads[j]? = some other ->
      other.Harmless mode m appliedAt)
    (hnew : Safeguarded mode m appliedAt thread w) :
    AllSafeguarded mode m appliedAt { world := w, threads := s.threads.set i thread } := by
  refine ⟨hnew.1, ?_⟩
  intro j other hj
  rw [List.getElem?_set] at hj
  split at hj
  · split at hj
    · cases hj
      exact hnew.2
    · cases hj
  · rename_i hne
    exact hothers j other (Ne.symm hne) hj

theorem allSafeguarded_step {s : System F} {move : Move F}
    (h : AllSafeguarded mode m appliedAt s) (hmove : Permitted mode m appliedAt s move) :
    AllSafeguarded mode m appliedAt (s.step env move) := by
  have hothers : forall (i j : Nat) (other : Thread F), j ≠ i -> s.threads[j]? = some other ->
      other.Harmless mode m appliedAt := fun _ j other _ hj => h.2 j other hj
  cases move with
  | spawn op =>
      refine ⟨h.1, ?_⟩
      intro j thread hj
      rcases List.mem_append.mp (List.mem_of_getElem? hj) with hold | hnew
      · rcases List.mem_iff_getElem?.mp hold with ⟨k, hk⟩
        exact h.2 k thread hk
      · rw [List.mem_singleton.mp hnew]
        exact hmove
  | advance i =>
      simp only [System.step]
      split
      · exact h
      · rename_i thread hthread
        apply allSafeguarded_set (hothers i)
        apply Thread.safeguarded_advance ⟨h.1, h.2 i thread hthread⟩
        intro scope hbegin
        rw [hbegin] at hthread
        exact hmove scope hthread
  | plan i affected =>
      simp only [System.step]
      split
      · rename_i scope forgetMode hthread
        apply allSafeguarded_set (hothers i)
        refine ⟨h.1, ?_⟩
        cases forgetMode with
        | hard => exact trivial
        | soft => exact hmove scope hthread
      · exact h

/-- The transaction is not refused and succeeds. -/
def Commits (env : Env F) (w : World F) (tx : Tx F) : Prop :=
  env.fault w.ticks = none ∧ exists t, tx w.tables = Except.ok t

/-- Once a forget has committed while no other thread held an old copy of the
memory, the memory is forgotten in every later state. -/
theorem forgotten_in_every_schedule {s s' : System F} {i : Nat} {affected : PolicyAffected}
    (hthread : s.threads[i]? = some (Thread.planned affected mode appliedAt))
    (hm : m ∈ affected.memoryIds)
    (hcommit : Commits env s.world
      (Tables.applyForgetPolicy (forgetMutation affected mode appliedAt)))
    (hothers : forall (j : Nat) (thread : Thread F), j ≠ i -> s.threads[j]? = some thread ->
      thread.Harmless mode m appliedAt)
    {moves : List (Move F)}
    (hrun : Run (System.step env) (Permitted mode m appliedAt) (s.step env (Move.advance i))
      moves s') :
    Forgotten mode m appliedAt s'.world.tables := by
  have hafter : AllSafeguarded mode m appliedAt (s.step env (Move.advance i)) := by
    simp only [System.step, hthread]
    apply allSafeguarded_set hothers
    rcases hcommit with ⟨hfault, t, ht⟩
    simp only [Thread.advance, commit, transact, hfault, ht]
    exact ⟨settled_applyForgetPolicy hm ht, trivial⟩
  exact (hrun.invariant (fun _ _ => allSafeguarded_step) hafter).1.forgotten

end Steps

section Example

/-- One half-life after the memories of the example were accessed. -/
def weekLaterEnv : Env Rat :=
  { calmEnv CognitiveConfig.default with clock := fun _ => 604800001000 }

def staleMemory : MemoryNode Rat :=
  MemoryNode.new ⟨7⟩ 1000 AgentId.nil MemoryType.semantic "Turin" [3, 4]

/-- A decay pass and a forget of the only memory are about to start. -/
def racing (mode : ForgetMode) : System Rat where
  world := (store weekLaterEnv staleMemory emptyWorld).2
  threads := [Thread.begin Operation.applyDecayPolicyGlobal,
    Thread.begin (Operation.applyForgetPolicy (ForgetScope.memory ⟨7⟩) mode)]

def after (s : System Rat) (moves : List (Move Rat)) : System Rat :=
  moves.foldl (System.step weekLaterEnv) s

theorem forgotten_in_every_schedule_racing :
    (racing ForgetMode.hard).world.tables.memories.contains ⟨7⟩ = true ∧
      Forgotten ForgetMode.hard ⟨7⟩ 604800001000
        (after (racing ForgetMode.hard)
          [Move.advance 1, Move.advance 1, Move.advance 0, Move.advance 0]).world.tables := by
  have hthread : (after (racing ForgetMode.hard) [Move.advance 1]).threads[1]? =
      some (Thread.planned (buildForgetPlan (racing ForgetMode.hard).world.tables
        (ForgetScope.memory ⟨7⟩)) ForgetMode.hard 604800001000) := rfl
  have hm : (⟨7⟩ : MemoryId) ∈ (buildForgetPlan (racing ForgetMode.hard).world.tables
      (ForgetScope.memory ⟨7⟩)).memoryIds := by
    decide +kernel
  have hcommit : Commits weekLaterEnv (after (racing ForgetMode.hard) [Move.advance 1]).world
      (Tables.applyForgetPolicy (forgetMutation
        (buildForgetPlan (racing ForgetMode.hard).world.tables (ForgetScope.memory ⟨7⟩))
        ForgetMode.hard 604800001000)) := by
    refine ⟨rfl, ?_⟩
    cases hrun : Tables.applyForgetPolicy (forgetMutation
        (buildForgetPlan (racing ForgetMode.hard).world.tables (ForgetScope.memory ⟨7⟩))
        ForgetMode.hard 604800001000)
        (after (racing ForgetMode.hard) [Move.advance 1]).world.tables with
    | ok t => exact ⟨t, rfl⟩
    | error e =>
        have hok : (Tables.applyForgetPolicy (forgetMutation
            (buildForgetPlan (racing ForgetMode.hard).world.tables (ForgetScope.memory ⟨7⟩))
            ForgetMode.hard 604800001000)
            (after (racing ForgetMode.hard) [Move.advance 1]).world.tables).toOption.isSome
              = true := by
          decide +kernel
        rw [hrun] at hok
        cases hok
  have hothers : forall (j : Nat) (thread : Thread Rat), j ≠ 1 ->
      (after (racing ForgetMode.hard) [Move.advance 1]).threads[j]? = some thread ->
      thread.Harmless ForgetMode.hard ⟨7⟩ 604800001000 := by
    intro j thread hj hthread
    cases j with
    | zero =>
        cases hthread
        exact trivial
    | succ k =>
        cases k with
        | zero => exact absurd rfl hj
        | succ _ => cases hthread
  have hfree : forall (s : System Rat) (i : Nat),
      Permitted ForgetMode.hard ⟨7⟩ 604800001000 s (Move.advance i) := by
    intro s i scope _ hsoft
    cases hsoft
  exact ⟨by decide +kernel, forgotten_in_every_schedule hthread hm hcommit hothers
    (((Run.nil _).snoc (hfree _ 0)).snoc (hfree _ 0))⟩

/-- The decay pass has read the memory, then the forget commits. -/
def raced (mode : ForgetMode) : System Rat :=
  after (racing mode) [Move.advance 0, Move.advance 0, Move.advance 1, Move.advance 1]

/-- Two more steps write the copy of the decay pass back. -/
def resurrected (mode : ForgetMode) : System Rat :=
  after (raced mode) [Move.advance 0, Move.advance 0]

/-- A hard forget and a soft one are both undone by the copy of a decay pass. -/
theorem stale_copy_undoes_forget :
    (raced ForgetMode.hard).world.tables.memories.contains ⟨7⟩ = false ∧
      ¬ Forgotten ForgetMode.hard ⟨7⟩ 604800001000
        (resurrected ForgetMode.hard).world.tables ∧
      ((raced ForgetMode.soft).world.tables.getMemory ⟨7⟩).map MemoryNode.validUntil =
        some (some 604800001000) ∧
      ¬ Forgotten ForgetMode.soft ⟨7⟩ 604800001000
        (resurrected ForgetMode.soft).world.tables := by
  refine ⟨by decide +kernel, ?_, by decide +kernel, ?_⟩
  · intro h
    have hback : (resurrected ForgetMode.hard).world.tables.memories.contains ⟨7⟩ = true := by
      decide +kernel
    have hgone : (resurrected ForgetMode.hard).world.tables.memories.contains ⟨7⟩ = false := h
    rw [hgone] at hback
    cases hback
  · intro h
    have hback : ((resurrected ForgetMode.soft).world.tables.getMemory ⟨7⟩).map
        (fun node => node.isValidAt 604800001000) = some true := by
      decide +kernel
    rcases Option.map_eq_some_iff.mp hback with ⟨node, hnode, hvalid⟩
    have hinvalid := h node 604800001000 hnode (UInt64.le_refl _)
    rw [hinvalid] at hvalid
    cases hvalid

end Example

end Facade
end MenteDb
