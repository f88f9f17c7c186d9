import MenteDb.Facade.Ownership
import MenteDb.Server.Handlers

/-!
# Isolation of agents

The memory handlers of the REST interface ask whether a memory belongs to the
caller, and the gRPC store asks whose memory it is given.  The other handlers do
not ask.  A request leaves another agent alone when it stays away from that
agent's memories by itself, and a sequence of such requests does as well.
-/

namespace MenteDb
namespace Server

open Foundation
open Sqlite
open Facade
open Query
open Context

variable {F : Type} [Scalar F]

/-- One request, whatever its answer. -/
def step (env : Env F) (caller : Option AgentId) (w : World F) (request : Request F) :
    World F := (handle env caller request w).2

/-- The memories whose content is sent back; an error carries none. -/
def shown (env : Env F) (caller : Option AgentId) (w : World F) (request : Request F) :
    List (MemoryNode F) :=
  match (handle env caller request w).1 with
  | Except.ok response => response.contents
  | Except.error _ => []

/-- The answer carries no memory of the agent, and the agent's data stay as they are. -/
def Isolates (env : Env F) (caller : Option AgentId) (agent : AgentId) (w : World F)
    (request : Request F) : Prop :=
  (forall node, node ∈ shown env caller w request -> node.agentId ≠ agent) ∧
    Untouched agent w.tables (step env caller w request).tables

/-- The request does not reach the agent where the handler does not look: a recall
finds none of its memories, an edge does not join two of them, a forget does not
name one, and a new memory takes none of their identifiers and is not similar
enough for write inference to rewrite one. -/
def Confined (env : Env F) (caller agent : AgentId) (w : World F) : Request F -> Prop
  | Request.recallMemories plan =>
      forall id, Finds env w id plan -> memoryOf agent w.tables id = none
  | Request.grpcRecall plan =>
      forall id, Finds env w id plan -> memoryOf agent w.tables id = none
  | Request.createEdge request => ¬ JoinsOwn agent w.tables request.source request.target
  | Request.grpcRelate request => ¬ JoinsOwn agent w.tables request.source request.target
  | Request.grpcForget id => memoryOf agent w.tables id = none
  | Request.grpcStore request =>
      request.agentId = caller ->
        memoryOf agent w.tables (env.freshMemoryId w.ticks) = none ∧
        (env.config.writeInference = true ->
          SparesAll env.config.inferenceConfig agent w.tables
            (storedNode request (env.freshMemoryId w.ticks) (env.clock w.ticks)))
  | _ => True

/-!
## Handlers
-/

section Handlers

variable {env : Env F} {caller agent : AgentId} {w : World F}

/-- What a handler has to end with. -/
def Answered (agent : AgentId) (t0 : Tables F) (response : Response F) (w : World F) : Prop :=
  Spared agent t0 w ∧ forall node, node ∈ response.contents -> node.agentId ≠ agent

/-- The handler, from the given state. -/
def AnswersFrom (agent : AgentId) (w : World F) (x : Handler F (Response F)) : Prop :=
  Prog.Triple (fun s => s = w) x (Answered agent w.tables) (Spared agent w.tables)

theorem spared_self (agent : AgentId) (w : World F) : Spared agent w.tables w :=
  Untouched.refl agent w.tables

theorem spared_of_tables {s : World F} (h : s.tables = w.tables) :
    Spared agent w.tables s := by
  unfold Spared
  rw [h]
  exact Untouched.refl agent w.tables

theorem AnswersFrom.isolates {request : Request F}
    (h : AnswersFrom agent w (handle env (some caller) request)) :
    Isolates env (some caller) agent w request := by
  have hpost := h w rfl
  unfold Isolates shown step
  rcases hrun : handle env (some caller) request w with ⟨result, s⟩
  rw [hrun] at hpost
  cases result with
  | ok response => exact ⟨hpost.2, hpost.1⟩
  | error e =>
      refine ⟨?_, hpost⟩
      intro node hnode
      cases hnode

theorem triple_from {α : Type} {operation : String} {x : Op F α}
    (hx : Prog.Keeps (Spared agent w.tables) x) :
    Prog.Triple (fun s => s = w) (onDatabase operation x) (fun _ => Spared agent w.tables)
      (Spared agent w.tables) := by
  apply Prog.Triple.mapError
  refine hx.weaken ?_ (fun _ _ h => h) (fun _ h => h)
  intro s hs
  rw [hs]
  exact spared_self agent w

/-- An operation that spares the agent, answered without a memory. -/
theorem answersFrom_silently {α : Type} {operation : String} {x : Op F α}
    {response : α -> Response F} (hx : Prog.Keeps (Spared agent w.tables) x)
    (hsilent : forall a, (response a).contents = []) :
    AnswersFrom agent w (do
      let a ← onDatabase operation x
      pure (response a)) := by
  apply Prog.Triple.bind (triple_from hx)
  intro a s hs
  refine ⟨hs, ?_⟩
  intro node hnode
  rw [hsilent] at hnode
  cases hnode

theorem answers_getMemory (hne : caller ≠ agent) (id : MemoryId) :
    AnswersFrom agent w (getMemory (some caller) id) := by
  apply Prog.Triple.bind (Q := fun _ => Spared agent w.tables)
  · apply Prog.Triple.mapError
    intro s hs
    have hspared : Spared agent w.tables s := by
      rw [hs]
      exact spared_self agent w
    unfold Facade.getMemory
    cases s.tables.getMemory id with
    | none => exact hspared
    | some node => exact hspared
  · intro node
    apply Prog.triple_ite
    · intro _
      exact Prog.triple_fail
    · intro hown s hs
      refine ⟨hs, ?_⟩
      intro shown hshown
      rw [List.mem_singleton.mp hshown]
      have hcaller : node.agentId = caller := by simpa using hown
      rw [hcaller]
      exact hne

/-- A recall reads; what it shows is stored and in the reach of its plan. -/
theorem triple_recall (plan : QueryPlan F) :
    Prog.Triple (fun s => s = w) (onDatabase "recall" (recallPlan env plan))
      (fun window s => s.tables = w.tables ∧ forall sm, sm ∈ window.memories ->
        w.tables.getMemory sm.1.id = some sm.1 ∧ Finds env w sm.1.id plan)
      (fun s => s.tables = w.tables) := by
  apply Prog.Triple.mapError
  intro s hs
  subst hs
  have htables : (recallPlan env plan s).2.tables = s.tables := by
    rcases recallPlan_state env s plan with ⟨n, hn⟩
    rw [hn]
  have hshown : forall sm, sm ∈ shownByRecall env s plan ->
      s.tables.getMemory sm.1.id = some sm.1 ∧ Finds env s sm.1.id plan :=
    fun _ => mem_shownByRecall
  unfold shownByRecall at hshown
  rcases hrun : recallPlan env plan s with ⟨result, s'⟩
  rw [hrun] at htables hshown
  cases result with
  | ok window => exact ⟨htables, hshown⟩
  | error e => exact htables

theorem answers_recallMemories {plan : QueryPlan F}
    (h : forall id, Finds env w id plan -> memoryOf agent w.tables id = none) :
    AnswersFrom agent w (recallMemories env plan) := by
  apply Prog.Triple.bind
    ((triple_recall plan).weaken (fun _ hs => hs) (fun _ _ hs => hs) (fun _ => spared_of_tables))
  intro window s hs
  refine ⟨spared_of_tables hs.1, ?_⟩
  intro node hnode
  rcases List.mem_map.mp hnode with ⟨sm, hsm, heq⟩
  rw [← heq]
  rcases hs.2 sm hsm with ⟨hget, hfinds⟩
  exact agentId_ne_of_memoryOf (h _ hfinds) hget

/-- The owner check only lets a memory of the caller through. -/
theorem triple_checkDelete (hne : caller ≠ agent) (id : MemoryId) :
    Prog.Triple (fun s => s = w) (checkDelete env id (some caller))
      (fun _ s => Spared agent w.tables s ∧ memoryOf agent w.tables id = none)
      (Spared agent w.tables) := by
  apply Prog.Triple.bind ((triple_recall recallThousand).weaken (fun _ hs => hs)
    (fun _ _ hs => hs) (fun _ => spared_of_tables))
  intro window s hs
  have hspared : Spared agent w.tables s := spared_of_tables hs.1
  unfold checkOwner
  cases hfind : window.memories.find? (fun sm => decide (sm.1.id = id)) with
  | none => exact hspared
  | some sm =>
      by_cases hcaller : sm.1.agentId ≠ caller
      · simp only [if_pos hcaller]
        exact hspared
      · simp only [if_neg hcaller]
        refine ⟨hspared, ?_⟩
        have hid : sm.1.id = id := by simpa using List.find?_some hfind
        have hget := (hs.2 sm (List.mem_of_find?_eq_some hfind)).1
        rw [hid] at hget
        apply memoryOf_of_ne hget
        rw [not_not.mp hcaller]
        exact hne

theorem answers_forgetMemory (hne : caller ≠ agent) (id : MemoryId) :
    AnswersFrom agent w (forgetMemory env (some caller) id) := by
  apply Prog.Triple.bind (triple_checkDelete hne id)
  intro _ s hs
  have hforget : Prog.Triple (Spared agent w.tables)
      (do
        onDatabase "forget" (forget env id)
        pure Response.deleted)
      (Answered agent w.tables) (Spared agent w.tables) := by
    apply Prog.Triple.bind (Prog.Triple.mapError (keeps_forget_spared hs.2))
    intro _ s' hs'
    exact ⟨hs', fun _ hnode => by cases hnode⟩
  exact hforget s hs.1

theorem keeps_recallSimilar (embedding : List F) (k : Nat) :
    Prog.Keeps (Spared agent w.tables) (recallSimilar env embedding k) := by
  apply Prog.Keeps.bind (keeps_currentTimeUs viewsMemories_spared.ignoresTicks)
  intro now
  exact Prog.keeps_gets _

theorem answers_createEdge {request : EdgeRequest F}
    (h : ¬ JoinsOwn agent w.tables request.source request.target) :
    AnswersFrom agent w (createEdge env request) := by
  have hrelate : forall edge : MemoryEdge F, edge.source = request.source ->
      edge.target = request.target -> Prog.Keeps (Spared agent w.tables) (relate env edge) := by
    intro edge hsource htarget
    rw [← hsource, ← htarget] at h
    exact keeps_relate_spared h
  apply Prog.Triple.bind
    (triple_from (keeps_currentTimeUs viewsMemories_spared.ignoresTicks))
  intro now
  apply Prog.Triple.bind (Prog.Triple.mapError (hrelate _ rfl rfl))
  intro _ s hs
  exact ⟨hs, fun _ hnode => by cases hnode⟩

theorem answers_grpcStore (hne : caller ≠ agent) {request : StoreRequest F}
    (h : Confined env caller agent w (Request.grpcStore request)) :
    AnswersFrom agent w (grpcStore env (some caller) request) := by
  apply Prog.triple_ite
  · intro _ s hs
    rw [hs]
    exact spared_self agent w
  · intro hsame s hs
    subst hs
    have hcaller : caller = request.agentId := by simpa using hsame
    rcases h hcaller.symm with ⟨hfresh, hspares⟩
    have hagent : request.agentId ≠ agent := by
      rw [← hcaller]
      exact hne
    have hstore : Prog.Keeps (Spared agent s.tables)
        (store env (storedNode request (env.freshMemoryId s.ticks) (env.clock s.ticks))) :=
      keeps_store_spared hagent hfresh hspares
    have hrest : Prog.Triple (Spared agent s.tables)
        (do
          onDatabase "store"
            (store env (storedNode request (env.freshMemoryId s.ticks) (env.clock s.ticks)))
          pure (Response.stored (env.freshMemoryId s.ticks)))
        (Answered agent s.tables) (Spared agent s.tables) := by
      apply Prog.Triple.bind (Prog.Triple.mapError hstore)
      intro _ s' hs'
      exact ⟨hs', fun _ hnode => by cases hnode⟩
    -- the identifier and the clock are read before anything is written
    exact hrest { s with ticks := s.ticks + 1 } (Untouched.refl agent s.tables)

/-- A confined request of another agent leaves the agent alone. -/
theorem isolates_of_confined (hne : caller ≠ agent) {request : Request F}
    (h : Confined env caller agent w request) :
    Isolates env (some caller) agent w request := by
  apply AnswersFrom.isolates
  cases request with
  | getMemory id => exact answers_getMemory hne id
  | forgetMemory id => exact answers_forgetMemory hne id
  | recallMemories plan => exact answers_recallMemories h
  | searchSimilar embedding k =>
      exact answersFrom_silently (keeps_recallSimilar embedding _) (fun _ => rfl)
  | createEdge request => exact answers_createEdge h
  | grpcStore request => exact answers_grpcStore hne h
  | grpcRecall plan => exact answers_recallMemories h
  | grpcSearch embedding k =>
      apply Prog.triple_ite
      · intro _ s hs
        rw [hs]
        exact spared_self agent w
      · intro _
        exact answersFrom_silently (keeps_recallSimilar embedding _) (fun _ => rfl)
  | grpcForget id => exact answersFrom_silently (keeps_forget_spared h) (fun _ => rfl)
  | grpcRelate request => exact answers_createEdge h

end Handlers

/-!
## Sequences of requests
-/

theorem untouched_of_run {env : Env F} {caller agent : AgentId} {w w' : World F}
    {requests : List (Request F)}
    (hrun : Run (step env (some caller)) (Isolates env (some caller) agent) w requests w') :
    Untouched agent w.tables w'.tables := by
  refine hrun.invariant (I := Spared agent w.tables) ?_ (spared_self agent w)
  intro s request hs hisolates
  exact Untouched.trans hs hisolates.2

/-- However many confined requests one agent sends, none of the answers carries a
memory of another agent, and that agent's memories and the edges between them
stay as they are. -/
theorem isolated_of_run {env : Env F} {caller agent : AgentId} (hne : caller ≠ agent)
    {w w' : World F} {requests : List (Request F)}
    (hrun : Run (step env (some caller)) (Confined env caller agent) w requests w') :
    Run (step env (some caller)) (Isolates env (some caller) agent) w requests w' ∧
      Untouched agent w.tables w'.tables := by
  have hisolated := hrun.mono (fun _ _ => isolates_of_confined hne)
  exact ⟨hisolated, untouched_of_run hisolated⟩

section Examples

def ada : AgentId := ⟨1⟩

def bob : AgentId := ⟨2⟩

def sharedEnv : Env Rat := calmEnv CognitiveConfig.default

def turin (id : MemoryId) (agent : AgentId) (embedding : List Rat) : MemoryNode Rat :=
  MemoryNode.new id 1000 agent MemoryType.semantic "Turin" embedding

/-- Two memories of one agent and one of another. -/
def sharedWorld : World Rat :=
  let w := (store sharedEnv (turin ⟨7⟩ bob [3, 4]) emptyWorld).2
  let w := (store sharedEnv (turin ⟨8⟩ bob [4, -3]) w).2
  (store sharedEnv (turin ⟨9⟩ ada [4, -3]) w).2

def storeTurin (embedding : List Rat) : StoreRequest Rat where
  agentId := ada
  memoryType := MemoryType.semantic
  content := "Turin"
  embedding := embedding
  tags := []
  attributes := []
  spaceId := none
  salience := 0
  confidence := 0
  validFrom := none
  validUntil := none

def edgeBetween (source target : MemoryId) : EdgeRequest Rat where
  source := source
  target := target
  edgeType := EdgeType.related
  weight := none
  validFrom := none
  validUntil := none
  label := none

/-- Requests that stay with the caller's own memory and its edges. -/
def adaRequests : List (Request Rat) :=
  [Request.grpcStore (storeTurin [-4, 3]), Request.getMemory ⟨7⟩,
    Request.createEdge (edgeBetween ⟨9⟩ ⟨7⟩), Request.grpcRecall (QueryPlan.pointLookup ⟨9⟩),
    Request.grpcForget ⟨9⟩]

theorem turin_spares : SparesAll sharedEnv.config.inferenceConfig bob sharedWorld.tables
    (storedNode (storeTurin [-4, 3]) (sharedEnv.freshMemoryId sharedWorld.ticks)
      (sharedEnv.clock sharedWorld.ticks)) := by
  have hall : forall id, id ∈ sharedWorld.tables.allMemoryIds ->
      (memoryOf bob sharedWorld.tables id).all (fun existing =>
        decide (Spares sharedEnv.config.inferenceConfig
          (storedNode (storeTurin [-4, 3]) (sharedEnv.freshMemoryId sharedWorld.ticks)
            (sharedEnv.clock sharedWorld.ticks)) existing)) = true := by decide +kernel
  intro id existing hown
  have hstored := Tables.contains_of_getMemory (memoryOf_eq_some.mp hown).1
  have hspares := hall id (MemoryTable.mem_ids.mpr hstored)
  rw [hown] at hspares
  exact of_decide_eq_true hspares

theorem isolated_of_run_shared :
    JoinsOwn bob sharedWorld.tables ⟨7⟩ ⟨8⟩ ∧
      Untouched bob sharedWorld.tables
        (adaRequests.foldl (step sharedEnv (some ada)) sharedWorld).tables := by
  have hrun : Run (step sharedEnv (some ada)) (Confined sharedEnv ada bob) sharedWorld
      adaRequests (adaRequests.foldl (step sharedEnv (some ada)) sharedWorld) := by
    have h0 : Run (step sharedEnv (some ada)) (Confined sharedEnv ada bob) sharedWorld []
        sharedWorld := Run.nil _
    have h1 := h0.snoc (i := Request.grpcStore (storeTurin [-4, 3]))
      (fun _ => ⟨Option.isNone_iff_eq_none.mp (by decide +kernel), fun _ => turin_spares⟩)
    have h2 := h1.snoc (i := Request.getMemory ⟨7⟩) trivial
    have h3 := h2.snoc (i := Request.createEdge (edgeBetween ⟨9⟩ ⟨7⟩)) (by
      show ¬ JoinsOwn _ _ _ _
      decide +kernel)
    have h4 := h3.snoc (i := Request.grpcRecall (QueryPlan.pointLookup ⟨9⟩)) (by
      intro id hid
      have hnine : id = ⟨9⟩ := hid
      rw [hnine]
      exact Option.isNone_iff_eq_none.mp (by decide +kernel))
    exact h4.snoc (i := Request.grpcForget ⟨9⟩)
      (Option.isNone_iff_eq_none.mp (by decide +kernel))
  exact ⟨by decide +kernel, (isolated_of_run (by decide) hrun).2⟩

/-- The caller forgets a memory of the other agent, reads its memories, joins two
of them, and invalidates one by storing a similar memory of its own. -/
theorem other_agent_is_reached :
    ¬ Isolates sharedEnv (some ada) bob sharedWorld (Request.grpcForget ⟨7⟩) ∧
      ¬ Isolates sharedEnv (some ada) bob sharedWorld
        (Request.recallMemories (QueryPlan.vectorSearch [3, 4] 5 [])) ∧
      ¬ Isolates sharedEnv (some ada) bob sharedWorld
        (Request.createEdge (edgeBetween ⟨7⟩ ⟨8⟩)) ∧
      ¬ Isolates sharedEnv (some ada) bob sharedWorld (Request.grpcStore (storeTurin [3, 4])) := by
  refine ⟨?_, ?_, ?_, ?_⟩
  · intro h
    have hsame := congrArg Option.isSome (h.2.memories ⟨7⟩)
    revert hsame
    decide +kernel
  · intro h
    have hshown : bob ∈ (shown sharedEnv (some ada) sharedWorld
        (Request.recallMemories (QueryPlan.vectorSearch [3, 4] 5 []))).map MemoryNode.agentId := by
      decide +kernel
    rcases List.mem_map.mp hshown with ⟨node, hnode, hbob⟩
    exact h.1 node hnode hbob
  · intro h
    have hsame := h.2.edges (Tables.rowOfEdge (inferredEdge (sharedEnv.clock sharedWorld.ticks)
      ⟨7⟩ ⟨8⟩ EdgeType.related 1 none)) (by decide +kernel)
    revert hsame
    decide +kernel
  · intro h
    have hsame := congrArg (Option.map MemoryNode.validUntil) (h.2.memories ⟨7⟩)
    revert hsame
    decide +kernel

end Examples

end Server
end MenteDb
