import MenteDb.Facade.Execute

/-!
# What a client is shown

A conversation turn is answered from the speculative cache if an entry resembles
the message, and otherwise from hybrid recall together with the memories that
are always in scope.  A vector query is answered from the vector index.  Only
hybrid recall asks whether a memory is visible at that instant.
-/

namespace MenteDb
namespace Facade

open Foundation
open Sqlite
open MenteDb.Graph
open Cognitive
open Query
open Context

variable {F : Type}

section Retrieval

variable [Scalar F]

/-!
## The context of a turn
-/

def trySpeculativeHit (env : Env F) (query : String) (queryEmbedding : List F) :
    Op F (Option (CacheEntry F)) := fun w =>
  if env.config.speculativeCache then
    let hit := w.speculative.tryHit env.text (env.clock w.ticks) query (some queryEmbedding)
    (Except.ok hit.1, { w with speculative := hit.2, ticks := w.ticks + 1 })
  else (Except.ok none, w)

/-- Fill the cache for predicted topics. -/
def preAssembleSpeculative (env : Env F) (predictions : List String)
    (builder : String -> Option (String × List MemoryId × Option (List F))) : Op F Unit :=
  fun w =>
    if env.config.speculativeCache then
      (Except.ok (), { w with
        speculative := w.speculative.preAssemble (env.clock w.ticks) predictions builder
        ticks := w.ticks + 1 })
    else (Except.ok (), w)

/-- The memories of a cache entry that are still stored. -/
def cachedMemories (t : Tables F) (entry : CacheEntry F) : List (ScoredMemory F) :=
  entry.memoryIds.filterMap (fun id => (t.getMemory id).map (fun m => (m, ratio 9 10)))

def recalledMemories (env : Env F) (w : World F) (message : String) (queryEmbedding : List F)
    (now : Timestamp) : List (ScoredMemory F) :=
  (openRecall env w queryEmbedding (some message) 10 now).filterMap (fun hit =>
    (w.tables.getMemory hit.1).map (fun m => (m, hit.2)))

omit [Scalar F] in
def alwaysInScope (m : MemoryNode F) : Bool := decide ("scope:always" ∈ m.tags)

/-- The memories always in scope that are not among the recalled ones. -/
def scopedMemories (t : Tables F) (recalled : List (ScoredMemory F)) : List (ScoredMemory F) :=
  (t.allMemories.filter (fun m =>
    alwaysInScope m && !decide (m.id ∈ recalled.map (fun sm => sm.1.id)))).map
      (fun m => (m, ratio 85 100))

/-- What hybrid recall and the memories always in scope give at an instant. -/
def hybridMemories (env : Env F) (w : World F) (message : String) (queryEmbedding : List F)
    (now : Timestamp) : List (ScoredMemory F) :=
  recalledMemories env w message queryEmbedding now
    ++ scopedMemories w.tables (recalledMemories env w message queryEmbedding now)

/-- The memories of a turn, their ids, and whether the cache answered. -/
structure TurnContext (F : Type) where
  scored : List (ScoredMemory F)
  ids : List MemoryId
  cacheHit : Bool

omit [Scalar F] in
def TurnContext.of (scored : List (ScoredMemory F)) (cacheHit : Bool) : TurnContext F where
  scored := scored
  ids := scored.map (fun sm => sm.1.id)
  cacheHit := cacheHit

def hybridContext (env : Env F) (message : String) (queryEmbedding : List F) :
    Op F (TurnContext F) := do
  let now ← currentTimeUs env
  let recalled ← Prog.gets (fun w => recalledMemories env w message queryEmbedding now)
  let always ← Prog.gets (fun w => scopedMemories w.tables recalled)
  pure (TurnContext.of (recalled ++ always) false)

/-- A cache entry answers if at least half of its memories are still stored. -/
def contextFromHit (env : Env F) (message : String) (queryEmbedding : List F) :
    Option (CacheEntry F) -> Op F (TurnContext F)
  | none => hybridContext env message queryEmbedding
  | some entry => do
      let matched ← Prog.gets (fun w => cachedMemories w.tables entry)
      if entry.memoryIds.length / 2 <= matched.length then pure (TurnContext.of matched true)
      else hybridContext env message queryEmbedding

def retrieveContext (env : Env F) (message : String) (queryEmbedding : List F) :
    Op F (TurnContext F) := do
  let hit ← trySpeculativeHit env message queryEmbedding
  contextFromHit env message queryEmbedding hit

end Retrieval

/-!
## Visibility

The predicate that hybrid recall enforces.
-/

structure Visible (w : World F) (at_ : Timestamp) (id : MemoryId) : Prop where
  node : exists node, w.tables.getMemory id = some node ∧ node.isValidAt at_ = true ∧
    "archived" ∉ node.tags
  unsuperseded : Unsuperseded w.graph at_ id

theorem visible_of_getMemory {w : World F} {at_ : Timestamp} {id : MemoryId}
    {node : MemoryNode F} (hnode : w.tables.getMemory id = some node)
    (hvalid : node.isValidAt at_ = true) (harchived : "archived" ∉ node.tags)
    (hunhidden : hasActiveSupersede w.graph id at_ = false) : Visible w at_ id :=
  ⟨⟨node, hnode, hvalid, harchived⟩, hasActiveSupersede_eq_false_iff.mp hunhidden⟩

theorem Visible.not_of_invalid {w : World F} {at_ : Timestamp} {id : MemoryId}
    {node : MemoryNode F} (hnode : w.tables.getMemory id = some node)
    (h : node.isValidAt at_ = false) : ¬ Visible w at_ id := by
  intro hvisible
  rcases hvisible.node with ⟨stored, hstored, hvalid, _⟩
  rw [hnode] at hstored
  cases hstored
  rw [h] at hvalid
  cases hvalid

section Serving

variable [Scalar F]

theorem visible_of_mem_recalledMemories {env : Env F} {w : World F} {message : String}
    {queryEmbedding : List F} {now : Timestamp} {sm : ScoredMemory F}
    (h : sm ∈ recalledMemories env w message queryEmbedding now) : Visible w now sm.1.id := by
  rcases List.mem_filterMap.mp h with ⟨hit, hhit, hload⟩
  rcases Option.map_eq_some_iff.mp hload with ⟨node, hnode, heq⟩
  rcases visible_of_mem_recall
    (q := { at_ := now, tags := none, tagsOr := false, timeRange := none })
    (recallHybridAt_open ..) hhit with ⟨hunsuperseded, stored, hstored, hvalid, harchived⟩
  subst heq
  rw [Tables.getMemory_id hnode]
  refine ⟨⟨stored, hstored, hvalid, ?_⟩, hunsuperseded⟩
  intro hin
  rcases harchived hin with ⟨ts, hts, _⟩
  cases hts

theorem getMemory_of_mem_cachedMemories {t : Tables F} {entry : CacheEntry F}
    {sm : ScoredMemory F} (h : sm ∈ cachedMemories t entry) :
    sm.1.id ∈ entry.memoryIds ∧ t.getMemory sm.1.id = some sm.1 := by
  rcases List.mem_filterMap.mp h with ⟨id, hid, hload⟩
  rcases Option.map_eq_some_iff.mp hload with ⟨node, hnode, heq⟩
  subst heq
  rw [Tables.getMemory_id hnode]
  exact ⟨hid, hnode⟩

/-- All the given memories are visible. -/
def AllVisible (w : World F) (at_ : Timestamp) (scored : List (ScoredMemory F)) : Prop :=
  forall sm, sm ∈ scored -> Visible w at_ sm.1.id

/-- Cached memories are visible exactly if every stored memory of the entry is. -/
theorem allVisible_cachedMemories {w : World F} {at_ : Timestamp} {entry : CacheEntry F} :
    AllVisible w at_ (cachedMemories w.tables entry) <->
      forall id, id ∈ entry.memoryIds -> w.tables.memories.contains id = true ->
        Visible w at_ id := by
  constructor
  · intro h id hid hstored
    rw [MemoryTable.contains_eq] at hstored
    rcases Option.isSome_iff_exists.mp hstored with ⟨row, hrow⟩
    have hget : w.tables.getMemory id =
        some (Tables.nodeOfRow id row (w.tables.tagsOf id)) := by
      simp [Tables.getMemory, hrow]
    exact h (Tables.nodeOfRow id row (w.tables.tagsOf id), ratio 9 10)
      (List.mem_filterMap.mpr ⟨id, hid, by rw [hget]; rfl⟩)
  · intro h sm hsm
    rcases getMemory_of_mem_cachedMemories hsm with ⟨hid, hget⟩
    refine h sm.1.id hid ?_
    rw [MemoryTable.contains_eq]
    rcases Option.map_eq_some_iff.mp hget with ⟨row, hrow, _⟩
    rw [hrow]
    rfl

/-- Recalled memories are visible, so only those always in scope matter. -/
theorem allVisible_hybrid (env : Env F) (w : World F) (message : String)
    (queryEmbedding : List F) (now : Timestamp) :
    AllVisible w now (hybridMemories env w message queryEmbedding now) <->
      forall m, m ∈ w.tables.allMemories -> "scope:always" ∈ m.tags -> Visible w now m.id := by
  constructor
  · intro h m hm hscope
    by_cases hin : m.id ∈ (recalledMemories env w message queryEmbedding now).map
        (fun sm => sm.1.id)
    · rcases List.mem_map.mp hin with ⟨sm, hsm, hid⟩
      rw [← hid]
      exact visible_of_mem_recalledMemories hsm
    · refine h (m, ratio 85 100) (List.mem_append_right _ (List.mem_map.mpr ⟨m, ?_, rfl⟩))
      rw [List.mem_filter]
      exact ⟨hm, by simpa [alwaysInScope, hscope] using hin⟩
  · intro h sm hsm
    cases List.mem_append.mp hsm with
    | inl hrecalled => exact visible_of_mem_recalledMemories hrecalled
    | inr hscoped =>
        rcases List.mem_map.mp hscoped with ⟨m, hm, heq⟩
        rw [List.mem_filter] at hm
        subst heq
        have hscope : alwaysInScope m = true := (Bool.and_eq_true_iff.mp hm.2).1
        exact h m hm.1 (by simpa [alwaysInScope] using hscope)

/-!
## Requests

The instant of a turn is the last reading of the clock that its retrieval makes.
-/

/-- An entry of the cache answers the turn. -/
def CacheAnswers (env : Env F) (w : World F) (message : String) (queryEmbedding : List F)
    (entry : CacheEntry F) : Prop :=
  env.config.speculativeCache = true ∧
    (w.speculative.tryHit env.text (env.clock w.ticks) message (some queryEmbedding)).1
      = some entry ∧
    entry.memoryIds.length / 2 <= (cachedMemories w.tables entry).length

def turnInstant (env : Env F) (w : World F) (message : String) (queryEmbedding : List F) :
    Timestamp :=
  env.clock ((retrieveContext env message queryEmbedding w).2.ticks - 1)

theorem hybridContext_eq (env : Env F) (w : World F) (message : String)
    (queryEmbedding : List F) :
    hybridContext env message queryEmbedding w =
      (Except.ok (TurnContext.of
          (hybridMemories env w message queryEmbedding (env.clock w.ticks)) false),
        { w with ticks := w.ticks + 1 }) := rfl

theorem retrieveContext_eq {env : Env F} {w w' : World F} {message : String}
    {queryEmbedding : List F} {hit : Option (CacheEntry F)}
    (h : trySpeculativeHit env message queryEmbedding w = (Except.ok hit, w')) :
    retrieveContext env message queryEmbedding w =
      contextFromHit env message queryEmbedding hit w' := by
  show Prog.bind (trySpeculativeHit env message queryEmbedding) _ w = _
  unfold Prog.bind
  rw [h]

theorem contextFromHit_some (env : Env F) (w : World F) (message : String)
    (queryEmbedding : List F) (entry : CacheEntry F) :
    contextFromHit env message queryEmbedding (some entry) w =
      if entry.memoryIds.length / 2 <= (cachedMemories w.tables entry).length then
        (Except.ok (TurnContext.of (cachedMemories w.tables entry) true), w)
      else hybridContext env message queryEmbedding w := by
  show (if _ then _ else _ : Op F (TurnContext F)) w = _
  split
  · rfl
  · rfl

/-- Asking the cache changes no table and no edge. -/
theorem trySpeculativeHit_spec (env : Env F) (w : World F) (message : String)
    (queryEmbedding : List F) :
    exists hit w', trySpeculativeHit env message queryEmbedding w = (Except.ok hit, w') ∧
      w'.tables = w.tables ∧ w'.graph = w.graph ∧
      forall entry, hit = some entry <-> env.config.speculativeCache = true ∧
        (w.speculative.tryHit env.text (env.clock w.ticks) message (some queryEmbedding)).1
          = some entry := by
  unfold trySpeculativeHit
  cases hconfig : env.config.speculativeCache with
  | true => exact ⟨_, _, rfl, rfl, rfl, fun entry => by simp⟩
  | false => exact ⟨_, _, rfl, rfl, rfl, fun entry => by simp⟩

/-- Who answers a turn. -/
theorem retrieveContext_cases (env : Env F) (w : World F) (message : String)
    (queryEmbedding : List F) :
    (exists entry, CacheAnswers env w message queryEmbedding entry ∧
      (retrieveContext env message queryEmbedding w).1 =
        Except.ok (TurnContext.of (cachedMemories w.tables entry) true)) ∨
    ((forall entry, ¬ CacheAnswers env w message queryEmbedding entry) ∧
      exists w', w'.tables = w.tables ∧ w'.graph = w.graph ∧
        (retrieveContext env message queryEmbedding w).1 =
          Except.ok (TurnContext.of (hybridMemories env w' message queryEmbedding
            (turnInstant env w message queryEmbedding)) false)) := by
  rcases trySpeculativeHit_spec env w message queryEmbedding with
    ⟨hit, w', hasked, htables, hgraph, hhit⟩
  have heq := retrieveContext_eq hasked
  have hhybrid : contextFromHit env message queryEmbedding hit w' =
      hybridContext env message queryEmbedding w' ->
      (retrieveContext env message queryEmbedding w).1 =
        Except.ok (TurnContext.of (hybridMemories env w' message queryEmbedding
          (turnInstant env w message queryEmbedding)) false) := by
    intro h
    unfold turnInstant
    rw [heq, h, hybridContext_eq]
    rfl
  cases hit with
  | none =>
      refine Or.inr ⟨?_, w', htables, hgraph, hhybrid rfl⟩
      intro entry hentry
      cases (hhit entry).mpr ⟨hentry.1, hentry.2.1⟩
  | some entry =>
      have hfound := (hhit entry).mp rfl
      rw [contextFromHit_some, htables] at heq hhybrid
      by_cases hhalf : entry.memoryIds.length / 2 <= (cachedMemories w.tables entry).length
      · rw [if_pos hhalf] at heq
        exact Or.inl ⟨entry, ⟨hfound.1, hfound.2, hhalf⟩, by rw [heq]⟩
      · refine Or.inr ⟨?_, w', htables, hgraph, hhybrid (if_neg hhalf)⟩
        intro other hother
        cases (hhit other).mpr ⟨hother.1, hother.2.1⟩
        exact hhalf hother.2.2

/-- The memories a turn shows. -/
def shownInTurn (env : Env F) (w : World F) (message : String) (queryEmbedding : List F) :
    List (ScoredMemory F) :=
  match (retrieveContext env message queryEmbedding w).1 with
  | Except.ok context => context.scored
  | Except.error _ => []

/-- If the cache answers, the stored memories of the entry have to be visible;
otherwise those always in scope. -/
structure TurnSafe (env : Env F) (w : World F) (message : String) (queryEmbedding : List F) :
    Prop where
  cached : forall entry, CacheAnswers env w message queryEmbedding entry ->
    forall id, id ∈ entry.memoryIds -> w.tables.memories.contains id = true ->
      Visible w (turnInstant env w message queryEmbedding) id
  always : (forall entry, ¬ CacheAnswers env w message queryEmbedding entry) ->
    forall m, m ∈ w.tables.allMemories -> "scope:always" ∈ m.tags ->
      Visible w (turnInstant env w message queryEmbedding) m.id

omit [Scalar F] in
theorem visible_congr {w w' : World F} (htables : w'.tables = w.tables)
    (hgraph : w'.graph = w.graph) {at_ : Timestamp} {id : MemoryId} :
    Visible w' at_ id <-> Visible w at_ id := by
  constructor
  · intro h
    rcases h with ⟨hnode, hunsuperseded⟩
    rw [htables] at hnode
    rw [hgraph] at hunsuperseded
    exact ⟨hnode, hunsuperseded⟩
  · intro h
    rcases h with ⟨hnode, hunsuperseded⟩
    rw [← htables] at hnode
    rw [← hgraph] at hunsuperseded
    exact ⟨hnode, hunsuperseded⟩

/-- A turn shows only visible memories exactly if it is safe. -/
theorem allVisible_shownInTurn (env : Env F) (w : World F) (message : String)
    (queryEmbedding : List F) :
    AllVisible w (turnInstant env w message queryEmbedding)
        (shownInTurn env w message queryEmbedding) <->
      TurnSafe env w message queryEmbedding := by
  unfold shownInTurn
  rcases retrieveContext_cases env w message queryEmbedding with
    ⟨entry, hanswers, hresult⟩ | ⟨hnone, w', htables, hgraph, hresult⟩
  · rw [hresult]
    show AllVisible w _ (cachedMemories w.tables entry) <-> _
    rw [allVisible_cachedMemories]
    constructor
    · intro h
      refine ⟨?_, fun hnone => absurd hanswers (hnone entry)⟩
      intro other hother
      have hsame := hother.2.1
      rw [hanswers.2.1] at hsame
      cases hsame
      exact h
    · intro h
      exact h.cached entry hanswers
  · rw [hresult]
    have hshown := allVisible_hybrid env w' message queryEmbedding
      (turnInstant env w message queryEmbedding)
    unfold AllVisible at hshown ⊢
    simp only [visible_congr htables hgraph, htables] at hshown
    constructor
    · intro h
      exact ⟨fun entry hentry => absurd hentry (hnone entry), fun _ => hshown.mp h⟩
    · intro h
      exact hshown.mpr (h.always hnone)

/-!
## Runs

Between two requests anything may happen to the database.
-/

inductive Action (F : Type) where
  | operate (op : Op F Unit)
  | turn (message : String) (queryEmbedding : List F)
  | vectorSearch (query : List F) (k : Nat) (filters : List (Query.Filter F))

namespace Action

def step (env : Env F) (w : World F) : Action F -> World F
  | Action.operate op => (op w).2
  | Action.turn message queryEmbedding => (retrieveContext env message queryEmbedding w).2
  | Action.vectorSearch query k filters =>
      (recallPlan env (QueryPlan.vectorSearch query k filters) w).2

/-- Everything the action shows is visible at the instant of the request. -/
def ShowsVisible (env : Env F) (w : World F) : Action F -> Prop
  | Action.operate _ => True
  | Action.turn message queryEmbedding =>
      AllVisible w (turnInstant env w message queryEmbedding)
        (shownInTurn env w message queryEmbedding)
  | Action.vectorSearch query k filters =>
      AllVisible w (env.clock w.ticks)
        (shownByRecall env w (QueryPlan.vectorSearch query k filters))

/-- What has to be visible before the action. -/
def Safe (env : Env F) (w : World F) : Action F -> Prop
  | Action.operate _ => True
  | Action.turn message queryEmbedding => TurnSafe env w message queryEmbedding
  | Action.vectorSearch query k _ =>
      forall id, id ∈ w.tables.knn env.rankers w.embeddingDim query
        (fetchK w.retrievalConfig k) -> Visible w (env.clock w.ticks) id

theorem Safe.showsVisible {env : Env F} {w : World F} {a : Action F} (h : a.Safe env w) :
    a.ShowsVisible env w := by
  cases a with
  | operate op => exact trivial
  | turn message queryEmbedding => exact (allVisible_shownInTurn env w _ _).mpr h
  | vectorSearch query k filters =>
      intro sm hsm
      exact h sm.1.id (mem_shownByRecall hsm).2

end Action

/-- In every run whose requests are safe, everything shown is visible when it is
shown; for turns the condition is also necessary. -/
theorem shown_visible_of_run {env : Env F} {w0 w : World F} {actions : List (Action F)}
    (hrun : Run (Action.step env) (fun s a => a.Safe env s) w0 actions w) :
    Run (Action.step env) (fun s a => a.ShowsVisible env s) w0 actions w ∧
      forall message queryEmbedding,
        (Action.turn message queryEmbedding).ShowsVisible env w <->
          (Action.turn message queryEmbedding).Safe env w := by
  refine ⟨hrun.mono (fun _ _ h => h.showsVisible), ?_⟩
  intro message queryEmbedding
  exact allVisible_shownInTurn env w message queryEmbedding

end Serving

section Example

/-- Entities of a query are not looked up. -/
def plainEnv : Env Rat :=
  calmEnv { CognitiveConfig.default with
    entityExtractionConfig := { EntityExtractionConfig.default with recallEnabled := false } }

def pinnedMemory : MemoryNode Rat :=
  { MemoryNode.new ⟨7⟩ 1000 AgentId.nil MemoryType.semantic "Turin" [3, 4] with
    tags := ["scope:always"] }

def pinnedWorld : World Rat := (store plainEnv pinnedMemory emptyWorld).2

theorem shown_visible_of_run_pinned :
    (shownInTurn plainEnv pinnedWorld "hi" [3, 4]).map (fun sm => sm.1.id) = [⟨7⟩] ∧
      Run (Action.step plainEnv) (fun s a => a.ShowsVisible plainEnv s) pinnedWorld
        [Action.turn "hi" [3, 4]]
        (Action.step plainEnv pinnedWorld (Action.turn "hi" [3, 4])) := by
  have hmiss : (pinnedWorld.speculative.tryHit plainEnv.text (plainEnv.clock pinnedWorld.ticks)
      "hi" (some [3, 4])).1 = none := by
    decide +kernel
  have hall : pinnedWorld.tables.allMemories = [pinnedMemory] := by decide +kernel
  have hsafe : (Action.turn "hi" [3, 4]).Safe plainEnv pinnedWorld := by
    constructor
    · intro entry hentry
      rw [hentry.2.1] at hmiss
      cases hmiss
    · intro _ m hm _
      rw [hall] at hm
      rw [List.mem_singleton.mp hm]
      have hstored : pinnedWorld.tables.getMemory ⟨7⟩ = some pinnedMemory := by decide +kernel
      exact visible_of_getMemory hstored (by decide +kernel) (by decide) (by decide +kernel)
  exact ⟨by decide +kernel, (shown_visible_of_run ((Run.nil pinnedWorld).snoc hsafe)).1⟩

/-- The pinned memory is invalidated. -/
def retiredWorld : World Rat := (invalidateMemory plainEnv ⟨7⟩ 1001 pinnedWorld).2

/-- An unpinned memory is cached for a topic and invalidated afterwards. -/
def cachedWorld : World Rat :=
  [Action.operate (store plainEnv { pinnedMemory with tags := [] }),
    Action.operate (preAssembleSpeculative plainEnv ["turin"]
      (fun _ => some ("Turin", [⟨7⟩], some [3, 4]))),
    Action.operate (invalidateMemory plainEnv ⟨7⟩ 1001)].foldl (Action.step plainEnv) emptyWorld

/-- A memory that has ended is not visible, so it should not be shown. -/
theorem not_allVisible_of_ended (id : MemoryId) {w : World Rat} {at_ : Timestamp}
    {scored : List (ScoredMemory Rat)}
    (hshown : id ∈ scored.map (fun sm => sm.1.id))
    (hended : (w.tables.getMemory id).map (fun m => m.isValidAt at_) = some false) :
    ¬ AllVisible w at_ scored := by
  intro h
  rcases List.mem_map.mp hshown with ⟨sm, hsm, hid⟩
  rcases Option.map_eq_some_iff.mp hended with ⟨node, hnode, hinvalid⟩
  have hvisible := h sm hsm
  rw [hid] at hvisible
  exact Visible.not_of_invalid hnode hinvalid hvisible

/-- A memory that is not valid any more is shown as always in scope, by a vector
query, and from the cache. -/
theorem retired_memory_is_shown :
    ¬ (Action.turn "hi" [3, 4]).ShowsVisible plainEnv retiredWorld ∧
      ¬ (Action.vectorSearch [3, 4] 5 []).ShowsVisible plainEnv retiredWorld ∧
      ¬ (Action.turn "turin" [3, 4]).ShowsVisible plainEnv cachedWorld := by
  refine ⟨?_, ?_, ?_⟩
  · exact not_allVisible_of_ended ⟨7⟩ (by decide +kernel) (by decide +kernel)
  · exact not_allVisible_of_ended ⟨7⟩ (by decide +kernel) (by decide +kernel)
  · exact not_allVisible_of_ended ⟨7⟩ (by decide +kernel) (by decide +kernel)

end Example

end Facade
end MenteDb
