import MenteDb.Context.Assembler
import MenteDb.Facade.Write
import MenteDb.Graph.Traversal
import MenteDb.Query.Plan

/-!
# Executing plans

A recall runs the plan of its query and packs what it finds into a context
window.  Neither asks whether a memory is visible, or whose it is.
-/

namespace MenteDb
namespace Facade

open Foundation
open Sqlite
open MenteDb.Graph
open Query
open Consolidation
open Context

variable {F : Type}

section Execution

variable [Scalar F]

/-- Search similarity blended with the salience the memory has now. -/
def blendedScore (env : Env F) (now : Timestamp) (node : MemoryNode F) (score : F) : F :=
  score * ratio 7 10
    + computeDecay env.config.decayConfig node.salience node.accessedAt node.accessCount now
      * ratio 3 10

def loadScoredMemories (env : Env F) (hits : List (MemoryId × F)) :
    Op F (List (ScoredMemory F)) :=
  if env.config.decayOnRecall then do
    let now ← currentTimeUs env
    Prog.gets (fun w => rank (env.hashOrder.order (hits.filterMap (fun hit =>
      (w.tables.getMemory hit.1).map (fun node => (node, blendedScore env now node hit.2))))))
  else
    Prog.gets (fun w => hits.filterMap (fun hit =>
      (w.tables.getMemory hit.1).map (fun node => (node, hit.2))))

def searchAndLoad (env : Env F) (query : List F) (tags : Option (List String))
    (timeRange : Option (Timestamp × Timestamp)) (k : Nat) : Op F (List (ScoredMemory F)) := do
  let searched ← Prog.gets (fun w => w.tables.hybridSearch env.rankers env.hashOrder
    w.retrievalConfig w.embeddingDim query tags timeRange k)
  match searched with
  | Except.error e => Prog.fail e
  | Except.ok hits => loadScoredMemories env hits

/-- Filters and edge types of a plan are not consulted; plans that write are not
executed here. -/
def executePlan (env : Env F) : QueryPlan F -> Op F (List (ScoredMemory F))
  | QueryPlan.vectorSearch query k _ => searchAndLoad env query none none k
  | QueryPlan.tagScan tags _ limit => searchAndLoad env [] (some tags) none (limit.getD 10)
  | QueryPlan.temporalScan start stop _ => searchAndLoad env [] none (some (start, stop)) 100
  | QueryPlan.graphTraversal start depth _ =>
      Prog.gets (fun w => (extractSubgraph w.graph start depth).1.filterMap (fun id =>
        (w.tables.getMemory id).map (fun node => (node, 1))))
  | QueryPlan.pointLookup id => do
      let node ← getMemory id
      pure [(node, 1)]
  | _ => pure []

/-- Recall of a query, given the plan that the parser makes of it. -/
def recallPlan (env : Env F) (plan : QueryPlan F) : Op F (ContextWindow F) := do
  let scored ← executePlan env plan
  pure (assemble env.text scored [] AssemblyConfig.default)

/-!
## What a plan finds
-/

/-- The memories in the reach of a plan.  Scans search with an empty embedding,
which finds nothing. -/
def Finds (env : Env F) (w : World F) (id : MemoryId) : QueryPlan F -> Prop
  | QueryPlan.vectorSearch query k _ =>
      id ∈ w.tables.knn env.rankers w.embeddingDim query (fetchK w.retrievalConfig k)
  | QueryPlan.graphTraversal start depth _ => exists n, n <= depth ∧ Walk w.graph start n id
  | QueryPlan.pointLookup target => id = target
  | _ => False

/-- The result of a plan: stored memories in its reach; nothing but the clock
counter changes. -/
def Found (env : Env F) (w : World F) (plan : QueryPlan F) (x : Except MenteError
    (List (ScoredMemory F)) × World F) : Prop :=
  (exists n, x.2 = { w with ticks := n }) ∧
    forall scored, x.1 = Except.ok scored -> forall sm, sm ∈ scored ->
      w.tables.getMemory sm.1.id = some sm.1 ∧ Finds env w sm.1.id plan

omit [Scalar F] in
theorem getMemory_of_loaded {t : Tables F} {hits : List (MemoryId × F)}
    {s : MemoryNode F -> F -> F} {sm : ScoredMemory F}
    (h : sm ∈ hits.filterMap (fun hit =>
      (t.getMemory hit.1).map (fun node => (node, s node hit.2)))) :
    t.getMemory sm.1.id = some sm.1 ∧ sm.1.id ∈ hits.map Prod.fst := by
  rcases List.mem_filterMap.mp h with ⟨hit, hhit, hload⟩
  rcases Option.map_eq_some_iff.mp hload with ⟨node, hnode, heq⟩
  subst heq
  have hid : node.id = hit.1 := Tables.getMemory_id hnode
  show t.getMemory node.id = some node ∧ node.id ∈ hits.map Prod.fst
  rw [hid]
  exact ⟨hnode, List.mem_map_of_mem hhit⟩

theorem found_loadScoredMemories {env : Env F} {w : World F} {plan : QueryPlan F}
    {hits : List (MemoryId × F)}
    (hfinds : forall id, id ∈ hits.map Prod.fst -> Finds env w id plan) :
    Found env w plan (loadScoredMemories env hits w) := by
  unfold loadScoredMemories
  cases env.config.decayOnRecall with
  | true =>
      refine ⟨⟨w.ticks + 1, rfl⟩, ?_⟩
      intro scored hscored sm hsm
      cases hscored
      rw [mem_rank, HashOrder.mem_order] at hsm
      have hloaded := getMemory_of_loaded (t := w.tables) hsm
      exact ⟨hloaded.1, hfinds _ hloaded.2⟩
  | false =>
      refine ⟨⟨w.ticks, rfl⟩, ?_⟩
      intro scored hscored sm hsm
      cases hscored
      have hloaded := getMemory_of_loaded (s := fun _ score => score) hsm
      exact ⟨hloaded.1, hfinds _ hloaded.2⟩

theorem found_searchAndLoad {env : Env F} {w : World F} {plan : QueryPlan F} {query : List F}
    {tags : Option (List String)} {timeRange : Option (Timestamp × Timestamp)} {k : Nat}
    (hhits : forall hits, w.tables.hybridSearch env.rankers env.hashOrder w.retrievalConfig
      w.embeddingDim query tags timeRange k = Except.ok hits ->
        forall hit, hit ∈ hits -> Finds env w hit.1 plan) :
    Found env w plan (searchAndLoad env query tags timeRange k w) := by
  show Found env w plan ((match w.tables.hybridSearch env.rankers env.hashOrder w.retrievalConfig
    w.embeddingDim query tags timeRange k with
    | Except.error e => Prog.fail e
    | Except.ok hits => loadScoredMemories env hits) w)
  cases hsearch : w.tables.hybridSearch env.rankers env.hashOrder w.retrievalConfig
    w.embeddingDim query tags timeRange k with
  | error e => exact ⟨⟨w.ticks, rfl⟩, nofun⟩
  | ok hits =>
      refine found_loadScoredMemories ?_
      intro id hid
      rcases List.mem_map.mp hid with ⟨hit, hhit, heq⟩
      rw [← heq]
      exact hhits hits hsearch hit hhit

theorem hybridSearch_nil {env : Env F} {w : World F} {tags : Option (List String)}
    {timeRange : Option (Timestamp × Timestamp)} {k : Nat} :
    w.tables.hybridSearch env.rankers env.hashOrder w.retrievalConfig w.embeddingDim [] tags
      timeRange k = Except.ok [] := by
  unfold Tables.hybridSearch Tables.hybridSearchWithQueryMode
  rw [if_pos (Or.inr rfl)]

theorem executePlan_found (env : Env F) (w : World F) (plan : QueryPlan F) :
    Found env w plan (executePlan env plan w) := by
  have hempty : forall tags timeRange k hits, w.tables.hybridSearch env.rankers
      env.hashOrder w.retrievalConfig w.embeddingDim [] tags timeRange k = Except.ok hits ->
      forall hit, hit ∈ hits -> Finds env w hit.1 plan := by
    intro tags timeRange k hits hsearch hit hhit
    rw [hybridSearch_nil] at hsearch
    cases hsearch
    cases hhit
  have hnothing : Found env w plan (Except.ok [], w) := by
    refine ⟨⟨w.ticks, rfl⟩, ?_⟩
    intro scored hscored sm hsm
    cases hscored
    cases hsm
  cases plan with
  | vectorSearch query k filters =>
      refine found_searchAndLoad ?_
      intro hits hsearch hit hhit
      have hopen := Tables.hybridSearchWithQueryMode_open env.rankers env.hashOrder
        w.retrievalConfig w.tables w.embeddingDim query none false k
      cases hopen.symm.trans hsearch
      rcases Tables.mem_openSearch hhit with hknn | hbm25
      · exact hknn
      · cases hbm25
  | tagScan tags filters limit => exact found_searchAndLoad (hempty _ _ _)
  | temporalScan start stop filters => exact found_searchAndLoad (hempty _ _ _)
  | graphTraversal start depth edgeTypes =>
      refine ⟨⟨w.ticks, rfl⟩, ?_⟩
      intro scored hscored sm hsm
      cases hscored
      rcases List.mem_filterMap.mp hsm with ⟨id, hid, hload⟩
      rcases Option.map_eq_some_iff.mp hload with ⟨node, hnode, heq⟩
      subst heq
      have hsame : node.id = id := Tables.getMemory_id hnode
      show w.tables.getMemory node.id = some node ∧ _
      rw [hsame]
      exact ⟨hnode, mem_extractSubgraph hid⟩
  | pointLookup id =>
      show Found env w _ (Prog.bind (getMemory id) _ w)
      unfold Prog.bind getMemory
      cases hget : w.tables.getMemory id with
      | none =>
          refine ⟨⟨w.ticks, rfl⟩, ?_⟩
          intro scored hscored
          cases hscored
      | some node =>
          refine ⟨⟨w.ticks, rfl⟩, ?_⟩
          intro scored hscored sm hsm
          cases hscored
          rw [List.mem_singleton.mp hsm]
          have hsame : node.id = id := Tables.getMemory_id hget
          show w.tables.getMemory node.id = some node ∧ node.id = id
          rw [hsame]
          exact ⟨hget, rfl⟩
  | edgeInsert source target edgeType weight => exact hnothing
  | delete id => exact hnothing
  | consolidate filters => exact hnothing

/-- The memories a recall shows. -/
def shownByRecall (env : Env F) (w : World F) (plan : QueryPlan F) : List (ScoredMemory F) :=
  match (recallPlan env plan w).1 with
  | Except.ok window => window.memories
  | Except.error _ => []

theorem recallPlan_eq (env : Env F) (w : World F) (plan : QueryPlan F) :
    recallPlan env plan w =
      match executePlan env plan w with
      | (Except.ok scored, w') =>
          (Except.ok (assemble env.text scored [] AssemblyConfig.default), w')
      | (Except.error e, w') => (Except.error e, w') := by
  show Prog.bind (executePlan env plan) _ w = _
  unfold Prog.bind
  rcases executePlan env plan w with ⟨result, w'⟩
  cases result with
  | ok scored => rfl
  | error e => rfl

/-- A recall shows stored memories in the reach of its plan. -/
theorem mem_shownByRecall {env : Env F} {w : World F} {plan : QueryPlan F}
    {sm : ScoredMemory F} (h : sm ∈ shownByRecall env w plan) :
    w.tables.getMemory sm.1.id = some sm.1 ∧ Finds env w sm.1.id plan := by
  have hfound := executePlan_found env w plan
  unfold shownByRecall at h
  rw [recallPlan_eq] at h
  rcases hrun : executePlan env plan w with ⟨result, w'⟩
  rw [hrun] at h hfound
  cases result with
  | error e => cases h
  | ok scored => exact hfound.2 scored rfl sm (mem_of_mem_assemble h)

theorem recallPlan_state (env : Env F) (w : World F) (plan : QueryPlan F) :
    exists n, (recallPlan env plan w).2 = { w with ticks := n } := by
  rcases (executePlan_found env w plan).1 with ⟨n, hn⟩
  refine ⟨n, ?_⟩
  rw [recallPlan_eq]
  rcases hrun : executePlan env plan w with ⟨result, w'⟩
  rw [hrun] at hn
  cases result with
  | ok scored => exact hn
  | error e => exact hn

end Execution

end Facade
end MenteDb
