import MenteDb.Facade.Execute
import MenteDb.Query.Planner

/-!
# What scans and traversals return

Scans are executed as a search with an empty embedding, and a search with an empty
embedding finds nothing: their tags, their range, their filters and their limit are
never reached.  A traversal searches along all edges, whatever types it is given.
-/

namespace MenteDb
namespace Facade

open Foundation
open Sqlite
open MenteDb.Graph
open Query
open Consolidation
open Context

variable {F : Type}

section Answers

variable [Scalar F]

/-- The stored memories that a scan is to return. -/
def scannedMemories (w : World F) (plan : QueryPlan F) : List (MemoryNode F) :=
  w.tables.allMemories.filter (fun m => scanned m plan)

/-- The answer to a plan is a list with this property. -/
def Answers (env : Env F) (w : World F) (plan : QueryPlan F)
    (P : List (MemoryNode F) -> Prop) : Prop :=
  exists answer w', executePlan env plan w = (Except.ok answer, w') ∧ P (answer.map Prod.fst)

/-- As many of the memories the scan is to return as the cap allows, each once. -/
def HonoursScan (w : World F) (plan : QueryPlan F) (cap : Nat) (answer : List (MemoryNode F)) :
    Prop :=
  answer.length = min cap (scannedMemories w plan).length ∧ (answer.map MemoryNode.id).Nodup ∧
    answer ⊆ scannedMemories w plan

omit [Scalar F] in
/-- The memory is stored and within the depth over edges of the given types. -/
def Traversed (w : World F) (start : MemoryId) (depth : Nat) (edgeTypes : List EdgeType)
    (m : MemoryNode F) : Prop :=
  w.tables.getMemory m.id = some m ∧
    exists n, n <= depth ∧ ReachesOver w.graph edgeTypes start n m.id

omit [Scalar F] in
def HonoursTraversal (w : World F) (start : MemoryId) (depth : Nat) (edgeTypes : List EdgeType)
    (answer : List (MemoryNode F)) : Prop :=
  (answer.map MemoryNode.id).Nodup ∧
    forall m, m ∈ answer <-> Traversed w start depth edgeTypes m

/-!
## Scans
-/

theorem loadScoredMemories_nil (env : Env F) (w : World F) :
    exists w', loadScoredMemories env [] w = (Except.ok [], w') := by
  unfold loadScoredMemories
  cases env.config.decayOnRecall with
  | true =>
      have hempty : rank (env.hashOrder.order ([] : List (ScoredMemory F))) = [] := by
        refine List.eq_nil_iff_forall_not_mem.mpr ?_
        intro sm hsm
        rw [mem_rank, HashOrder.mem_order] at hsm
        cases hsm
      refine ⟨{ w with ticks := w.ticks + 1 }, ?_⟩
      show (Except.ok (rank (env.hashOrder.order [])), _) = _
      rw [hempty]
  | false => exact ⟨w, rfl⟩

/-- A search with an empty embedding finds nothing, whatever else it is given. -/
theorem searchAndLoad_nil (env : Env F) (w : World F) (tags : Option (List String))
    (timeRange : Option (Timestamp × Timestamp)) (k : Nat) :
    exists w', searchAndLoad env [] tags timeRange k w = (Except.ok [], w') := by
  have hsearched : (Prog.gets (fun w => w.tables.hybridSearch env.rankers env.hashOrder
      w.retrievalConfig w.embeddingDim [] tags timeRange k) : Op F _) w =
        (Except.ok (Except.ok []), w) := by
    show (Except.ok (w.tables.hybridSearch env.rankers env.hashOrder w.retrievalConfig
      w.embeddingDim [] tags timeRange k), w) = _
    rw [hybridSearch_nil]
  unfold searchAndLoad
  rw [Prog.bind_of_ok hsearched]
  exact loadScoredMemories_nil env w

theorem honoursScan_nil_iff {w : World F} {plan : QueryPlan F} {cap : Nat} :
    HonoursScan w plan cap [] <-> cap = 0 ∨ scannedMemories w plan = [] := by
  have hempty : (scannedMemories w plan).length = 0 <-> scannedMemories w plan = [] :=
    List.length_eq_zero_iff
  constructor
  · intro h
    have hmin : 0 = min cap (scannedMemories w plan).length := h.1
    rw [← hempty]
    omega
  · intro h
    rw [← hempty] at h
    refine ⟨?_, List.nodup_nil, List.nil_subset _⟩
    show 0 = min cap (scannedMemories w plan).length
    omega

/-- A plan that answers nothing honours a scan only when there is nothing to return. -/
theorem answers_scan_iff {env : Env F} {w : World F} {plan : QueryPlan F} {cap : Nat}
    (hnothing : exists w', executePlan env plan w = (Except.ok [], w')) :
    Answers env w plan (HonoursScan w plan cap) <->
      cap = 0 ∨ scannedMemories w plan = [] := by
  rcases hnothing with ⟨w', hrun⟩
  constructor
  · intro h
    rcases h with ⟨answer, w'', hrun', hanswer⟩
    rw [hrun] at hrun'
    cases hrun'
    exact honoursScan_nil_iff.mp hanswer
  · intro h
    exact ⟨[], w', hrun, honoursScan_nil_iff.mpr h⟩

theorem executePlan_tagScan (env : Env F) (w : World F) (tags : List String)
    (filters : List (Query.Filter F)) (limit : Option Nat) :
    exists w', executePlan env (QueryPlan.tagScan tags filters limit) w = (Except.ok [], w') :=
  searchAndLoad_nil env w (some tags) none (limit.getD 10)

theorem executePlan_temporalScan (env : Env F) (w : World F) (start stop : Timestamp)
    (filters : List (Query.Filter F)) :
    exists w', executePlan env (QueryPlan.temporalScan start stop filters) w =
      (Except.ok [], w') :=
  searchAndLoad_nil env w none (some (start, stop)) 100

/-!
## Traversals
-/

/-- What a traversal returns: the stored memories among the nodes of the subgraph. -/
def traversed (w : World F) (start : MemoryId) (depth : Nat) : List (MemoryNode F) :=
  (extractSubgraph w.graph start depth).1.filterMap w.tables.getMemory

theorem executePlan_graphTraversal (env : Env F) (w : World F) (start : MemoryId) (depth : Nat)
    (edgeTypes : List EdgeType) :
    exists answer, executePlan env (QueryPlan.graphTraversal start depth edgeTypes) w =
      (Except.ok answer, w) ∧ answer.map Prod.fst = traversed w start depth := by
  refine ⟨_, rfl, ?_⟩
  unfold traversed
  rw [List.map_filterMap]
  congr 1
  funext id
  rw [Option.map_map]
  exact Option.map_id'

omit [Scalar F] in
theorem nodup_traversed (w : World F) (start : MemoryId) (depth : Nat) :
    ((traversed w start depth).map MemoryNode.id).Nodup := by
  unfold traversed
  rw [List.map_filterMap]
  refine (nodup_extractSubgraph w.graph start depth).filterMap ?_
  intro i j id hi hj
  rcases Option.map_eq_some_iff.mp hi with ⟨m, hm, hid⟩
  rcases Option.map_eq_some_iff.mp hj with ⟨m', hm', hid'⟩
  rw [← Tables.getMemory_id hm, ← Tables.getMemory_id hm', hid, hid']

omit [Scalar F] in
theorem mem_traversed_iff {w : World F} {start : MemoryId} {depth : Nat} {m : MemoryNode F} :
    m ∈ traversed w start depth <->
      w.tables.getMemory m.id = some m ∧ m.id ∈ (extractSubgraph w.graph start depth).1 := by
  constructor
  · intro h
    rcases List.mem_filterMap.mp h with ⟨id, hid, hget⟩
    have hsame : m.id = id := Tables.getMemory_id hget
    rw [hsame]
    exact ⟨hget, hid⟩
  · intro h
    exact List.mem_filterMap.mpr ⟨m.id, h.2, h.1⟩

omit [Scalar F] in
theorem containsNode_of_mem_extractSubgraph {g : CsrGraph F} {center id : MemoryId} {radius : Nat}
    (h : id ∈ (extractSubgraph g center radius).1) : g.containsNode center = true := by
  by_contra hnot
  unfold extractSubgraph bfs at h
  rw [if_neg hnot] at h
  cases h

omit [Scalar F] in
/-- No walk leaves a node that the graph does not have. -/
theorem walk_of_not_containsNode {g : CsrGraph F} {start id : MemoryId} {n : Nat}
    (hnot : ¬ g.containsNode start = true) (h : Walk g start n id) : id = start := by
  induction h with
  | nil => rfl
  | snoc _ hnext ih =>
      rw [ih] at hnext
      unfold CsrGraph.outgoing at hnext
      split at hnext
      · cases hnext
      · rename_i idx hfind
        exact absurd (Assoc.contains_iff_exists.mpr ⟨idx, hfind⟩) hnot

/-- Edges of other types lead to no further stored memory; the start is a node of the
graph if it is stored. -/
structure TypesSuffice (w : World F) (start : MemoryId) (depth : Nat)
    (edgeTypes : List EdgeType) : Prop where
  start_node : w.tables.getMemory start ≠ none -> w.graph.containsNode start = true
  reached : forall m n, w.tables.getMemory m.id = some m -> n <= depth ->
    Walk w.graph start n m.id -> exists k, k <= depth ∧ ReachesOver w.graph edgeTypes start k m.id

omit [Scalar F] in
theorem honoursTraversal_iff {w : World F} {start : MemoryId} {depth : Nat}
    {edgeTypes : List EdgeType} :
    HonoursTraversal w start depth edgeTypes (traversed w start depth) <->
      TypesSuffice w start depth edgeTypes := by
  constructor
  · intro h
    have hstart : w.tables.getMemory start ≠ none -> w.graph.containsNode start = true := by
      intro hstored
      rcases Option.ne_none_iff_exists'.mp hstored with ⟨m, hm⟩
      have hid : m.id = start := Tables.getMemory_id hm
      have htraversed : Traversed w start depth edgeTypes m := by
        unfold Traversed
        rw [hid]
        exact ⟨hm, 0, Nat.zero_le depth, Bfs.Reaches.refl⟩
      exact containsNode_of_mem_extractSubgraph
        (mem_traversed_iff.mp ((h.2 m).mpr htraversed)).2
    refine ⟨hstart, ?_⟩
    intro m n hm hn hwalk
    by_cases hnode : w.graph.containsNode start = true
    · have hmem := mem_traversed_iff.mpr ⟨hm, (mem_extractSubgraph_iff hnode).mpr ⟨n, hn, hwalk⟩⟩
      exact ((h.2 m).mp hmem).2
    · rw [walk_of_not_containsNode hnode hwalk]
      exact ⟨0, Nat.zero_le depth, Bfs.Reaches.refl⟩
  · intro h
    refine ⟨nodup_traversed w start depth, ?_⟩
    intro m
    constructor
    · intro hmem
      have hsub := mem_traversed_iff.mp hmem
      rcases mem_extractSubgraph hsub.2 with ⟨n, hn, hwalk⟩
      exact ⟨hsub.1, h.reached m n hsub.1 hn hwalk⟩
    · intro hmem
      rcases hmem with ⟨hm, n, hn, hreach⟩
      have hwalk := Walk.of_reachesOver hreach
      have hnode : w.graph.containsNode start = true := by
        by_contra hnot
        rw [walk_of_not_containsNode hnot hwalk] at hm
        exact hnot (h.start_node (by rw [hm]; exact Option.some_ne_none m))
      exact mem_traversed_iff.mpr ⟨hm, (mem_extractSubgraph_iff hnode).mpr ⟨n, hn, hwalk⟩⟩

theorem answers_traversal_iff {env : Env F} {w : World F} {start : MemoryId} {depth : Nat}
    {edgeTypes : List EdgeType} :
    Answers env w (QueryPlan.graphTraversal start depth edgeTypes)
        (HonoursTraversal w start depth edgeTypes) <->
      TypesSuffice w start depth edgeTypes := by
  rcases executePlan_graphTraversal env w start depth edgeTypes with ⟨answer, hrun, hanswer⟩
  rw [← honoursTraversal_iff]
  constructor
  · intro h
    rcases h with ⟨answer', w', hrun', hhonours⟩
    rw [hrun] at hrun'
    cases hrun'
    rw [hanswer] at hhonours
    exact hhonours
  · intro h
    refine ⟨answer, w, hrun, ?_⟩
    rw [hanswer]
    exact h

/-!
## Executed plans
-/

/-- No stored memory is one the scan is to return. -/
def NothingToScan (w : World F) (plan : QueryPlan F) : Prop :=
  forall m, w.tables.getMemory m.id = some m -> scanned m plan = false

theorem scannedMemories_eq_nil_iff {w : World F} {plan : QueryPlan F} :
    scannedMemories w plan = [] <-> NothingToScan w plan := by
  unfold scannedMemories
  rw [List.filter_eq_nil_iff]
  constructor
  · intro h m hm
    exact Bool.eq_false_iff.mpr (h m (Tables.mem_allMemories_of_getMemory hm))
  · intro h m hm hscanned
    rw [h m (Tables.mem_allMemories hm)] at hscanned
    cases hscanned

/-- A tag scan is honoured when nothing is asked for or nothing matches, a temporal scan
when nothing matches, and a traversal when its edge types make no difference. -/
theorem executePlan_honours_iff (env : Env F) (w : World F) :
    (forall tags filters limit,
      Answers env w (QueryPlan.tagScan tags filters limit)
          (HonoursScan w (QueryPlan.tagScan tags filters limit) (limit.getD 10)) <->
        limit = some 0 ∨ NothingToScan w (QueryPlan.tagScan tags filters limit)) ∧
    (forall start stop filters,
      Answers env w (QueryPlan.temporalScan start stop filters)
          (HonoursScan w (QueryPlan.temporalScan start stop filters) 100) <->
        NothingToScan w (QueryPlan.temporalScan start stop filters)) ∧
    (forall start depth edgeTypes, edgeTypes ≠ [] ->
      (Answers env w (QueryPlan.graphTraversal start depth edgeTypes)
          (HonoursTraversal w start depth edgeTypes) <->
        TypesSuffice w start depth edgeTypes)) := by
  refine ⟨?_, ?_, ?_⟩
  · intro tags filters limit
    rw [answers_scan_iff (executePlan_tagScan env w tags filters limit),
      scannedMemories_eq_nil_iff]
    have hlimit : limit.getD 10 = 0 <-> limit = some 0 := by
      cases limit with
      | none => simp
      | some k => simp
    rw [hlimit]
  · intro start stop filters
    rw [answers_scan_iff (executePlan_temporalScan env w start stop filters),
      scannedMemories_eq_nil_iff]
    simp
  · intro start depth edgeTypes _
    exact answers_traversal_iff

end Answers

/-!
### A memory that supersedes another
-/

def filedEnv : Env Rat :=
  calmEnv { CognitiveConfig.default with writeInference := false }

def filedMemory (id : MemoryId) : MemoryNode Rat :=
  { MemoryNode.new id 1000 AgentId.nil MemoryType.semantic "plan" [] with tags := ["plan"] }

def supersedingEdge : MemoryEdge Rat where
  source := ⟨2⟩
  target := ⟨1⟩
  edgeType := EdgeType.supersedes
  weight := 1
  createdAt := 1000
  validFrom := none
  validUntil := none
  label := none

def filedRun : Op Rat Unit := do
  store filedEnv (filedMemory ⟨1⟩)
  store filedEnv (filedMemory ⟨2⟩)
  relate filedEnv supersedingEdge

def filedWorld : World Rat := (filedRun emptyWorld).2

theorem traversal_of_superseded :
    [EdgeType.supersedes] ≠ [] ∧
      Answers filedEnv filedWorld
        (QueryPlan.graphTraversal ⟨2⟩ 1 [EdgeType.supersedes])
        (HonoursTraversal filedWorld ⟨2⟩ 1 [EdgeType.supersedes]) ∧
      filedWorld.tables.getMemory ⟨1⟩ = some (filedMemory ⟨1⟩) := by
  have hnode : filedWorld.graph.containsNode ⟨2⟩ = true := by decide +kernel
  have hsame : (extractSubgraph filedWorld.graph ⟨2⟩ 1).1 =
      (bfsFiltered filedWorld.graph ⟨2⟩ 1 [EdgeType.supersedes]).map Prod.fst := by decide +kernel
  have hsuffice : TypesSuffice filedWorld ⟨2⟩ 1 [EdgeType.supersedes] := by
    refine ⟨fun _ => hnode, ?_⟩
    intro m n _ hn hwalk
    have hmem := (mem_extractSubgraph_iff hnode).mpr ⟨n, hn, hwalk⟩
    rw [hsame] at hmem
    exact (mem_bfsFiltered_iff hnode).mp hmem
  have hiff := (executePlan_honours_iff filedEnv filedWorld).2.2 ⟨2⟩ 1 [EdgeType.supersedes]
    (by decide)
  exact ⟨by decide, hiff.mpr hsuffice, by decide +kernel⟩

/-- Both memories carry the tag, both were created in the range, and the only edge
supersedes: the scans return nothing, the traversal over related memories returns both. -/
theorem plans_not_honoured :
    (filedRun emptyWorld).1 = Except.ok () ∧
      ¬ Answers filedEnv filedWorld (QueryPlan.tagScan ["plan"] [] (some 5))
        (HonoursScan filedWorld (QueryPlan.tagScan ["plan"] [] (some 5)) 5) ∧
      ¬ Answers filedEnv filedWorld (QueryPlan.temporalScan 500 1500 [])
        (HonoursScan filedWorld (QueryPlan.temporalScan 500 1500 []) 100) ∧
      ¬ Answers filedEnv filedWorld (QueryPlan.graphTraversal ⟨2⟩ 1 [EdgeType.related])
        (HonoursTraversal filedWorld ⟨2⟩ 1 [EdgeType.related]) := by
  refine ⟨by decide +kernel, ?_, ?_, ?_⟩
  · rw [answers_scan_iff (executePlan_tagScan _ _ _ _ _)]
    decide +kernel
  · rw [answers_scan_iff (executePlan_temporalScan _ _ _ _ _)]
    decide +kernel
  · rw [answers_traversal_iff]
    intro hsuffice
    have hnode : filedWorld.graph.containsNode ⟨2⟩ = true := by decide +kernel
    have hin : (⟨1⟩ : MemoryId) ∈ (extractSubgraph filedWorld.graph ⟨2⟩ 1).1 := by decide +kernel
    have hout : (⟨1⟩ : MemoryId) ∉
        (bfsFiltered filedWorld.graph ⟨2⟩ 1 [EdgeType.related]).map Prod.fst := by decide +kernel
    rcases mem_extractSubgraph hin with ⟨n, hn, hwalk⟩
    have hstored : filedWorld.tables.getMemory ⟨1⟩ = some (filedMemory ⟨1⟩) := by decide +kernel
    exact hout ((mem_bfsFiltered_iff hnode).mpr
      (hsuffice.reached (filedMemory ⟨1⟩) n hstored hn hwalk))

end Facade
end MenteDb
