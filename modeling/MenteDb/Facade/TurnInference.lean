import MenteDb.Facade.Hiding
import MenteDb.Sqlite.Projection
import MenteDb.Sqlite.RoundTrip
import MenteDb.Foundation.Tally

/-!
# Inference in a turn

A turn stores its conversation, and the store compares the new memory with the twenty
nearest ones.  The turn then compares it with the fifty nearest ones, with thresholds of its
own.  The second pass does not look at the edges the first one has drawn, so a memory that
both reach is joined twice; and the first pass alone draws two edges to each memory it
finds obsolete.
-/

namespace MenteDb
namespace Facade

open Foundation
open Sqlite
open MenteDb.Graph
open Cognitive

variable {F : Type}

/-!
## Edges by type
-/

/-- The ends of an edge and its type. -/
abbrev EdgeKey := MemoryId × MemoryId × EdgeType

def edgeKey (edge : MemoryEdge F) : EdgeKey := (edge.source, edge.target, edge.edgeType)

/-- How many edges of one type join two memories. -/
def edgeCount (t : Tables F) (key : EdgeKey) : Nat :=
  t.allEdges.countP (fun edge => decide (edgeKey edge = key))

theorem edgeCount_addEdgeOn {t t' : Tables F} {edge : MemoryEdge F}
    (h : Tables.addEdgeOn edge t = Except.ok t') (key : EdgeKey) :
    edgeCount t' key = edgeCount t key + if edgeKey edge = key then 1 else 0 := by
  cases h
  unfold edgeCount Tables.allEdges
  rw [List.map_append, List.countP_append, List.map_singleton, Tables.edgeOfRow_rowOfEdge]
  simp [List.countP_singleton]

theorem edgeCount_of_edges {t t' : Tables F} (h : t'.edges = t.edges) (key : EdgeKey) :
    edgeCount t' key = edgeCount t key := by
  unfold edgeCount Tables.allEdges
  rw [h]

/-!
## What a pass draws
-/

section Pairs

variable [Scalar F]

/-- The two memories say different things in almost the same words. -/
def Contradicting (config : WriteInferenceConfig F) (new existing : MemoryNode F) : Prop :=
  config.contradictionThreshold < cosineSimilarity new.embedding existing.embedding ∧
    existing.agentId = new.agentId ∧ existing.content ≠ new.content

/-- The existing memory is older and says almost the same. -/
def Obsoleting (config : WriteInferenceConfig F) (new existing : MemoryNode F) : Prop :=
  config.obsoleteThreshold < cosineSimilarity new.embedding existing.embedding ∧
    existing.createdAt < new.createdAt

def Relating (config : WriteInferenceConfig F) (new existing : MemoryNode F) : Prop :=
  config.relatedMin < cosineSimilarity new.embedding existing.embedding ∧
    cosineSimilarity new.embedding existing.embedding <= config.relatedMax

instance (config : WriteInferenceConfig F) (new existing : MemoryNode F) :
    Decidable (Contradicting config new existing) := inferInstanceAs (Decidable (_ ∧ _))

instance (config : WriteInferenceConfig F) (new existing : MemoryNode F) :
    Decidable (Obsoleting config new existing) := inferInstanceAs (Decidable (_ ∧ _))

instance (config : WriteInferenceConfig F) (new existing : MemoryNode F) :
    Decidable (Relating config new existing) := inferInstanceAs (Decidable (_ ∧ _))

omit [Scalar F] in
/-- The edge a store draws for an action. -/
def InferredAction.drawnByStore : InferredAction F -> Option EdgeKey
  | InferredAction.flagContradiction existing new _ => some (new, existing, EdgeType.contradicts)
  | InferredAction.markObsolete memory supersededBy =>
      some (supersededBy, memory, EdgeType.supersedes)
  | InferredAction.invalidateMemory memory supersededBy _ =>
      some (supersededBy, memory, EdgeType.supersedes)
  | InferredAction.createEdge source target edgeType _ => some (source, target, edgeType)
  | InferredAction.updateContent _ _ _ => none
  | InferredAction.updateConfidence _ _ => none
  | InferredAction.propagateBeliefChange _ _ => none

omit [Scalar F] in
/-- The edge a turn draws for an action; it only stores an invalidated memory again. -/
def InferredAction.drawnByTurn : InferredAction F -> Option EdgeKey
  | InferredAction.invalidateMemory _ _ _ => none
  | action => action.drawnByStore

/-- Edges of a type drawn to a similar memory, when an obsolete one gets the given number. -/
def pairCount (obsolete : Nat) (config : WriteInferenceConfig F) (new existing : MemoryNode F) :
    EdgeType -> Nat
  | EdgeType.contradicts => if Contradicting config new existing then 1 else 0
  | EdgeType.supersedes => if Obsoleting config new existing then obsolete else 0
  | EdgeType.related => if Relating config new existing then 1 else 0
  | _ => 0

/-- Edges of one type that the actions draw to a memory. -/
def passCount (obsolete : Nat) (config : WriteInferenceConfig F) (new : MemoryNode F)
    (existing : List (MemoryNode F)) (id : MemoryId) (edgeType : EdgeType) : Nat :=
  tally (existing.map (fun m => (m.id, pairCount obsolete config new m edgeType))) id

theorem inferForPair_eq (text : TextOps F) (config : WriteInferenceConfig F)
    (new existing : MemoryNode F) :
    inferForPair text config new existing =
      (if Contradicting config new existing then
        [InferredAction.flagContradiction existing.id new.id
          ("High embedding similarity ("
            ++ text.fixed3 (cosineSimilarity new.embedding existing.embedding)
            ++ ") with different content from same agent")]
      else [])
      ++ (if Obsoleting config new existing then
        [InferredAction.markObsolete existing.id new.id,
          InferredAction.invalidateMemory existing.id new.id new.createdAt]
      else [])
      ++ (if Relating config new existing then
        [InferredAction.createEdge new.id existing.id EdgeType.related
          (cosineSimilarity new.embedding existing.embedding)]
      else []) := rfl

/-- What a way of drawing edges makes of the actions for a pair. -/
structure DrawsPairs (obsolete : Nat) (draws : InferredAction F -> Option EdgeKey) : Prop where
  contradiction : forall existing new reason,
    draws (InferredAction.flagContradiction existing new reason) =
      some (new, existing, EdgeType.contradicts)
  related : forall source target edgeType weight,
    draws (InferredAction.createEdge source target edgeType weight) =
      some (source, target, edgeType)
  obsoletes : forall memory new at_ key,
    [InferredAction.markObsolete memory new,
      InferredAction.invalidateMemory memory new at_].countP
        (fun action => decide (draws action = some key)) =
      if (new, memory, EdgeType.supersedes) = key then obsolete else 0

omit [Scalar F] in
theorem drawsPairs_store :
    DrawsPairs 2 (InferredAction.drawnByStore : InferredAction F -> Option EdgeKey) where
  contradiction _ _ _ := rfl
  related _ _ _ _ := rfl
  obsoletes memory new at_ key := by
    by_cases hkey : (new, memory, EdgeType.supersedes) = key
    · simp [InferredAction.drawnByStore, hkey]
    · simp [InferredAction.drawnByStore, hkey]

omit [Scalar F] in
theorem drawsPairs_turn :
    DrawsPairs 1 (InferredAction.drawnByTurn : InferredAction F -> Option EdgeKey) where
  contradiction _ _ _ := rfl
  related _ _ _ _ := rfl
  obsoletes memory new at_ key := by
    by_cases hkey : (new, memory, EdgeType.supersedes) = key
    · simp [InferredAction.drawnByTurn, InferredAction.drawnByStore, hkey]
    · simp [InferredAction.drawnByTurn, InferredAction.drawnByStore, hkey]

/-- The three parts of a pair's actions draw one type of edge each. -/
theorem countP_inferForPair {draws : InferredAction F -> Option EdgeKey} {obsolete : Nat}
    (hdraws : DrawsPairs obsolete draws) (text : TextOps F) (config : WriteInferenceConfig F)
    (new existing : MemoryNode F) (id : MemoryId) (edgeType : EdgeType) :
    (inferForPair text config new existing).countP
        (fun action => decide (draws action = some (new.id, id, edgeType))) =
      if existing.id = id then pairCount obsolete config new existing edgeType else 0 := by
  rw [inferForPair_eq, List.countP_append, List.countP_append, apply_ite (List.countP _),
    apply_ite (List.countP _), apply_ite (List.countP _), List.countP_nil, hdraws.obsoletes,
    List.countP_singleton, List.countP_singleton, hdraws.contradiction, hdraws.related]
  by_cases hid : existing.id = id
  · cases edgeType <;> simp [hid, pairCount]
  · simp [hid]

/-- A memory that is no correction draws from its pairs alone. -/
theorem countP_inferOnWrite {draws : InferredAction F -> Option EdgeKey} {obsolete : Nat}
    (hdraws : DrawsPairs obsolete draws) (text : TextOps F) (config : WriteInferenceConfig F)
    {new : MemoryNode F} (htype : new.memoryType ≠ MemoryType.correction)
    {existing : List (MemoryNode F)} (hother : forall m, m ∈ existing -> m.id ≠ new.id)
    (id : MemoryId) (edgeType : EdgeType) :
    (inferOnWrite text config new existing).countP
        (fun action => decide (draws action = some (new.id, id, edgeType))) =
      passCount obsolete config new existing id edgeType := by
  have hothers : existing.filter (fun m => decide (m.id ≠ new.id)) = existing :=
    List.filter_eq_self.mpr (fun m hm => decide_eq_true (hother m hm))
  have hnone : inferCorrection config new existing = [] := if_neg htype
  unfold inferOnWrite passCount
  simp only
  rw [hothers, hnone, List.append_nil, List.countP_flatMap]
  clear hother hothers hnone
  induction existing with
  | nil => rfl
  | cons m rest ih =>
      rw [List.map_cons, List.map_cons, List.sum_cons, tally_cons, ih, Function.comp_apply,
        countP_inferForPair hdraws]

end Pairs

/-!
## The candidates of the two passes
-/

section Candidates

variable [Scalar F]

/-- What a store compares its memory with, in the state in which it is written. -/
def firstCandidates (env : Env F) (w : World F) (node : MemoryNode F) : List (MemoryNode F) :=
  if env.config.writeInference = true ∧ node.embedding.isEmpty = false then
    inferenceCandidates env w (env.clock w.ticks) node
  else []

/-- What the pass of a turn compares a stored memory with. -/
def secondCandidates (env : Env F) (w : World F) (target : MemoryNode F) :
    List (MemoryNode F) :=
  turnCandidates env w (env.clock w.ticks) target target.id

omit [Scalar F] in
/-- Memories loaded for different hits are different, and are not the excluded one. -/
theorem loaded_candidates {hits : List (MemoryId × F)} (h : (hits.map Prod.fst).Nodup)
    (t : Tables F) (id : MemoryId) :
    (((hits.filter (fun hit => decide (hit.1 ≠ id))).filterMap
        (fun hit => t.getMemory hit.1)).map MemoryNode.id).Nodup ∧
      forall m, m ∈ (hits.filter (fun hit => decide (hit.1 ≠ id))).filterMap
        (fun hit => t.getMemory hit.1) -> m.id ≠ id ∧ t.getMemory m.id = some m := by
  constructor
  · have hids : ((hits.filter (fun hit => decide (hit.1 ≠ id))).map Prod.fst).Nodup :=
      h.sublist (List.filter_sublist.map Prod.fst)
    have hmap : ((hits.filter (fun hit => decide (hit.1 ≠ id))).filterMap
        (fun hit => t.getMemory hit.1)).map MemoryNode.id =
        ((hits.filter (fun hit => decide (hit.1 ≠ id))).map Prod.fst).filterMap
          (fun j => (t.getMemory j).map MemoryNode.id) := by
      rw [List.map_filterMap, List.filterMap_map]
      rfl
    rw [hmap]
    refine hids.filterMap ?_
    intro a b j ha hb
    rcases Option.map_eq_some_iff.mp ha with ⟨n, hn, hnj⟩
    rcases Option.map_eq_some_iff.mp hb with ⟨n', hn', hnj'⟩
    rw [← Tables.getMemory_id hn, ← Tables.getMemory_id hn', hnj, hnj']
  · intro m hm
    rcases List.mem_filterMap.mp hm with ⟨hit, hhit, hget⟩
    have hid := Tables.getMemory_id hget
    rw [hid]
    exact ⟨of_decide_eq_true (List.mem_filter.mp hhit).2, hget⟩

theorem firstCandidates_spec (env : Env F) (w : World F) (node : MemoryNode F) :
    ((firstCandidates env w node).map MemoryNode.id).Nodup ∧
      forall m, m ∈ firstCandidates env w node ->
        m.id ≠ node.id ∧ w.tables.getMemory m.id = some m := by
  unfold firstCandidates
  split
  · exact loaded_candidates (isRanking_recallHits _ _ _ _ _ _).nodup _ _
  · exact ⟨List.nodup_nil, fun _ hm => by cases hm⟩

theorem secondCandidates_spec (env : Env F) (w : World F) (target : MemoryNode F) :
    ((secondCandidates env w target).map MemoryNode.id).Nodup ∧
      forall m, m ∈ secondCandidates env w target ->
        m.id ≠ target.id ∧ w.tables.getMemory m.id = some m :=
  loaded_candidates (isRanking_recallHits _ _ _ _ _ _).nodup _ _

/-- No memory is joined twice with one type of edge: the store finds none obsolete, and the
memories it relates or flags are not related or flagged again. -/
structure PassesApart (env : Env F) (written stored : World F) (node : MemoryNode F) :
    Prop where
  notObsolete : forall m, m ∈ firstCandidates env written node ->
    ¬ Obsoleting env.config.inferenceConfig node m
  notRelated : forall target m m', stored.tables.getMemory node.id = some target ->
    m ∈ firstCandidates env written node -> Relating env.config.inferenceConfig node m ->
    m' ∈ secondCandidates env stored target -> m'.id = m.id ->
    ¬ Relating WriteInferenceConfig.default target m'
  notContradicted : forall target m m', stored.tables.getMemory node.id = some target ->
    m ∈ firstCandidates env written node -> Contradicting env.config.inferenceConfig node m ->
    m' ∈ secondCandidates env stored target -> m'.id = m.id ->
    ¬ Contradicting WriteInferenceConfig.default target m'

/-- Edges of one type that the second pass draws to a memory. -/
def secondCount (env : Env F) (stored : World F) (id : MemoryId) (x : MemoryId)
    (edgeType : EdgeType) : Nat :=
  (stored.tables.getMemory id).elim 0 (fun target =>
    passCount 1 WriteInferenceConfig.default target (secondCandidates env stored target) x
      edgeType)

omit [Scalar F] in
theorem map_fst_pairs (existing : List (MemoryNode F)) (f : MemoryNode F -> Nat) :
    (existing.map (fun m => (m.id, f m))).map Prod.fst = existing.map MemoryNode.id := by
  rw [List.map_map]
  rfl

/-- A pass draws to a candidate what its pair draws. -/
theorem passCount_of_mem {obsolete : Nat} {config : WriteInferenceConfig F}
    {new m : MemoryNode F} {existing : List (MemoryNode F)}
    (hnodup : (existing.map MemoryNode.id).Nodup) (hm : m ∈ existing) (edgeType : EdgeType) :
    passCount obsolete config new existing m.id edgeType =
      pairCount obsolete config new m edgeType := by
  apply tally_of_mem
  · rw [map_fst_pairs]
    exact hnodup
  · exact List.mem_map_of_mem (f := fun m => (m.id, pairCount obsolete config new m edgeType)) hm

theorem passCount_of_not_mem {obsolete : Nat} {config : WriteInferenceConfig F}
    {new : MemoryNode F} {existing : List (MemoryNode F)} {id : MemoryId}
    (h : id ∉ existing.map MemoryNode.id) (edgeType : EdgeType) :
    passCount obsolete config new existing id edgeType = 0 := by
  apply tally_of_not_mem
  rw [map_fst_pairs]
  exact h

theorem pairCount_le_one (config : WriteInferenceConfig F) (new existing : MemoryNode F)
    (edgeType : EdgeType) : pairCount 1 config new existing edgeType <= 1 := by
  unfold pairCount
  split
  · split <;> decide
  · split <;> decide
  · split <;> decide
  · decide

theorem secondCount_of_mem {env : Env F} {stored : World F} {id : MemoryId}
    {target m : MemoryNode F} (htarget : stored.tables.getMemory id = some target)
    (hm : m ∈ secondCandidates env stored target) (edgeType : EdgeType) :
    secondCount env stored id m.id edgeType =
      pairCount 1 WriteInferenceConfig.default target m edgeType := by
  unfold secondCount
  rw [htarget]
  exact passCount_of_mem (secondCandidates_spec env stored target).1 hm edgeType

/-- A memory the second pass draws an edge to is one of its candidates. -/
theorem secondCount_cases (env : Env F) (stored : World F) (id x : MemoryId)
    (edgeType : EdgeType) :
    secondCount env stored id x edgeType = 0 ∨
      exists target m, stored.tables.getMemory id = some target ∧
        m ∈ secondCandidates env stored target ∧ m.id = x ∧
        secondCount env stored id x edgeType =
          pairCount 1 WriteInferenceConfig.default target m edgeType := by
  cases htarget : stored.tables.getMemory id with
  | none =>
      left
      unfold secondCount
      rw [htarget]
      rfl
  | some target =>
      by_cases hx : x ∈ (secondCandidates env stored target).map MemoryNode.id
      · rcases List.mem_map.mp hx with ⟨m, hm, hid⟩
        right
        refine ⟨target, m, rfl, hm, hid, ?_⟩
        rw [← hid]
        exact secondCount_of_mem htarget hm edgeType
      · left
        unfold secondCount
        rw [htarget]
        exact passCount_of_not_mem hx edgeType

/-- The two passes draw at most one edge of a type to each memory exactly when they are
apart. -/
theorem passesApart_iff (env : Env F) (written stored : World F) (node : MemoryNode F) :
    (forall x edgeType, passCount 2 env.config.inferenceConfig node
        (firstCandidates env written node) x edgeType
        + secondCount env stored node.id x edgeType <= 1) <->
      PassesApart env written stored node := by
  have hfirst := firstCandidates_spec env written node
  constructor
  · intro h
    constructor
    · intro m hm hobsolete
      have hcount := h m.id EdgeType.supersedes
      rw [passCount_of_mem hfirst.1 hm] at hcount
      simp only [pairCount, if_pos hobsolete] at hcount
      omega
    · intro target m m' htarget hm hrelating hm' hid hagain
      have hcount := h m.id EdgeType.related
      rw [passCount_of_mem hfirst.1 hm, ← hid, secondCount_of_mem htarget hm'] at hcount
      simp only [pairCount, if_pos hrelating, if_pos hagain] at hcount
      omega
    · intro target m m' htarget hm hcontra hm' hid hagain
      have hcount := h m.id EdgeType.contradicts
      rw [passCount_of_mem hfirst.1 hm, ← hid, secondCount_of_mem htarget hm'] at hcount
      simp only [pairCount, if_pos hcontra, if_pos hagain] at hcount
      omega
  · intro h x edgeType
    by_cases hx : x ∈ (firstCandidates env written node).map MemoryNode.id
    · rcases List.mem_map.mp hx with ⟨m, hm, hid⟩
      rw [← hid, passCount_of_mem hfirst.1 hm]
      rcases secondCount_cases env stored node.id m.id edgeType with
        hnone | ⟨target, m', htarget, hm', hid', hcount⟩
      · have hone : pairCount 2 env.config.inferenceConfig node m edgeType <= 1 := by
          cases edgeType <;> simp only [pairCount, if_neg (h.notObsolete m hm)] <;>
            first | omega | (split <;> omega)
        omega
      · rw [hcount]
        cases edgeType with
        | contradicts =>
            simp only [pairCount]
            split
            · rename_i hcontra
              rw [if_neg (h.notContradicted target m m' htarget hm hcontra hm' hid')]
            · split <;> omega
        | supersedes =>
            simp only [pairCount, if_neg (h.notObsolete m hm)]
            split <;> omega
        | related =>
            simp only [pairCount]
            split
            · rename_i hrelating
              rw [if_neg (h.notRelated target m m' htarget hm hrelating hm' hid')]
            · split <;> omega
        | caused => exact Nat.zero_le 1
        | before => exact Nat.zero_le 1
        | supports => exact Nat.zero_le 1
        | derived => exact Nat.zero_le 1
        | partOf => exact Nat.zero_le 1
    · rw [passCount_of_not_mem hx, Nat.zero_add]
      rcases secondCount_cases env stored node.id x edgeType with
        hnone | ⟨target, m', _, _, _, hcount⟩
      · omega
      · rw [hcount]
        exact pairCount_le_one _ _ _ _

end Candidates

/-!
## Counting edges through a pass

The number of edges of one type between two memories is bounded by the number of actions
still to come that draw one.  Where no write fails, it is also at least that.
-/

section Counts

variable [Scalar F] {env : Env F} {key : EdgeKey} {P : Nat -> Prop}

/-- No write transaction fails. -/
def NoFaults (env : Env F) : Prop := forall n, env.fault n = none

omit [Scalar F] in
theorem viewsMemories_edgeCount (key : EdgeKey) (P : Nat -> Prop) :
    ViewsMemories (fun w : World F => P (edgeCount w.tables key)) := by
  intro w w' _ _ _ hedges _ hw
  rw [edgeCount_of_edges hedges]
  exact hw

theorem storeClosed_edgeCount (key : EdgeKey) (P : Nat -> Prop) :
    StoreClosed (fun w : World F => P (edgeCount w.tables key)) where
  ignoresTicks := (viewsMemories_edgeCount key P).ignoresTicks
  storeOn w t node dim hw hrun := by
    show P (edgeCount t key)
    rw [edgeCount_of_edges (Tables.storeMemoryOn_edges hrun)]
    exact hw

omit [Scalar F] in
/-- One edge more, or, where a write can fail, at most one. -/
theorem triple_relate_count (edge : MemoryEdge F)
    (hP : NoFaults env ∨ edgeKey edge ≠ key ∨ forall n, P (n + 1) -> P n) :
    Prog.Triple (fun w => P (edgeCount w.tables key + if edgeKey edge = key then 1 else 0))
      (relate env edge) (fun _ w => P (edgeCount w.tables key))
      (fun w => P (edgeCount w.tables key)) := by
  have hfailed : (exists n, env.fault n ≠ none) -> forall n,
      P (n + if edgeKey edge = key then 1 else 0) -> P n := by
    rintro ⟨tick, hfault⟩ n hn
    rcases hP with hnone | hother | hless
    · exact absurd (hnone tick) hfault
    · rw [if_neg hother] at hn
      exact hn
    · split at hn
      · exact hless n hn
      · exact hn
  apply Prog.Triple.bind (Q := fun _ w => P (edgeCount w.tables key))
  · intro w hw
    unfold transact
    cases hfault : env.fault w.ticks with
    | some e => exact hfailed ⟨w.ticks, by rw [hfault]; exact Option.some_ne_none e⟩ _ hw
    | none =>
        have hadded : edgeCount { w.tables with
            edges := w.tables.edges ++ [Tables.rowOfEdge edge] } key =
            edgeCount w.tables key + if edgeKey edge = key then 1 else 0 :=
          edgeCount_addEdgeOn rfl key
        rw [← hadded] at hw
        exact hw
  · intro _
    exact keeps_onGraph (fun _ _ hw => hw)

/-- What a store does with an action adds at most the edge the action draws. -/
theorem triple_applyInferredAction_count (action : InferredAction F)
    (hP : action.drawnByStore ≠ some key ∨ forall n, P (n + 1) -> P n) :
    Prog.Triple
      (fun w => P (edgeCount w.tables key + if action.drawnByStore = some key then 1 else 0))
      (applyInferredAction env action) (fun _ w => P (edgeCount w.tables key))
      (fun w => P (edgeCount w.tables key)) := by
  have hless : forall w : World F,
      P (edgeCount w.tables key + if action.drawnByStore = some key then 1 else 0) ->
        P (edgeCount w.tables key) := by
    intro w hw
    rcases hP with hother | hless
    · rw [if_neg hother] at hw
      exact hw
    · split at hw
      · exact hless _ hw
      · exact hw
  have hpre := (storeClosed_edgeCount (F := F) key
    (fun n => P (n + if action.drawnByStore = some key then 1 else 0))).rewrites
  have hpost := (storeClosed_edgeCount (F := F) key P).rewrites
  -- the edge of the action is drawn once the memory is invalidated
  have hrelate : forall edge : MemoryEdge F, some (edgeKey edge) = action.drawnByStore ->
      Prog.Triple
        (fun w => P (edgeCount w.tables key + if action.drawnByStore = some key then 1 else 0))
        (relate env edge) (fun _ w => P (edgeCount w.tables key))
        (fun w => P (edgeCount w.tables key)) := by
    intro edge hedge
    rw [← hedge]
    simp only [Option.some.injEq]
    apply triple_relate_count
    rw [← hedge] at hP
    exact Or.inr (hP.imp_left (fun hne heq => hne (congrArg some heq)))
  have hnow := Prog.Keeps.triple (x := currentTimeUs env) hpre.keeps_now hless
  have hdraw : forall edge : MemoryEdge F, some (edgeKey edge) = action.drawnByStore ->
      Prog.Triple
        (fun w => P (edgeCount w.tables key + if action.drawnByStore = some key then 1 else 0))
        (do
          relate env edge
          emitLifecycleEvent env)
        (fun _ w => P (edgeCount w.tables key)) (fun w => P (edgeCount w.tables key)) :=
    fun edge hedge => (hrelate edge hedge).bind (fun _ => hpost.keeps_emit)
  have hinvalidate := fun id at_ =>
    Prog.Keeps.triple (x := invalidateMemory env id at_) (hpre.keeps_invalidateMemory id at_) hless
  have hrewrite : forall id (f : MemoryNode F -> MemoryNode F),
      (forall node, (f node).id = node.id ∧ (f node).tags = node.tags) ->
      Prog.Keeps (fun w : World F => P (edgeCount w.tables key)) (rewriteMemory env id f) :=
    fun id _ hf => hpost.keeps_rewriteMemory id hf
  cases action with
  | createEdge source target edgeType weight =>
      exact hnow.bind (fun now => hrelate _ rfl)
  | invalidateMemory memory supersededBy validUntil =>
      exact (hinvalidate _ _).bind (fun _ => hnow.bind (fun now => hdraw _ rfl))
  | markObsolete memory supersededBy =>
      exact hnow.bind (fun now => (hinvalidate _ _).bind (fun _ => hdraw _ rfl))
  | flagContradiction existing new reason =>
      exact hnow.bind (fun now => hdraw _ rfl)
  | updateConfidence memory newConfidence =>
      exact (hrewrite memory (fun node => { node with confidence := newConfidence })
        (fun _ => ⟨rfl, rfl⟩)).weaken hless (fun _ _ hw => hw) (fun _ hw => hw)
  | propagateBeliefChange root delta =>
      have hloop : forall affected : List (MemoryId × F),
          Prog.Keeps (fun w : World F => P (edgeCount w.tables key))
            (Prog.forEach affected (fun a =>
              rewriteMemory env a.1 (fun node => { node with confidence := a.2 }))) :=
        fun _ => Prog.Keeps.forEach (fun a _ =>
          hrewrite a.1 (fun node => { node with confidence := a.2 }) (fun _ => ⟨rfl, rfl⟩))
      exact (Prog.Keeps.bind (Prog.keeps_gets _) hloop).weaken hless (fun _ _ hw => hw)
        (fun _ hw => hw)
  | updateContent memory newContent reason =>
      exact (hrewrite memory (fun node => { node with content := newContent })
        (fun _ => ⟨rfl, rfl⟩)).weaken hless (fun _ _ hw => hw) (fun _ hw => hw)

/-- A loop over actions each of which uses up its share of a budget. -/
theorem triple_forEach_budget {I : Nat -> World F -> Prop} {spends : InferredAction F -> Bool}
    {actions : List (InferredAction F)}
    (h : forall action n, action ∈ actions ->
      Prog.Triple (I (n + if spends action then 1 else 0)) (applyInferredAction env action)
        (fun _ => I n) (I n)) :
    Prog.Triple (I (actions.countP spends))
      (Prog.forEach actions (fun action => do
        let _ ← Prog.attempt (applyInferredAction env action)
        pure ()))
      (fun _ => I 0) (fun _ => False) := by
  apply Prog.Triple.forEach (J := fun rest => I (rest.countP spends))
  intro action rest haction
  rw [List.countP_cons]
  exact Prog.Triple.bind (h action _ haction).attempt (fun _ _ hw => hw)

theorem triple_applyExplicitActions_budget {I : Nat -> World F -> Prop}
    {spends : InferredAction F -> Bool} {now : Timestamp} {actions : List (InferredAction F)}
    (h : forall action n, action ∈ actions ->
      Prog.Triple (I (n + if spends action then 1 else 0)) (applyExplicitAction env now action)
        (fun _ => I n) (fun _ => False)) (applied : Nat) :
    Prog.Triple (I (actions.countP spends)) (applyExplicitActions env now actions applied)
      (fun _ => I 0) (fun _ => False) := by
  induction actions generalizing applied with
  | nil => exact fun _ hw => hw
  | cons action rest ih =>
      rw [List.countP_cons]
      apply Prog.Triple.bind (h action _ List.mem_cons_self)
      intro counted
      exact ih (fun a n ha => h a n (List.mem_cons_of_mem action ha)) (applied + counted)

/-- The actions of a store add at most the edges they draw. -/
theorem edgeCount_forEach_le (env : Env F) (actions : List (InferredAction F)) (key : EdgeKey)
    (w : World F) :
    edgeCount (Prog.forEach actions (fun action => do
        let _ ← Prog.attempt (applyInferredAction env action)
        pure ()) w).2.tables key <=
      edgeCount w.tables key
        + actions.countP (fun action => decide (action.drawnByStore = some key)) := by
  have hloop : forall N, Prog.Triple
      (fun v : World F => edgeCount v.tables key
        + actions.countP (fun action => decide (action.drawnByStore = some key)) <= N)
      (Prog.forEach actions (fun action => do
        let _ ← Prog.attempt (applyInferredAction env action)
        pure ()))
      (fun _ v => edgeCount v.tables key <= N) (fun _ => False) := by
    intro N
    refine triple_forEach_budget (I := fun n v => edgeCount v.tables key + n <= N) ?_
    intro action n _
    have haction : Prog.Triple _ (applyInferredAction env action)
        (fun _ v => edgeCount v.tables key + n <= N) (fun v => edgeCount v.tables key + n <= N) :=
      triple_applyInferredAction_count (P := fun j => j + n <= N) action
        (Or.inr (fun j hj => by omega))
    refine haction.weaken ?_ (fun _ _ hv => hv) (fun _ hv => hv)
    intro v hv
    simp only [decide_eq_true_eq] at hv
    omega
  exact (hloop _).state_of_sure (Nat.le_refl _)

/-- What nothing is drawn for leaves the edges between the two memories alone. -/
theorem keeps_applyInferredAction_count {action : InferredAction F}
    (h : action.drawnByStore ≠ some key) :
    Prog.Keeps (fun w => P (edgeCount w.tables key)) (applyInferredAction env action) := by
  have htriple : Prog.Triple _ (applyInferredAction env action) _ _ :=
    triple_applyInferredAction_count (P := P) action (Or.inl h)
  rw [if_neg h] at htriple
  exact htriple

/-- All edges of an inference lead away from the memory it is about. -/
theorem drawnByStore_source {text : TextOps F} {config : WriteInferenceConfig F}
    {new : MemoryNode F} {existing : List (MemoryNode F)} {action : InferredAction F}
    (h : action ∈ inferOnWrite text config new existing) (hkey : action.drawnByStore = some key) :
    key.1 = new.id := by
  rcases concludes_inferOnWrite h with ⟨m, _, haction⟩
  cases haction with
  | contradiction reason _ =>
      cases hkey
      rfl
  | obsolete _ _ =>
      cases hkey
      rfl
  | invalid _ _ =>
      cases hkey
      rfl
  | edge edgeType weight =>
      cases hkey
      rfl
  | confidence c _ _ => cases hkey

/-- Storing another memory draws no edge from the one the key starts at. -/
theorem keeps_store_count {node : MemoryNode F} (h : key.1 ≠ node.id) :
    Prog.Keeps (fun w => P (edgeCount w.tables key)) (store env node) := by
  have hviews := viewsMemories_edgeCount (F := F) key P
  have hclosed := storeClosed_edgeCount (F := F) key P
  refine keeps_store_of (keeps_provision hviews [node]) (hclosed.keeps_dbStoreMemory node)
    (fun _ hw => hw) (keeps_indexMemoryEntities hviews node) (fun _ => ?_)
  apply keeps_runWriteInference_of (P := fun _ => True) hclosed.rewrites.keeps_now
    (fun _ _ _ _ _ => trivial)
  intro existing action _ haction
  exact keeps_applyInferredAction_count (fun hkey => h (drawnByStore_source haction hkey))

theorem keeps_storeAgain_count {id : MemoryId} {f : MemoryNode F -> MemoryNode F}
    (hf : forall node, (f node).id = node.id) (h : key.1 ≠ id) :
    Prog.Triple (fun w => P (edgeCount w.tables key)) (storeAgain env id f)
      (fun _ w => P (edgeCount w.tables key)) (fun _ => False) := by
  apply Prog.Triple.bind (Q := fun loaded w => P (edgeCount w.tables key) ∧
    forall node, loaded = some node -> node.id = id)
  · apply Prog.triple_gets
    intro w hw
    exact ⟨hw, fun node hget => Tables.getMemory_id hget⟩
  · intro loaded w hw
    cases loaded with
    | none => exact hw.1
    | some node =>
        have hne : key.1 ≠ (f node).id := by
          rw [hf node, hw.2 node rfl]
          exact h
        exact (keeps_store_count hne).state hw.1

/-- The pass of a turn adds the edge an action draws, and stores other memories again. -/
theorem triple_applyExplicitAction_count {config : WriteInferenceConfig F}
    {target existing : MemoryNode F} {action : InferredAction F} {now : Timestamp}
    (haction : Follows config target existing action) (hne : key.1 ≠ existing.id)
    (hP : NoFaults env ∨ forall n, P (n + 1) -> P n) :
    Prog.Triple
      (fun w => P (edgeCount w.tables key + if action.drawnByTurn = some key then 1 else 0))
      (applyExplicitAction env now action) (fun _ w => P (edgeCount w.tables key))
      (fun _ => False) := by
  have hrelate : forall edge : MemoryEdge F, some (edgeKey edge) = action.drawnByTurn ->
      Prog.Triple
        (fun w => P (edgeCount w.tables key + if action.drawnByTurn = some key then 1 else 0))
        (relateOrSkip env edge) (fun _ w => P (edgeCount w.tables key)) (fun _ => False) := by
    intro edge hedge
    rw [← hedge]
    simp only [Option.some.injEq]
    exact Prog.Triple.bind (triple_relate_count edge (hP.imp_right Or.inr)).attempt
      (fun _ _ hw => hw)
  cases haction with
  | contradiction reason _ => exact hrelate _ rfl
  | obsolete _ _ => exact hrelate _ rfl
  | related weight => exact hrelate _ rfl
  | corrected _ => exact hrelate _ rfl
  | invalid _ _ => exact keeps_storeAgain_count (fun _ => rfl) hne
  | confidence c _ => exact keeps_storeAgain_count (fun _ => rfl) hne

/-- The actions of a turn add the edges they draw, where a write can fail at most those. -/
theorem edgeCount_applyExplicitActions {config : WriteInferenceConfig F}
    {target : MemoryNode F} {actions : List (InferredAction F)}
    (hactions : forall action, action ∈ actions ->
      exists m : MemoryNode F, key.1 ≠ m.id ∧ Follows config target m action)
    (hP : NoFaults env ∨ forall n, P (n + 1) -> P n) (now : Timestamp) (applied : Nat)
    {w : World F} (hw : P (edgeCount w.tables key
      + actions.countP (fun action => decide (action.drawnByTurn = some key)))) :
    P (edgeCount (applyExplicitActions env now actions applied w).2.tables key) := by
  have hloop : Prog.Triple
      (fun v : World F => P (edgeCount v.tables key
        + actions.countP (fun action => decide (action.drawnByTurn = some key))))
      (applyExplicitActions env now actions applied)
      (fun _ v => P (edgeCount v.tables key)) (fun _ => False) := by
    refine triple_applyExplicitActions_budget (I := fun n v => P (edgeCount v.tables key + n)) ?_
      applied
    intro action n haction
    rcases hactions action haction with ⟨m, hne, hfollows⟩
    have hshift : NoFaults env ∨ forall j, P (j + 1 + n) -> P (j + n) := by
      refine hP.imp_right (fun hless j hj => hless (j + n) ?_)
      rw [Nat.add_right_comm]
      exact hj
    have hstep : Prog.Triple _ (applyExplicitAction env now action)
        (fun _ v => P (edgeCount v.tables key + n)) (fun _ => False) :=
      triple_applyExplicitAction_count (P := fun j => P (j + n)) hfollows hne hshift
    refine hstep.weaken ?_ (fun _ _ hv => hv) (fun _ hv => hv)
    intro v hv
    simp only [decide_eq_true_eq] at hv
    rw [Nat.add_assoc, Nat.add_comm _ n]
    exact hv
  exact hloop.state_of_sure hw

end Counts

/-!
## The two passes
-/

section Passes

variable [Scalar F] {env : Env F} {P : Nat -> Prop}

/-- A store up to its inference. -/
def writeMemory (env : Env F) (node : MemoryNode F) : Op F Unit := do
  provision env [node]
  dbStoreMemory env node
  Prog.modify (fun w => { w with graph := GraphManager.addMemory w.graph node.id })
  let _ ← Prog.attempt (indexMemoryEntities env node)
  pure ()

theorem keeps_writeMemory_of {I : World F -> Prop} {node : MemoryNode F}
    (hprovision : Prog.Keeps I (provision env [node]))
    (hwrite : Prog.Keeps I (dbStoreMemory env node))
    (hregister : forall w, I w -> I { w with graph := GraphManager.addMemory w.graph node.id })
    (hindex : Prog.Keeps I (indexMemoryEntities env node)) :
    Prog.Keeps I (writeMemory env node) := by
  apply Prog.Keeps.bind hprovision
  intro _
  apply Prog.Keeps.bind hwrite
  intro _
  apply Prog.Keeps.bind (Prog.keeps_modify hregister)
  intro _
  apply Prog.Keeps.bind hindex.attempt
  intro _
  exact Prog.keeps_pure ()

def firstPass (env : Env F) (node : MemoryNode F) : Op F Unit :=
  if env.config.writeInference then runWriteInference env node else pure ()

theorem store_eq (env : Env F) (node : MemoryNode F) :
    store env node = writeMemory env node >>= fun _ => firstPass env node := by
  unfold writeMemory
  rw [Prog.bind_assoc]
  refine congrArg (fun rest => provision env [node] >>= rest) (funext fun _ => ?_)
  rw [Prog.bind_assoc]
  refine congrArg (fun rest => dbStoreMemory env node >>= rest) (funext fun _ => ?_)
  rw [Prog.bind_assoc]
  rfl

/-- The actions a store draws from its candidates. -/
def firstActions (env : Env F) (written : World F) (node : MemoryNode F) :
    List (InferredAction F) :=
  inferOnWrite env.text env.config.inferenceConfig node (firstCandidates env written node)

theorem inferOnWrite_nil (text : TextOps F) (config : WriteInferenceConfig F)
    (new : MemoryNode F) : inferOnWrite text config new [] = [] := by
  unfold inferOnWrite inferCorrection
  simp only [List.filter_nil, List.flatMap_nil, List.nil_append]
  split <;> rfl

/-- The first pass carries out its actions one after another. -/
theorem firstPass_state (env : Env F) (node : MemoryNode F) (w : World F) :
    exists ticks, w.ticks <= ticks ∧ (firstPass env node w).2 =
      (Prog.forEach (firstActions env w node) (fun action => do
        let _ ← Prog.attempt (applyInferredAction env action)
        pure ()) { w with ticks := ticks }).2 := by
  unfold firstActions firstPass firstCandidates runWriteInference
  by_cases henabled : env.config.writeInference = true
  · by_cases hempty : node.embedding.isEmpty = true
    · refine ⟨w.ticks, Nat.le_refl _, ?_⟩
      rw [if_pos henabled, if_pos hempty, if_neg (by simp [hempty]), inferOnWrite_nil]
      rfl
    · have hnonempty : node.embedding.isEmpty = false := by simpa using hempty
      refine ⟨w.ticks + 1, Nat.le_succ _, ?_⟩
      rw [if_pos henabled, if_neg hempty, if_pos ⟨henabled, hnonempty⟩]
      rfl
  · refine ⟨w.ticks, Nat.le_refl _, ?_⟩
    rw [if_neg henabled, if_neg (by simp [henabled]), inferOnWrite_nil]
    rfl

/-- The second pass carries out its actions one after another. -/
theorem runExplicitWriteInference_state (env : Env F) (id : MemoryId) (w : World F) :
    (w.tables.getMemory id = none ∧ (runExplicitWriteInference env id w).2 = w) ∨
      exists target ticks now, w.tables.getMemory id = some target ∧ w.ticks <= ticks ∧
        (runExplicitWriteInference env id w).2 =
          (applyExplicitActions env now (inferOnWrite env.text WriteInferenceConfig.default target
            (secondCandidates env w target)) 0 { w with ticks := ticks }).2 := by
  cases hget : w.tables.getMemory id with
  | none =>
      left
      refine ⟨rfl, ?_⟩
      have hfail : getMemory id w = (Except.error (MenteError.memoryNotFound id), w) := by
        unfold getMemory
        rw [hget]
      exact congrArg Prod.snd (Prog.bind_of_error hfail)
  | some target =>
      right
      have hload : getMemory id w = (Except.ok target, w) := by
        unfold getMemory
        rw [hget]
      refine ⟨target, w.ticks + 1 + 1, env.clock (w.ticks + 1), rfl, by omega, ?_⟩
      unfold runExplicitWriteInference
      rw [Prog.bind_of_ok hload]
      unfold secondCandidates
      rw [Tables.getMemory_id hget]
      rfl

/-- The first pass adds at most the edges its actions draw. -/
theorem firstPass_count_le {node : MemoryNode F} {w : World F}
    (htype : node.memoryType ≠ MemoryType.correction) (x : MemoryId) (edgeType : EdgeType) :
    edgeCount (firstPass env node w).2.tables (node.id, x, edgeType) <=
      edgeCount w.tables (node.id, x, edgeType) + passCount 2 env.config.inferenceConfig node
        (firstCandidates env w node) x edgeType := by
  rcases firstPass_state env node w with ⟨ticks, _, hstate⟩
  have hother := fun m hm => ((firstCandidates_spec env w node).2 m hm).1
  rw [hstate, ← countP_inferOnWrite drawsPairs_store env.text env.config.inferenceConfig htype
    hother]
  exact edgeCount_forEach_le env (firstActions env w node) _ { w with ticks := ticks }

/-- The second pass adds the edges its actions draw, where a write can fail at most those. -/
theorem secondPass_count {id : MemoryId} {w : World F}
    (htype : forall target, w.tables.getMemory id = some target ->
      target.memoryType ≠ MemoryType.correction)
    (hP : NoFaults env ∨ forall n, P (n + 1) -> P n) {x : MemoryId} {edgeType : EdgeType}
    (hw : P (edgeCount w.tables (id, x, edgeType) + secondCount env w id x edgeType)) :
    P (edgeCount (runExplicitWriteInference env id w).2.tables (id, x, edgeType)) := by
  rcases runExplicitWriteInference_state env id w with
    ⟨hnone, hstate⟩ | ⟨target, ticks, now, htarget, _, hstate⟩
  · unfold secondCount at hw
    rw [hnone] at hw
    rw [hstate]
    exact hw
  · have hid := Tables.getMemory_id htarget
    have hspec := secondCandidates_spec env w target
    unfold secondCount at hw
    rw [htarget, Option.elim_some, ← countP_inferOnWrite drawsPairs_turn env.text _
      (htype target htarget) (fun m hm => (hspec.2 m hm).1), hid] at hw
    have hfollows : forall action, action ∈ inferOnWrite env.text WriteInferenceConfig.default
        target (secondCandidates env w target) -> exists m : MemoryNode F,
          (id, x, edgeType).1 ≠ m.id ∧ Follows WriteInferenceConfig.default target m action := by
      intro action haction
      rcases follows_inferOnWrite haction with ⟨m, _, hne, hfollows⟩
      rw [hid] at hne
      exact ⟨m, hne.symm, hfollows⟩
    rw [hstate]
    exact edgeCount_applyExplicitActions hfollows hP now 0 hw

end Passes

/-!
## Confidence

Only the correction of a memory lowers its confidence, and a turn stores no correction.  It
can store corrections again, when it finds them obsolete, and each of those infers anew.
-/

section Confidence

variable [Scalar F] {env : Env F} {t0 : Tables F} {y : MemoryId} {c : F}

omit [Scalar F] in
def Confident (y : MemoryId) (c : F) (w : World F) : Prop :=
  exists node, w.tables.getMemory y = some node ∧ node.confidence = c

/-- To the rules the memories are those of the given tables. -/
abbrev SeenAs (t0 : Tables F) (w : World F) : Prop :=
  Bounded t0 (fun _ => False) (fun _ _ => True) w

/-- The first memory is a correction, and similar enough to the second to correct it. -/
def corrects (config : WriteInferenceConfig F) (t : Tables F) (id y : MemoryId) : Bool :=
  (t.getMemory id).any (fun new => (t.getMemory y).any (fun existing =>
    decide (new.memoryType = MemoryType.correction)
      && decide (config.correctionThreshold
        < cosineSimilarity new.embedding existing.embedding)))

omit [Scalar F] in
theorem viewsMemories_confident : ViewsMemories (Confident y c : World F -> Prop) := by
  rintro w w' _ hmemories htags _ _ ⟨node, hget, hconfidence⟩
  refine ⟨node, ?_, hconfidence⟩
  unfold Tables.getMemory Tables.tagsOf at hget ⊢
  rw [hmemories, htags]
  exact hget

/-- A stored memory has the confidence it is stored with. -/
theorem triple_dbStoreMemory_confident (node : MemoryNode F) :
    Prog.Triple (Confident y c) (dbStoreMemory env node)
      (fun _ => Confident y (if node.id = y then node.confidence else c)) (Confident y c) := by
  apply Prog.Triple.bind (Prog.keeps_gets _)
  intro dim
  apply triple_transact viewsMemories_confident.ignoresTicks
  rintro w t ⟨stored, hget, hconfidence⟩ hrun
  have hafter := Tables.getMemory_storeMemoryOn (Tables.storeMemory_ok hrun) y
  by_cases hid : node.id = y
  · rw [if_pos hid.symm] at hafter
    rw [if_pos hid]
    exact ⟨_, hafter, rfl⟩
  · rw [if_neg (fun heq => hid heq.symm), hget] at hafter
    rw [if_neg hid]
    exact ⟨stored, hafter, hconfidence⟩

theorem keeps_dbStoreMemory_confident {node : MemoryNode F}
    (h : node.id = y -> node.confidence = c) :
    Prog.Keeps (Confident y c) (dbStoreMemory env node) := by
  have hsame : (if node.id = y then node.confidence else c) = c := by
    split
    · rename_i hid
      exact h hid
    · rfl
  have htriple : Prog.Triple _ (dbStoreMemory env node) _ _ :=
    triple_dbStoreMemory_confident (y := y) (c := c) node
  rw [hsame] at htriple
  exact htriple

theorem keeps_storeBack_confident {node : MemoryNode F}
    (h : node.id = y -> node.confidence = c) :
    Prog.Keeps (Confident y c) (do
      dbStoreMemory env node
      emitLifecycleEvent env) :=
  Prog.Keeps.bind (keeps_dbStoreMemory_confident h)
    (fun _ => keeps_emitLifecycleEvent viewsMemories_confident)

theorem keeps_invalidateMemory_confident (id : MemoryId) (at_ : Timestamp) :
    Prog.Keeps (Confident y c) (invalidateMemory env id at_) := by
  apply Prog.Triple.bind (Q := fun node w => Confident y c w ∧ (node.id = y -> node.confidence = c))
  · rintro w ⟨stored, hstored, hconfidence⟩
    unfold getMemory
    cases hget : w.tables.getMemory id with
    | none => exact ⟨stored, hstored, hconfidence⟩
    | some node =>
        refine ⟨⟨stored, hstored, hconfidence⟩, ?_⟩
        intro hid
        rw [← hid, Tables.getMemory_id hget, hget] at hstored
        cases hstored
        exact hconfidence
  · intro node w hw
    have hback : Prog.Keeps (Confident y c) (do
        dbStoreMemory env (node.invalidate at_)
        emitLifecycleEvent env) := keeps_storeBack_confident hw.2
    exact hback w hw.1

omit [Scalar F] in
theorem keeps_relate_confident (edge : MemoryEdge F) :
    Prog.Keeps (Confident y c) (relate env edge) := by
  apply Prog.Keeps.bind
  · apply keeps_transact viewsMemories_confident.ignoresTicks
    intro w t hw hrun
    cases hrun
    exact hw
  · intro _
    exact keeps_onGraph (fun _ _ hw => hw)

/-- Drawing edges and ending validity leaves every confidence alone. -/
theorem keeps_applyInferredAction_confident {text : TextOps F}
    {config : WriteInferenceConfig F} {new existing : MemoryNode F} {action : InferredAction F}
    (h : action ∈ inferForPair text config new existing) :
    Prog.Keeps (Confident y c) (applyInferredAction env action) := by
  have hnow : Prog.Keeps (Confident y c) (currentTimeUs env) :=
    keeps_currentTimeUs viewsMemories_confident.ignoresTicks
  have hrelate : forall edge, Prog.Keeps (Confident y c) (do
      relate env edge
      emitLifecycleEvent env) :=
    fun edge => Prog.Keeps.bind (keeps_relate_confident edge)
      (fun _ => keeps_emitLifecycleEvent viewsMemories_confident)
  rw [inferForPair_eq, List.mem_append, List.mem_append] at h
  rcases h with (h | h) | h
  · split at h
    · rw [List.mem_singleton.mp h]
      exact Prog.Keeps.bind hnow (fun _ => hrelate _)
    · cases h
  · split at h
    · rcases List.mem_cons.mp h with heq | hmem
      · rw [heq]
        exact Prog.Keeps.bind hnow (fun _ =>
          Prog.Keeps.bind (keeps_invalidateMemory_confident _ _) (fun _ => hrelate _))
      · rw [List.mem_singleton.mp hmem]
        exact Prog.Keeps.bind (keeps_invalidateMemory_confident _ _)
          (fun _ => Prog.Keeps.bind hnow (fun _ => hrelate _))
    · cases h
  · split at h
    · rw [List.mem_singleton.mp h]
      exact Prog.Keeps.bind hnow (fun _ => keeps_relate_confident _)
    · cases h

theorem triple_rewriteMemory_confident (id : MemoryId) (c' : F) :
    Prog.Triple (Confident y c)
      (rewriteMemory env id (fun node => { node with confidence := c' }))
      (fun _ w => Confident y c w ∨ (id = y ∧ Confident y c' w))
      (fun w => Confident y c w ∨ (id = y ∧ Confident y c' w)) := by
  apply Prog.Triple.bind (Q := fun loaded w => Confident y c w ∧
    forall node : MemoryNode F, loaded = some node -> node.id = id)
  · apply Prog.triple_gets
    intro w hw
    exact ⟨hw, fun node hget => Tables.getMemory_id hget⟩
  intro loaded w hw
  cases loaded with
  | none => exact Or.inl hw.1
  | some node =>
      have hid := hw.2 node rfl
      have hwrite : Prog.Triple (Confident y c)
          (do
            dbStoreMemory env { node with confidence := c' }
            emitLifecycleEvent env)
          (fun _ w => Confident y c w ∨ (id = y ∧ Confident y c' w))
          (fun w => Confident y c w ∨ (id = y ∧ Confident y c' w)) := by
        have hemit : Prog.Keeps (Confident y (if node.id = y then c' else c))
            (emitLifecycleEvent env) := keeps_emitLifecycleEvent viewsMemories_confident
        have hpost : forall v : World F, Confident y (if node.id = y then c' else c) v ->
            Confident y c v ∨ (id = y ∧ Confident y c' v) := by
          intro v hv
          split at hv
          · rename_i heq
            exact Or.inr ⟨hid.symm.trans heq, hv⟩
          · exact Or.inl hv
        apply Prog.Triple.bind
          ((triple_dbStoreMemory_confident { node with confidence := c' }).weaken
            (fun _ hv => hv) (fun _ _ hv => hv) (fun _ hv => Or.inl hv))
        intro _
        exact hemit.weaken (fun _ hv => hv) (fun _ => hpost) hpost
      exact hwrite w hw.1

/-- The memory is a correction that is similar enough to correct the other one. -/
def Corrects (config : WriteInferenceConfig F) (t0 : Tables F) (new : MemoryNode F)
    (y : MemoryId) : Prop :=
  new.memoryType = MemoryType.correction ∧ exists existing, t0.getMemory y = some existing ∧
    config.correctionThreshold < cosineSimilarity new.embedding existing.embedding

/-- The confidence is the given one, or that of a memory corrected once. -/
def MaybeLowered (config : WriteInferenceConfig F) (t0 : Tables F) (new : MemoryNode F)
    (y : MemoryId) (c : F) (w : World F) : Prop :=
  Confident y c w ∨ (Corrects config t0 new y ∧ Confident y (correctedConfidence config c) w)

/-- What a rule is given of a memory: its confidence, and the embedding of the first state. -/
def GivenAs (t0 : Tables F) (y : MemoryId) (c : F) (m : MemoryNode F) : Prop :=
  m.id = y -> m.confidence = c ∧ exists n, t0.getMemory y = some n ∧ m.embedding = n.embedding

/-- A correction lowers the confidence of the memory it corrects. -/
theorem triple_lowerConfidence (env : Env F) {new original : MemoryNode F}
    (hgiven : GivenAs t0 y c original) (htype : new.memoryType = MemoryType.correction)
    (hthreshold : env.config.inferenceConfig.correctionThreshold <
      cosineSimilarity new.embedding original.embedding) :
    Prog.Triple (Confident y c) (applyInferredAction env
      (InferredAction.updateConfidence original.id
        (correctedConfidence env.config.inferenceConfig original.confidence)))
      (fun _ => MaybeLowered env.config.inferenceConfig t0 new y c)
      (MaybeLowered env.config.inferenceConfig t0 new y c) := by
  have hpost : forall v : World F, (Confident y c v ∨ (original.id = y ∧ Confident y
      (correctedConfidence env.config.inferenceConfig original.confidence) v)) ->
      MaybeLowered env.config.inferenceConfig t0 new y c v := by
    rintro v (hv | ⟨hid, hv⟩)
    · exact Or.inl hv
    · rcases hgiven hid with ⟨hconfidence, n, hn, hembedding⟩
      rw [hconfidence] at hv
      rw [hembedding] at hthreshold
      exact Or.inr ⟨⟨htype, n, hn, hthreshold⟩, hv⟩
  exact (triple_rewriteMemory_confident _ _).weaken (fun _ hv => hv) (fun _ => hpost) hpost

theorem triple_inferCorrection_confident (env : Env F) (new : MemoryNode F)
    {candidates : List (MemoryNode F)}
    (hgiven : forall m, m ∈ candidates -> GivenAs t0 y c m) :
    Prog.Triple (Confident y c) (Prog.forEach
      (inferCorrection env.config.inferenceConfig new candidates) (fun action => do
        let _ ← Prog.attempt (applyInferredAction env action)
        pure ()))
      (fun _ => MaybeLowered env.config.inferenceConfig t0 new y c)
      (MaybeLowered env.config.inferenceConfig t0 new y c) := by
  rcases inferCorrection_cases env.config.inferenceConfig new candidates with
    hnil | ⟨original, horiginal, htype, hthreshold, hactions⟩
  · rw [hnil]
    exact fun _ hv => Or.inl hv
  rw [hactions]
  have hedge : Prog.Keeps (Confident y c) (applyInferredAction env
      (InferredAction.createEdge new.id original.id EdgeType.supersedes 1)) :=
    Prog.Keeps.bind (keeps_currentTimeUs viewsMemories_confident.ignoresTicks)
      (fun _ => keeps_relate_confident _)
  have hlower := triple_lowerConfidence env (hgiven original horiginal) htype hthreshold
  apply Prog.Triple.bind (Q := fun _ => Confident y c)
  · exact (Prog.Keeps.bind hedge.attempt (fun _ => Prog.keeps_pure ())).triple
      (fun _ hv => Or.inl hv)
  · intro _
    apply Prog.Triple.bind (Q := fun _ => MaybeLowered env.config.inferenceConfig t0 new y c)
    · exact Prog.Triple.bind hlower.attempt (fun _ _ hv => hv)
    · exact fun _ _ hv => hv

/-- One inference lowers a confidence at most once, and only for a correction. -/
theorem triple_runWriteInference_confident (new : MemoryNode F) :
    Prog.Triple (fun w => SeenAs t0 w ∧ Confident y c w) (runWriteInference env new)
      (fun _ => MaybeLowered env.config.inferenceConfig t0 new y c)
      (MaybeLowered env.config.inferenceConfig t0 new y c) := by
  unfold runWriteInference
  apply Prog.triple_ite
  · intro _ w hw
    exact Or.inl hw.2
  intro _
  -- the clock does not change what is loaded
  have hnow : Prog.Keeps (fun w => SeenAs t0 w ∧ Confident y c w) (currentTimeUs env) :=
    (keeps_currentTimeUs viewsMemories_bounded.ignoresTicks).and
      (keeps_currentTimeUs viewsMemories_confident.ignoresTicks)
  apply Prog.Triple.bind (hnow.triple (fun _ hw => Or.inl hw.2))
  intro now
  apply Prog.Triple.bind (Q := fun existing w => Confident y c w ∧
    forall m : MemoryNode F, m ∈ existing -> GivenAs t0 y c m)
  · apply Prog.triple_gets
    rintro w ⟨hseen, stored, hstored, hconfidence⟩
    refine ⟨⟨stored, hstored, hconfidence⟩, ?_⟩
    intro m hm hid
    rcases List.mem_filterMap.mp hm with ⟨hit, _, hget⟩
    rw [← Tables.getMemory_id hget, hid, hstored] at hget
    cases hget
    rcases hseen.known y stored hstored with hfree | ⟨n, hn, htraits⟩
    · exact False.elim hfree
    · rw [hid] at hn
      simp only [traits, Prod.mk.injEq] at htraits
      exact ⟨hconfidence, n, hn, htraits.2.2.1⟩
  intro existing w hw
  have hpairs : Prog.Keeps (Confident y c) (Prog.forEach
      ((existing.filter (fun m => decide (m.id ≠ new.id))).flatMap
        (inferForPair env.text env.config.inferenceConfig new)) (fun action => do
        let _ ← Prog.attempt (applyInferredAction env action)
        pure ())) := by
    apply Prog.Keeps.forEach
    intro action haction
    rcases List.mem_flatMap.mp haction with ⟨m, _, hpair⟩
    exact Prog.Keeps.bind (keeps_applyInferredAction_confident hpair).attempt
      (fun _ => Prog.keeps_pure ())
  have hcorrection := triple_inferCorrection_confident env new
    (fun m (hm : m ∈ existing.filter (fun m => decide (m.id ≠ new.id))) =>
      hw.2 m (List.mem_of_mem_filter hm))
  unfold inferOnWrite
  simp only
  rw [Prog.forEach_append]
  exact Prog.Triple.bind (hpairs.triple (fun _ hv => Or.inl hv)) (fun _ => hcorrection) w hw.1

/-- Storing a memory that the rules have seen lowers a confidence at most once. -/
theorem store_confident {node : MemoryNode F} (hnode : Known t0 (fun _ => False) node)
    (hsame : node.id = y -> node.confidence = c) {w : World F} (hseen : SeenAs t0 w)
    (hw : Confident y c w) :
    Confident y c (store env node w).2 ∨
      (env.config.writeInference = true ∧ Corrects env.config.inferenceConfig t0 node y ∧
        Confident y (correctedConfidence env.config.inferenceConfig c) (store env node w).2) := by
  -- up to the inference the confidence stays, and the memories are seen as they were
  have hwrite : Prog.Keeps (fun w => SeenAs t0 w ∧ Confident y c w) (writeMemory env node) := by
    refine keeps_writeMemory_of ?_ ?_ (fun w hw => ⟨⟨hw.1.hides, hw.1.known⟩, hw.2⟩) ?_
    · exact (keeps_provision viewsMemories_bounded [node]).and
        (keeps_provision viewsMemories_confident [node])
    · exact (keeps_dbStoreMemory_bounded hnode).and (keeps_dbStoreMemory_confident hsame)
    · exact (keeps_indexMemoryEntities viewsMemories_bounded node).and
        (keeps_indexMemoryEntities viewsMemories_confident node)
  have hpass : Prog.Triple (fun w => SeenAs t0 w ∧ Confident y c w) (firstPass env node)
      (fun _ w => Confident y c w ∨ (env.config.writeInference = true ∧
        Corrects env.config.inferenceConfig t0 node y ∧
          Confident y (correctedConfidence env.config.inferenceConfig c) w))
      (fun w => Confident y c w ∨ (env.config.writeInference = true ∧
        Corrects env.config.inferenceConfig t0 node y ∧
          Confident y (correctedConfidence env.config.inferenceConfig c) w)) := by
    unfold firstPass
    apply Prog.triple_ite
    · intro henabled
      have hpost : forall v : World F, MaybeLowered env.config.inferenceConfig t0 node y c v ->
          Confident y c v ∨ (env.config.writeInference = true ∧
            Corrects env.config.inferenceConfig t0 node y ∧
              Confident y (correctedConfidence env.config.inferenceConfig c) v) :=
        fun v hv => hv.imp_right (fun hlow => ⟨henabled, hlow⟩)
      exact (triple_runWriteInference_confident node).weaken (fun _ hv => hv) (fun _ => hpost) hpost
    · intro _ v hv
      exact Or.inl hv.2
  rw [store_eq]
  exact Prog.Triple.state (Prog.Triple.bind (hwrite.triple (fun _ hv => Or.inl hv.2))
    (fun _ => hpass)) ⟨hseen, hw⟩

theorem storeAgain_state (env : Env F) (id : MemoryId) (f : MemoryNode F -> MemoryNode F)
    (w : World F) :
    (storeAgain env id f w).2 =
      (w.tables.getMemory id).elim w (fun node => (store env (f node) w).2) := by
  unfold storeAgain
  cases hget : w.tables.getMemory id with
  | none =>
      have hload : (Prog.gets (fun v => v.tables.getMemory id) : Op F _) w =
          (Except.ok none, w) := congrArg (fun loaded => (Except.ok loaded, w)) hget
      rw [Prog.bind_of_ok hload]
      rfl
  | some node =>
      have hload : (Prog.gets (fun v => v.tables.getMemory id) : Op F _) w =
          (Except.ok (some node), w) := congrArg (fun loaded => (Except.ok loaded, w)) hget
      rw [Prog.bind_of_ok hload]
      rfl

/-- The nested store of a memory lowers a confidence at most once. -/
theorem storeAgain_confident {id : MemoryId} {f : MemoryNode F -> MemoryNode F}
    (hf : forall node, (f node).id = node.id ∧ traits (f node) = traits node ∧
      (f node).confidence = node.confidence) {w : World F} (hseen : SeenAs t0 w)
    (hw : Confident y c w) :
    Confident y c (storeAgain env id f w).2 ∨
      (env.config.writeInference = true ∧
        corrects env.config.inferenceConfig t0 id y = true ∧
        Confident y (correctedConfidence env.config.inferenceConfig c)
          (storeAgain env id f w).2) := by
  cases hget : w.tables.getMemory id with
  | none =>
      rw [storeAgain_state, hget]
      exact Or.inl hw
  | some node =>
      rw [storeAgain_state, hget, Option.elim_some]
      have hid := Tables.getMemory_id hget
      have hloaded := hseen.known id node hget
      have hknown : Known t0 (fun _ => False) (f node) :=
        hloaded.of_traits (hf node).1 (hf node).2.1
      have hsame : (f node).id = y -> (f node).confidence = c := by
        intro heq
        rcases hw with ⟨stored, hstored, hconfidence⟩
        rw [← heq, (hf node).1, hid, hget] at hstored
        cases hstored
        exact (hf node).2.2.trans hconfidence
      have hstore : Confident y c (store env (f node) w).2 ∨ _ :=
        store_confident hknown hsame hseen hw
      rcases hstore with hkept | ⟨henabled, hlow⟩
      · exact Or.inl hkept
      · refine Or.inr ⟨henabled, ?_, hlow.2⟩
        rcases hlow.1 with ⟨htype, existing, hexisting, hthreshold⟩
        rcases hloaded with hfree | ⟨n, hn, htraits⟩
        · exact False.elim hfree
        have hall := (hf node).2.1.trans htraits
        simp only [traits, Prod.mk.injEq] at hall
        unfold corrects
        rw [hid] at hn
        rw [hn, hexisting, Option.any_some, Option.any_some, ← hall.2.1, ← hall.2.2.1]
        simp [htype, hthreshold]

/-- The turn stores a correction again that can lower the confidence of the memory. -/
def InferredAction.lowers (env : Env F) (t0 : Tables F) (y : MemoryId) : InferredAction F -> Bool
  | InferredAction.invalidateMemory memory _ _ =>
      env.config.writeInference && corrects env.config.inferenceConfig t0 memory y
  | _ => false

/-- The confidence is the first one and at most the given number of actions can lower it, or
it was lowered once and none is left that can. -/
def LoweredOnce (env : Env F) (t0 : Tables F) (y : MemoryId) (c : F) (n : Nat) (w : World F) :
    Prop :=
  SeenAs t0 w ∧ ((Confident y c w ∧ n <= 1) ∨
    (Confident y (correctedConfidence env.config.inferenceConfig c) w ∧ n = 0))

omit [Scalar F] in
theorem succeeds_relateOrSkip (edge : MemoryEdge F) : Prog.Succeeds (relateOrSkip env edge) :=
  (Prog.succeeds_attempt _).bind (fun _ => Prog.succeeds_pure 1)

theorem succeeds_storeAgain (id : MemoryId) (f : MemoryNode F -> MemoryNode F) :
    Prog.Succeeds (storeAgain env id f) := by
  apply (Prog.succeeds_gets _).bind
  intro loaded
  cases loaded with
  | none => exact Prog.succeeds_pure 0
  | some node => exact (Prog.succeeds_attempt _).bind (fun _ => Prog.succeeds_pure 1)

theorem triple_relateOrSkip_lowered (edge : MemoryEdge F) (n : Nat) :
    Prog.Triple (LoweredOnce env t0 y c n) (relateOrSkip env edge)
      (fun _ => LoweredOnce env t0 y c n) (fun _ => False) := by
  have hconfident : forall c' : F, Prog.Keeps (Confident y c') (relateOrSkip env edge) :=
    fun c' => Prog.Keeps.bind (keeps_relate_confident edge).attempt (fun _ => Prog.keeps_pure 1)
  have hseen : Prog.Keeps (SeenAs t0) (relateOrSkip env edge) :=
    keeps_relateOrSkip_bounded (fun _ => trivial)
  refine (succeeds_relateOrSkip edge).triple_of_states ?_
  rintro w ⟨hw, hlow⟩
  refine ⟨hseen.state hw, ?_⟩
  rcases hlow with ⟨hfirst, hn⟩ | ⟨hsecond, hn⟩
  · exact Or.inl ⟨(hconfident c).state hfirst, hn⟩
  · exact Or.inr ⟨(hconfident _).state hsecond, hn⟩

/-- Each action of a turn uses up one of the corrections that are left. -/
theorem triple_applyExplicitAction_lowered {text : TextOps F} {config : WriteInferenceConfig F}
    {target existing : MemoryNode F} {action : InferredAction F}
    (h : action ∈ inferForPair text config target existing) (now : Timestamp) (n : Nat) :
    Prog.Triple (LoweredOnce env t0 y c (n + if action.lowers env t0 y then 1 else 0))
      (applyExplicitAction env now action) (fun _ => LoweredOnce env t0 y c n)
      (fun _ => False) := by
  rw [inferForPair_eq, List.mem_append, List.mem_append] at h
  rcases h with (h | h) | h
  · split at h
    · rw [List.mem_singleton.mp h]
      exact triple_relateOrSkip_lowered _ n
    · cases h
  · split at h
    · rcases List.mem_cons.mp h with heq | hmem
      · rw [heq]
        exact triple_relateOrSkip_lowered _ n
      · rw [List.mem_singleton.mp hmem]
        have hf : forall node : MemoryNode F,
            ({ node with validUntil := some target.createdAt } : MemoryNode F).id = node.id ∧
              traits { node with validUntil := some target.createdAt } = traits node ∧
              ({ node with validUntil := some target.createdAt } : MemoryNode F).confidence =
                node.confidence := fun _ => ⟨rfl, rfl, rfl⟩
        have hseen : Prog.Keeps (SeenAs t0) (storeAgain env existing.id
            (fun node => { node with validUntil := some target.createdAt })) :=
          keeps_storeAgain_bounded (fun node => ⟨(hf node).1, (hf node).2.1⟩)
            (fun _ _ _ _ _ _ _ _ => trivial)
        refine (succeeds_storeAgain _ _).triple_of_states ?_
        rintro w ⟨hw, hlow⟩
        refine ⟨hseen.state hw, ?_⟩
        have hlowers : env.config.writeInference = true ->
            corrects env.config.inferenceConfig t0 existing.id y = true ->
            InferredAction.lowers env t0 y (InferredAction.invalidateMemory existing.id target.id
              target.createdAt) = true := by
          intro henabled hcorrects
          simp only [InferredAction.lowers, henabled, hcorrects, Bool.and_self]
        rcases hlow with ⟨hfirst, hn⟩ | ⟨hsecond, hn⟩
        · rcases storeAgain_confident hf hw hfirst with hkept | ⟨henabled, hcorrects, hlowered⟩
          · exact Or.inl ⟨hkept, Nat.le_trans (Nat.le_add_right n _) hn⟩
          · rw [if_pos (hlowers henabled hcorrects)] at hn
            exact Or.inr ⟨hlowered, by omega⟩
        · rcases storeAgain_confident hf hw hsecond with hkept | ⟨henabled, hcorrects, _⟩
          · exact Or.inr ⟨hkept, Nat.eq_zero_of_add_eq_zero_right hn⟩
          · rw [if_pos (hlowers henabled hcorrects)] at hn
            cases hn
    · cases h
  · split at h
    · rw [List.mem_singleton.mp h]
      exact triple_relateOrSkip_lowered _ n
    · cases h

/-- A turn finds at most one correction obsolete that can lower the confidence of a
memory. -/
def CorrectionsApart (env : Env F) (stored : World F) (id : MemoryId) : Prop :=
  env.config.writeInference = true ->
  forall target m m' y, stored.tables.getMemory id = some target -> y ≠ id ->
    m ∈ secondCandidates env stored target -> m' ∈ secondCandidates env stored target ->
    Obsoleting WriteInferenceConfig.default target m ->
    Obsoleting WriteInferenceConfig.default target m' ->
    corrects env.config.inferenceConfig stored.tables m.id y = true ->
    corrects env.config.inferenceConfig stored.tables m'.id y = true -> m.id = m'.id

theorem countP_lowers_pair (env : Env F) (t0 : Tables F) (y : MemoryId)
    (text : TextOps F) (config : WriteInferenceConfig F) (new existing : MemoryNode F) :
    (inferForPair text config new existing).countP (InferredAction.lowers env t0 y) =
      if Obsoleting config new existing ∧ env.config.writeInference = true ∧
        corrects env.config.inferenceConfig t0 existing.id y = true then 1 else 0 := by
  rw [inferForPair_eq, List.countP_append, List.countP_append, apply_ite (List.countP _),
    apply_ite (List.countP _), apply_ite (List.countP _), List.countP_nil]
  by_cases hobsolete : Obsoleting config new existing
  · simp [hobsolete, InferredAction.lowers, List.countP_cons]
  · simp [hobsolete, InferredAction.lowers]

/-- At most one action of the turn can lower the confidence of a memory. -/
theorem countP_lowers_le_one {stored : World F} {id : MemoryId} {target : MemoryNode F}
    (h : CorrectionsApart env stored id) (htarget : stored.tables.getMemory id = some target)
    (hy : y ≠ id) :
    ((secondCandidates env stored target).flatMap
      (inferForPair env.text WriteInferenceConfig.default target)).countP
        (InferredAction.lowers env stored.tables y) <= 1 := by
  have hspec := secondCandidates_spec env stored target
  have hcount : forall existing : List (MemoryNode F), (existing.flatMap
      (inferForPair env.text WriteInferenceConfig.default target)).countP
        (InferredAction.lowers env stored.tables y) =
      existing.countP (fun m => decide (Obsoleting WriteInferenceConfig.default target m ∧
        env.config.writeInference = true ∧
        corrects env.config.inferenceConfig stored.tables m.id y = true)) := by
    intro existing
    induction existing with
    | nil => rfl
    | cons m rest ih =>
        rw [List.flatMap_cons, List.countP_append, ih, countP_lowers_pair, List.countP_cons,
          Nat.add_comm]
        simp only [decide_eq_true_eq]
  rw [hcount, List.countP_eq_length_filter]
  have hnodup := hspec.1.sublist ((List.filter_sublist (p := fun m =>
    decide (Obsoleting WriteInferenceConfig.default target m ∧
      env.config.writeInference = true ∧
      corrects env.config.inferenceConfig stored.tables m.id y = true))).map MemoryNode.id)
  have hmem : forall m, m ∈ (secondCandidates env stored target).filter (fun m =>
      decide (Obsoleting WriteInferenceConfig.default target m ∧
        env.config.writeInference = true ∧
        corrects env.config.inferenceConfig stored.tables m.id y = true)) ->
      m ∈ secondCandidates env stored target ∧
        Obsoleting WriteInferenceConfig.default target m ∧ env.config.writeInference = true ∧
        corrects env.config.inferenceConfig stored.tables m.id y = true := by
    intro m hm
    exact ⟨List.mem_of_mem_filter hm, of_decide_eq_true (List.mem_filter.mp hm).2⟩
  revert hnodup hmem
  generalize (secondCandidates env stored target).filter _ = found
  intro hnodup hmem
  match found with
  | [] => exact Nat.zero_le 1
  | [m] => exact Nat.le_refl 1
  | m :: m' :: rest =>
      -- the two would be corrections of the same memory
      rcases hmem m List.mem_cons_self with ⟨hm, hobsolete, henabled, hcorrects⟩
      rcases hmem m' (List.mem_cons_of_mem m List.mem_cons_self) with
        ⟨hm', hobsolete', _, hcorrects'⟩
      have hid := h henabled target m m' y htarget hy hm hm' hobsolete hobsolete' hcorrects
        hcorrects'
      rw [List.map_cons, List.nodup_cons, List.map_cons, hid] at hnodup
      exact absurd List.mem_cons_self hnodup.1

/-- The second pass lowers the confidence of a memory at most once. -/
theorem secondPass_confident {stored : World F} {id : MemoryId}
    (htype : forall target, stored.tables.getMemory id = some target ->
      target.memoryType ≠ MemoryType.correction)
    (h : CorrectionsApart env stored id) (hy : y ≠ id) (hw : Confident y c stored) :
    Confident y c (runExplicitWriteInference env id stored).2 ∨
      Confident y (correctedConfidence env.config.inferenceConfig c)
        (runExplicitWriteInference env id stored).2 := by
  rcases runExplicitWriteInference_state env id stored with
    ⟨_, hstate⟩ | ⟨target, ticks, now, htarget, _, hstate⟩
  · rw [hstate]
    exact Or.inl hw
  have hspec := secondCandidates_spec env stored target
  have hothers : (secondCandidates env stored target).filter
      (fun m => decide (m.id ≠ target.id)) = secondCandidates env stored target :=
    List.filter_eq_self.mpr (fun m hm => decide_eq_true (hspec.2 m hm).1)
  have hactions : inferOnWrite env.text WriteInferenceConfig.default target
      (secondCandidates env stored target) = (secondCandidates env stored target).flatMap
        (inferForPair env.text WriteInferenceConfig.default target) := by
    unfold inferOnWrite
    simp only
    rw [hothers, inferCorrection, if_neg (htype target htarget), List.append_nil]
  have hloop : Prog.Triple (LoweredOnce env stored.tables y c ((inferOnWrite env.text
      WriteInferenceConfig.default target (secondCandidates env stored target)).countP
        (InferredAction.lowers env stored.tables y)))
      (applyExplicitActions env now (inferOnWrite env.text WriteInferenceConfig.default target
        (secondCandidates env stored target)) 0)
      (fun _ => LoweredOnce env stored.tables y c 0) (fun _ => False) := by
    refine triple_applyExplicitActions_budget ?_ 0
    intro action n haction
    rw [hactions] at haction
    rcases List.mem_flatMap.mp haction with ⟨m, _, hpair⟩
    exact triple_applyExplicitAction_lowered hpair now n
  have hstart : LoweredOnce env stored.tables y c ((inferOnWrite env.text
      WriteInferenceConfig.default target (secondCandidates env stored target)).countP
        (InferredAction.lowers env stored.tables y)) { stored with ticks := ticks } := by
    rw [hactions]
    refine ⟨?_, Or.inl ⟨hw, countP_lowers_le_one h htarget hy⟩⟩
    constructor
    · intro _ _ _
      trivial
    · intro j m hget
      exact Or.inr ⟨m, Tables.getMemory_id hget ▸ hget, rfl⟩
  rw [hstate]
  rcases (hloop.state_of_sure hstart).2 with ⟨hfirst, _⟩ | ⟨hsecond, _⟩
  · exact Or.inl hfirst
  · exact Or.inr hsecond

/-- The first pass of a memory that is no correction lowers no confidence. -/
theorem firstPass_confident {node : MemoryNode F} {w : World F}
    (htype : node.memoryType ≠ MemoryType.correction) (hw : Confident y c w) :
    Confident y c (firstPass env node w).2 := by
  rcases firstPass_state env node w with ⟨ticks, hticks, hstate⟩
  have hkeeps : Prog.Keeps (Confident y c) (Prog.forEach (firstActions env w node)
      (fun action => do
        let _ ← Prog.attempt (applyInferredAction env action)
        pure ())) := by
    apply Prog.Keeps.forEach
    intro action haction
    rcases List.mem_append.mp haction with hpair | hcorrection
    · rcases List.mem_flatMap.mp hpair with ⟨m, _, hm⟩
      exact Prog.Keeps.bind (keeps_applyInferredAction_confident hm).attempt
        (fun _ => Prog.keeps_pure ())
    · rw [inferCorrection, if_neg htype] at hcorrection
      cases hcorrection
  rw [hstate]
  exact hkeeps.state hw

theorem keeps_writeMemory_confident {node : MemoryNode F} (h : y ≠ node.id) :
    Prog.Keeps (Confident y c) (writeMemory env node) :=
  keeps_writeMemory_of (keeps_provision viewsMemories_confident [node])
    (keeps_dbStoreMemory_confident (fun heq => absurd heq.symm h)) (fun _ hw => hw)
    (keeps_indexMemoryEntities viewsMemories_confident node)

end Confidence

/-!
## Edges that are certainly drawn
-/

section Certain

variable [Scalar F] {env : Env F} {key : EdgeKey} {dim : Nat} {existing : List (MemoryNode F)}

/-- The memories are stored with their embeddings, and the index takes them again. -/
structure Restorable (dim : Nat) (existing : List (MemoryNode F)) (w : World F) : Prop where
  dimension : w.embeddingDim = dim
  loads : forall m, m ∈ existing -> exists node, w.tables.getMemory m.id = some node ∧
    node.embedding = m.embedding
  accepts : forall m, m ∈ existing -> w.tables.Accepts dim m.embedding

/-- Storing back what was loaded keeps all of them restorable. -/
theorem Restorable.store {w : World F} (hw : Restorable dim existing w) {node : MemoryNode F}
    (hget : w.tables.getMemory node.id = some node) (at_ : Timestamp) {t : Tables F}
    (hrun : Tables.storeMemoryOn (node.invalidate at_) dim w.tables = Except.ok t) (ticks : Nat) :
    Restorable dim existing { w with tables := t, ticks := ticks } := by
  refine ⟨hw.dimension, ?_, ?_⟩
  · intro other hother
    have hafter := Tables.getMemory_storeMemoryOn hrun other.id
    rcases hw.loads other hother with ⟨n, hn, hsame⟩
    by_cases heq : other.id = (node.invalidate at_).id
    · have hboth : n = node := by
        have hid : other.id = node.id := heq
        rw [hid, hget] at hn
        exact (Option.some.inj hn).symm
      rw [if_pos heq] at hafter
      refine ⟨_, hafter, ?_⟩
      rw [← hsame, hboth]
      rfl
    · rw [if_neg heq, hn] at hafter
      exact ⟨n, hafter, hsame⟩
  · intro other hother hpos hne
    rcases hw.accepts other hother hpos hne with ⟨v, hv, hlength⟩
    have hvec := (Tables.storeMemoryOn_vec hrun).2
    rw [hv] at hvec
    exact ⟨_, hvec, hlength⟩

/-- Without faults a restorable memory is invalidated. -/
theorem invalidateMemory_sure (hfault : NoFaults env)
    (hfits : forall m, m ∈ existing -> Tables.dimensionMismatch dim m = false)
    {m : MemoryNode F} (hm : m ∈ existing) (at_ : Timestamp) {w : World F}
    (hw : Restorable dim existing w) :
    exists w', invalidateMemory env m.id at_ w = (Except.ok (), w') ∧
      Restorable dim existing w' ∧ w'.tables.edges = w.tables.edges := by
  rcases hw.loads m hm with ⟨node, hget, hembedding⟩
  have hsame : (node.invalidate at_).embedding = m.embedding := hembedding
  have hload : getMemory m.id w = (Except.ok node, w) := by
    unfold getMemory
    rw [hget]
  have haccepts : w.tables.Accepts dim (node.invalidate at_).embedding := by
    rw [hsame]
    exact hw.accepts m hm
  rcases Tables.storeMemoryOn_cases w.tables (node.invalidate at_) dim with
    ⟨_, hrun⟩ | ⟨hrefuses, _⟩
  · have hstore : Tables.storeMemory w.embeddingDim (node.invalidate at_) w.tables =
        Tables.storeMemoryOn (node.invalidate at_) dim w.tables := by
      have hfit : Tables.dimensionMismatch dim (node.invalidate at_) = false := by
        rw [← hfits m hm]
        unfold Tables.dimensionMismatch
        rw [hsame]
      unfold Tables.storeMemory
      rw [hw.dimension, hfit]
      rfl
    have hwrite := transact_eq hfault (hstore.trans hrun)
    refine ⟨_, ?_, hw.store (Tables.getMemory_id hget ▸ hget) at_ hrun (w.ticks + 1 + 1), ?_⟩
    · unfold invalidateMemory
      rw [Prog.bind_of_ok hload]
      exact (Prog.bind_of_ok hwrite).trans (transact_eq hfault rfl)
    · exact Tables.storeMemoryOn_edges hrun
  · exact absurd haccepts hrefuses

/-- The memories can be restored, and with so many edges to come there are enough. -/
def Enough (dim : Nat) (existing : List (MemoryNode F)) (key : EdgeKey) (N n : Nat)
    (w : World F) : Prop :=
  Restorable dim existing w ∧ N <= edgeCount w.tables key + n

omit [Scalar F] in
theorem keeps_relate_restorable (edge : MemoryEdge F) :
    Prog.Keeps (Restorable dim existing) (relate env edge) := by
  apply Prog.Keeps.bind
  · apply keeps_transact (fun w n _ hw => ⟨hw.dimension, hw.loads, hw.accepts⟩)
    intro w t hw hrun
    cases hrun
    exact ⟨hw.dimension, hw.loads, hw.accepts⟩
  · intro _
    exact keeps_onGraph (fun _ _ hw => ⟨hw.dimension, hw.loads, hw.accepts⟩)

omit [Scalar F] in
theorem triple_relate_enough (hfault : NoFaults env) (edge : MemoryEdge F) (N n : Nat) :
    Prog.Triple (Enough dim existing key N (n + if edgeKey edge = key then 1 else 0))
      (relate env edge) (fun _ => Enough dim existing key N n) (Enough dim existing key N n) := by
  have hcount : Prog.Triple
      (fun w => N <= edgeCount w.tables key + (if edgeKey edge = key then 1 else 0) + n)
      (relate env edge) (fun _ w => N <= edgeCount w.tables key + n)
      (fun w => N <= edgeCount w.tables key + n) :=
    triple_relate_count (P := fun j => N <= j + n) edge (Or.inl hfault)
  refine (Prog.Triple.and (keeps_relate_restorable edge) hcount).weaken ?_ (fun _ _ hw => hw)
    (fun _ hw => hw)
  rintro w ⟨hw, hN⟩
  refine ⟨hw, ?_⟩
  rw [Nat.add_assoc, Nat.add_comm _ n]
  exact hN

/-- Without faults an action draws its edge. -/
theorem triple_applyInferredAction_enough (hfault : NoFaults env)
    (hfits : forall m, m ∈ existing -> Tables.dimensionMismatch dim m = false)
    {text : TextOps F} {config : WriteInferenceConfig F} {new m : MemoryNode F}
    (hm : m ∈ existing) {action : InferredAction F}
    (h : action ∈ inferForPair text config new m) (N n : Nat) :
    Prog.Triple
      (Enough dim existing key N (n + if action.drawnByStore = some key then 1 else 0))
      (applyInferredAction env action) (fun _ => Enough dim existing key N n)
      (Enough dim existing key N n) := by
  have hticks : forall k, IgnoresTicks (Enough dim existing key N k) :=
    fun k w j _ hw => ⟨⟨hw.1.dimension, hw.1.loads, hw.1.accepts⟩, hw.2⟩
  have hnow : forall k, Prog.Triple (Enough dim existing key N k) (currentTimeUs env)
      (fun _ => Enough dim existing key N k) (fun _ => False) := by
    intro k w hw
    exact hticks k w (w.ticks + 1) (Nat.le_succ _) hw
  have hemit : Prog.Keeps (Enough dim existing key N n) (emitLifecycleEvent env) := by
    apply keeps_transact (hticks n)
    intro w t hw hrun
    cases hrun
    exact hw
  have hinvalidate : forall k at_, Prog.Triple (Enough dim existing key N k)
      (invalidateMemory env m.id at_) (fun _ => Enough dim existing key N k)
      (fun _ => False) := by
    rintro k at_ w ⟨hw, hN⟩
    rcases invalidateMemory_sure hfault hfits hm at_ hw with ⟨w', hrun, hw', hedges⟩
    rw [hrun]
    refine ⟨hw', ?_⟩
    rw [edgeCount_of_edges hedges]
    exact hN
  have hrelate : forall edge : MemoryEdge F, some (edgeKey edge) = action.drawnByStore ->
      Prog.Triple
        (Enough dim existing key N (n + if action.drawnByStore = some key then 1 else 0))
        (relate env edge) (fun _ => Enough dim existing key N n)
        (Enough dim existing key N n) := by
    intro edge hedge
    rw [← hedge]
    simp only [Option.some.injEq]
    exact triple_relate_enough hfault edge N n
  have hdraw := fun edge hedge => (hrelate edge hedge).bind (fun _ => hemit)
  rw [inferForPair_eq, List.mem_append, List.mem_append] at h
  rcases h with (h | h) | h
  · split at h
    · rw [List.mem_singleton.mp h] at hdraw ⊢
      exact (hnow _).of_sure.bind (fun now => hdraw _ rfl)
    · cases h
  · split at h
    · rcases List.mem_cons.mp h with heq | hmem
      · rw [heq] at hdraw ⊢
        exact (hnow _).of_sure.bind (fun now =>
          (hinvalidate _ _).of_sure.bind (fun _ => hdraw _ rfl))
      · rw [List.mem_singleton.mp hmem] at hdraw ⊢
        exact (hinvalidate _ _).of_sure.bind (fun _ =>
          (hnow _).of_sure.bind (fun now => hdraw _ rfl))
    · cases h
  · split at h
    · rw [List.mem_singleton.mp h] at hrelate ⊢
      exact (hnow _).of_sure.bind (fun now => hrelate _ rfl)
    · cases h

/-- Without faults the first pass adds all edges its actions draw. -/
theorem le_firstPass_count (hfault : NoFaults env) {node : MemoryNode F} {w : World F}
    (htype : node.memoryType ≠ MemoryType.correction)
    (hstorable : forall m, m ∈ firstCandidates env w node ->
      exists t, Tables.storeMemory w.embeddingDim m w.tables = Except.ok t)
    (x : MemoryId) (edgeType : EdgeType) :
    edgeCount w.tables (node.id, x, edgeType) + passCount 2 env.config.inferenceConfig node
        (firstCandidates env w node) x edgeType <=
      edgeCount (firstPass env node w).2.tables (node.id, x, edgeType) := by
  have hspec := firstCandidates_spec env w node
  have htakes : forall m, m ∈ firstCandidates env w node ->
      Tables.dimensionMismatch w.embeddingDim m = false ∧
        w.tables.Accepts w.embeddingDim m.embedding := by
    intro m hm
    rcases hstorable m hm with ⟨t, hrun⟩
    unfold Tables.storeMemory at hrun
    split at hrun
    · cases hrun
    · rename_i hfits
      exact ⟨by simpa using hfits, (Tables.storeMemoryOn_vec hrun).1⟩
  rcases firstPass_state env node w with ⟨ticks, _, hstate⟩
  rw [hstate, ← countP_inferOnWrite drawsPairs_store env.text env.config.inferenceConfig htype
    (fun m hm => (hspec.2 m hm).1)]
  have hloop : forall N, Prog.Triple
      (Enough w.embeddingDim (firstCandidates env w node) (node.id, x, edgeType) N
        ((firstActions env w node).countP
          (fun action => decide (action.drawnByStore = some (node.id, x, edgeType)))))
      (Prog.forEach (firstActions env w node) (fun action => do
        let _ ← Prog.attempt (applyInferredAction env action)
        pure ()))
      (fun _ => Enough w.embeddingDim (firstCandidates env w node) (node.id, x, edgeType) N 0)
      (fun _ => False) := by
    intro N
    refine triple_forEach_budget ?_
    intro action n haction
    simp only [decide_eq_true_eq]
    rcases List.mem_append.mp haction with hpair | hcorrection
    · rcases List.mem_flatMap.mp hpair with ⟨m, hm, hpair⟩
      exact triple_applyInferredAction_enough hfault (fun m hm => (htakes m hm).1)
        (List.mem_of_mem_filter hm) hpair N n
    · rw [inferCorrection, if_neg htype] at hcorrection
      cases hcorrection
  have hstart : Restorable w.embeddingDim (firstCandidates env w node)
      { w with ticks := ticks } :=
    ⟨rfl, fun m hm => ⟨m, (hspec.2 m hm).2, rfl⟩, fun m hm => (htakes m hm).2⟩
  exact ((hloop _).state_of_sure ⟨hstart, Nat.le_refl _⟩).2

end Certain

/-!
## A turn
-/

section Turns

variable [Scalar F] {env : Env F}

/-- What a turn stores: the conversation, with the embedding the model gives for it. -/
structure TurnInput (F : Type) where
  agentId : AgentId
  conversation : String
  projectContext : Option String
  embedding : Except MenteError (Option (List F))

/-- The memory of a turn, with zeros where there is no embedder. -/
def episodicNode (turn : TurnInput F) (embedding : Option (List F)) (id : MemoryId)
    (now : Timestamp) : MemoryNode F :=
  { MemoryNode.new id now turn.agentId MemoryType.episodic turn.conversation
      (embedding.getD (List.replicate 384 0)) with
    tags := "turn" :: turn.projectContext.toList.map (fun ctx => "scope:project:" ++ ctx) }

def storeEpisodic (env : Env F) (turn : TurnInput F) : Op F MemoryId :=
  match turn.embedding with
  | Except.error e => Prog.fail e
  | Except.ok embedding => do
      let id ← Prog.gets (fun w => env.freshMemoryId w.ticks)
      let now ← currentTimeUs env
      store env (episodicNode turn embedding id now)
      pure id

/-- The writes of a turn: its memory, then the inference of its own. -/
def storeAndInfer (env : Env F) (turn : TurnInput F) : Op F Nat := do
  let episodicId ← storeEpisodic env turn
  runExplicitWriteInference env episodicId

/-- The memory a turn stores when it starts in the given state. -/
def turnNode (env : Env F) (turn : TurnInput F) (embedding : Option (List F)) (w : World F) :
    MemoryNode F :=
  episodicNode turn embedding (env.freshMemoryId w.ticks) (env.clock w.ticks)

/-- The state in which the memory of a turn is written and nothing is inferred yet. -/
def turnWritten (env : Env F) (turn : TurnInput F) (embedding : Option (List F))
    (w : World F) : World F :=
  (writeMemory env (turnNode env turn embedding w) { w with ticks := w.ticks + 1 }).2

/-- A turn adds at most one edge of each type from its memory to another one. -/
def EdgesOnce (id : MemoryId) (before after : World F) : Prop :=
  forall x edgeType, edgeCount after.tables (id, x, edgeType)
    <= edgeCount before.tables (id, x, edgeType) + 1

/-- Every other memory keeps its confidence or has it decayed once. -/
def DecaysOnce (config : WriteInferenceConfig F) (id : MemoryId) (before after : World F) :
    Prop :=
  forall x node, x ≠ id -> before.tables.getMemory x = some node ->
    exists node', after.tables.getMemory x = some node' ∧
      (node'.confidence = node.confidence ∨
        node'.confidence = correctedConfidence config node.confidence)

/-- A memory loads with the given type, or does not load. -/
def Typed (id : MemoryId) (memoryType : MemoryType) (w : World F) : Prop :=
  forall target, w.tables.getMemory id = some target -> target.memoryType = memoryType

omit [Scalar F] in
theorem viewsMemories_typed (id : MemoryId) (memoryType : MemoryType) :
    ViewsMemories (Typed id memoryType : World F -> Prop) := by
  intro w w' _ hmemories htags _ _ hw target hget
  apply hw target
  unfold Tables.getMemory Tables.tagsOf at hget ⊢
  rw [hmemories, htags] at hget
  exact hget

/-- What is written loads with the type it was written with. -/
theorem triple_writeMemory_typed (node : MemoryNode F) :
    Prog.Triple (fun _ => True) (writeMemory env node)
      (fun _ => Typed node.id node.memoryType) (fun _ => True) := by
  have hviews := viewsMemories_typed (F := F) node.id node.memoryType
  apply Prog.Triple.bind (Q := fun _ _ => True)
  · exact Prog.triple_of_states (fun _ _ => trivial)
  intro _
  apply Prog.Triple.bind (Q := fun _ => Typed node.id node.memoryType)
  · apply Prog.Triple.bind (Prog.keeps_gets _)
    intro dim
    apply triple_transact (fun _ _ _ _ => trivial)
    intro w t _ hrun target hget
    rw [Tables.getMemory_storeMemoryOn (Tables.storeMemory_ok hrun), if_pos rfl] at hget
    cases hget
    rfl
  intro _
  have hrest : Prog.Keeps (Typed node.id node.memoryType) (do
      Prog.modify (fun w : World F => { w with graph := GraphManager.addMemory w.graph node.id })
      let _ ← Prog.attempt (indexMemoryEntities env node)
      pure ()) := by
    refine Prog.Keeps.bind (Prog.keeps_modify (fun _ hw target hget => hw target hget)) ?_
    intro _
    apply Prog.Keeps.bind (keeps_indexMemoryEntities hviews node).attempt
    intro _
    exact Prog.keeps_pure ()
  exact hrest.weaken (fun _ hw => hw) (fun _ _ hw => hw) (fun _ _ => trivial)

/-- Inference changes the type of no memory. -/
theorem keeps_firstPass_typed (node : MemoryNode F) (id : MemoryId) (memoryType : MemoryType) :
    Prog.Keeps (Typed id memoryType) (firstPass env node) := by
  have hseen : forall t0 : Tables F, Prog.Keeps (SeenAs t0) (firstPass env node) := by
    intro t0
    unfold firstPass
    apply Prog.triple_ite
    · intro _
      exact keeps_runWriteInference_bounded (fun _ _ _ _ => trivial)
    · intro _
      exact Prog.keeps_pure ()
  apply Prog.triple_of_states
  intro w hw target hget
  have hbounded : SeenAs w.tables (firstPass env node w).2 := by
    apply (hseen w.tables).state
    constructor
    · intro _ _ _
      trivial
    · intro j m hm
      exact Or.inr ⟨m, Tables.getMemory_id hm ▸ hm, rfl⟩
  rcases hbounded.known id target hget with hfree | ⟨n, hn, htraits⟩
  · exact False.elim hfree
  · rw [Tables.getMemory_id hget] at hn
    simp only [traits, Prod.mk.injEq] at htraits
    rw [htraits.2.1]
    exact hw n hn

/-- A turn that is stored has written its memory and then made the first pass over it. -/
theorem storeEpisodic_ok {turn : TurnInput F} {embedding : Option (List F)} {w stored : World F}
    {id : MemoryId} (hembed : turn.embedding = Except.ok embedding)
    (h : storeEpisodic env turn w = (Except.ok id, stored)) :
    id = (turnNode env turn embedding w).id ∧
      writeMemory env (turnNode env turn embedding w) { w with ticks := w.ticks + 1 } =
        (Except.ok (), turnWritten env turn embedding w) ∧
      firstPass env (turnNode env turn embedding w) (turnWritten env turn embedding w) =
        (Except.ok (), stored) := by
  unfold storeEpisodic at h
  rw [hembed] at h
  rcases Prog.bind_ok h with ⟨_, _, hfresh, h⟩
  cases hfresh
  rcases Prog.bind_ok h with ⟨_, _, hclock, h⟩
  cases hclock
  rcases Prog.bind_ok h with ⟨_, mid, hstore, hpure⟩
  cases hpure
  rw [store_eq] at hstore
  rcases Prog.bind_ok hstore with ⟨_, written, hwrite, hpass⟩
  have hwritten : turnWritten env turn embedding w = written := congrArg Prod.snd hwrite
  rw [hwritten]
  exact ⟨rfl, hwrite, hpass⟩

/-- Once its memory is stored, a turn makes its own pass over it. -/
theorem storeAndInfer_state {turn : TurnInput F} {w stored : World F} {id : MemoryId}
    (h : storeEpisodic env turn w = (Except.ok id, stored)) :
    (storeAndInfer env turn w).2 = (runExplicitWriteInference env id stored).2 :=
  congrArg Prod.snd (Prog.bind_of_ok h)

/-- Writing a memory draws no edge. -/
theorem edgeCount_writeMemory (node : MemoryNode F) (w : World F) (key : EdgeKey) :
    edgeCount (writeMemory env node w).2.tables key = edgeCount w.tables key := by
  have hviews := viewsMemories_edgeCount (F := F) key (fun n => n = edgeCount w.tables key)
  have hclosed := storeClosed_edgeCount (F := F) key (fun n => n = edgeCount w.tables key)
  exact (keeps_writeMemory_of (keeps_provision hviews [node]) (hclosed.keeps_dbStoreMemory node)
    (fun _ hw => hw) (keeps_indexMemoryEntities hviews node)).state rfl

/-- A turn draws at most one edge of a type to each memory exactly when its two passes are
apart, and decays a confidence at most once when the corrections it stores again are. -/
theorem inferred_once_iff_passesApart {turn : TurnInput F} {embedding : Option (List F)}
    {w stored : World F} {id : MemoryId} (hembed : turn.embedding = Except.ok embedding)
    (hstored : storeEpisodic env turn w = (Except.ok id, stored)) :
    (PassesApart env (turnWritten env turn embedding w) stored (turnNode env turn embedding w) ->
      EdgesOnce id w (storeAndInfer env turn w).2) ∧
    (NoFaults env ->
      (forall m, m ∈ firstCandidates env (turnWritten env turn embedding w)
        (turnNode env turn embedding w) ->
        exists t, Tables.storeMemory (turnWritten env turn embedding w).embeddingDim m
          (turnWritten env turn embedding w).tables = Except.ok t) ->
      EdgesOnce id w (storeAndInfer env turn w).2 ->
      PassesApart env (turnWritten env turn embedding w) stored
        (turnNode env turn embedding w)) ∧
    (CorrectionsApart env stored id ->
      DecaysOnce env.config.inferenceConfig id w (storeAndInfer env turn w).2) := by
  rcases storeEpisodic_ok hembed hstored with ⟨hid, hwrite, hpass⟩
  have hfirst : (firstPass env (turnNode env turn embedding w)
      (turnWritten env turn embedding w)).2 = stored := congrArg Prod.snd hpass
  have htype : (turnNode env turn embedding w).memoryType ≠ MemoryType.correction := by
    intro heq
    cases heq
  have hcount : forall x edgeType,
      edgeCount (turnWritten env turn embedding w).tables (id, x, edgeType) =
        edgeCount w.tables (id, x, edgeType) :=
    fun x edgeType => edgeCount_writeMemory _ _ _
  -- the memory loads as the episodic one that was written
  have htarget : forall target, stored.tables.getMemory id = some target ->
      target.memoryType ≠ MemoryType.correction := by
    intro target hget heq
    have hwritten : Typed id MemoryType.episodic (turnWritten env turn embedding w) := by
      have htriple : Prog.Triple _ (writeMemory env (turnNode env turn embedding w)) _ _ :=
        triple_writeMemory_typed _
      have hpost := htriple { w with ticks := w.ticks + 1 } trivial
      rw [hwrite] at hpost
      rw [hid]
      exact hpost
    have hkept : Typed id MemoryType.episodic stored := by
      rw [← hfirst]
      exact (keeps_firstPass_typed _ _ _).state hwritten
    rw [hkept target hget] at heq
    cases heq
  rw [storeAndInfer_state hstored]
  refine ⟨?_, ?_, ?_⟩
  · intro hapart x edgeType
    have hboth := (passesApart_iff env _ stored _).mpr hapart x edgeType
    have hpass : edgeCount (firstPass env _ (turnWritten env turn embedding w)).2.tables _ <= _ :=
      firstPass_count_le htype x edgeType
    rw [hfirst, ← hid, hcount] at hpass
    rw [← hid] at hboth
    have hless : forall n, n + 1 <= edgeCount w.tables (id, x, edgeType) + 1 ->
        n <= edgeCount w.tables (id, x, edgeType) + 1 := fun n hn => by omega
    refine secondPass_count (P := fun n => n <= edgeCount w.tables (id, x, edgeType) + 1) htarget
      (Or.inr hless) ?_
    omega
  · intro hfault hstorable honce
    apply (passesApart_iff env _ stored _).mp
    intro x edgeType
    have hall := honce x edgeType
    have hsecond : edgeCount stored.tables (id, x, edgeType) + secondCount env stored id x edgeType
        <= edgeCount (runExplicitWriteInference env id stored).2.tables (id, x, edgeType) :=
      secondPass_count (P := fun n => edgeCount stored.tables (id, x, edgeType)
        + secondCount env stored id x edgeType <= n) htarget (Or.inl hfault) (Nat.le_refl _)
    have hbefore := le_firstPass_count hfault htype hstorable x edgeType
    rw [hfirst, ← hid, hcount] at hbefore
    rw [← hid]
    omega
  · intro hapart x node hx hget
    have hwritten : Confident x node.confidence (turnWritten env turn embedding w) :=
      (keeps_writeMemory_confident (hid ▸ hx)).state ⟨node, hget, rfl⟩
    have hkept : Confident x node.confidence stored := by
      rw [← hfirst]
      exact firstPass_confident htype hwritten
    rcases secondPass_confident htarget hapart hx hkept with ⟨n, hn, hsame⟩ | ⟨n, hn, hlower⟩
    · exact ⟨n, hn, Or.inl hsame⟩
    · exact ⟨n, hn, Or.inr hlower⟩

def officeTalk : TurnInput Rat where
  agentId := AgentId.nil
  conversation := "User: where is the office?"
  projectContext := none
  embedding := Except.ok (some [5, 0])

/-- The database in which a turn finds one memory. -/
def afterFact (createdAt : Timestamp) (embedding : List Rat) : World Rat :=
  (store (calmEnv CognitiveConfig.default) (MemoryNode.new ⟨1⟩ createdAt AgentId.nil
    MemoryType.semantic "the office is in Turin" embedding) emptyWorld).2

/-- The store flags a memory that is newer than the turn, which hides it from the pass of the
turn. -/
theorem inferred_once_iff_passesApart_flagged :
    EdgesOnce ⟨1004⟩ (afterFact 5000 [5, 0])
        (storeAndInfer (calmEnv CognitiveConfig.default) officeTalk (afterFact 5000 [5, 0])).2 ∧
      DecaysOnce WriteInferenceConfig.default ⟨1004⟩ (afterFact 5000 [5, 0])
        (storeAndInfer (calmEnv CognitiveConfig.default) officeTalk (afterFact 5000 [5, 0])).2 ∧
      edgeCount (storeAndInfer (calmEnv CognitiveConfig.default) officeTalk
        (afterFact 5000 [5, 0])).2.tables (⟨1004⟩, ⟨1⟩, EdgeType.contradicts) = 1 := by
  have hstored : storeEpisodic (calmEnv CognitiveConfig.default) officeTalk
      (afterFact 5000 [5, 0]) = (Except.ok ⟨1004⟩, (storeEpisodic
        (calmEnv CognitiveConfig.default) officeTalk (afterFact 5000 [5, 0])).2) :=
    Prod.ext (by decide +kernel) rfl
  have hembed : officeTalk.embedding = Except.ok (some [5, 0]) := rfl
  have hid : (turnNode (calmEnv CognitiveConfig.default) officeTalk (some [5, 0])
      (afterFact 5000 [5, 0])).id = ⟨1004⟩ := by
    decide +kernel
  have hmain := inferred_once_iff_passesApart hembed hstored
  have hhidden : forall target, (storeEpisodic (calmEnv CognitiveConfig.default) officeTalk
      (afterFact 5000 [5, 0])).2.tables.getMemory ⟨1004⟩ = some target ->
      secondCandidates (calmEnv CognitiveConfig.default) (storeEpisodic
        (calmEnv CognitiveConfig.default) officeTalk (afterFact 5000 [5, 0])).2 target = [] := by
    intro target hget
    have hall : ((storeEpisodic (calmEnv CognitiveConfig.default) officeTalk
        (afterFact 5000 [5, 0])).2.tables.getMemory ⟨1004⟩).all (fun target =>
          (secondCandidates (calmEnv CognitiveConfig.default) (storeEpisodic
            (calmEnv CognitiveConfig.default) officeTalk (afterFact 5000 [5, 0])).2
              target).isEmpty) = true := by
      decide +kernel
    rw [hget, Option.all_some] at hall
    exact List.isEmpty_iff.mp hall
  refine ⟨hmain.1 ⟨?_, ?_, ?_⟩, hmain.2.2 ?_, by decide +kernel⟩
  · decide +kernel
  · intro target m m' hget _ _ hm'
    rw [hid] at hget
    rw [hhidden target hget] at hm'
    cases hm'
  · intro target m m' hget _ _ hm'
    rw [hid] at hget
    rw [hhidden target hget] at hm'
    cases hm'
  · intro _ target m m' y hget _ hm
    rw [hhidden target hget] at hm
    cases hm

/-- A memory that both passes relate to the turn gets two edges. -/
theorem related_twice_in_turn :
    (storeEpisodic (calmEnv CognitiveConfig.default) officeTalk (afterFact 500 [4, 3])).1 =
        Except.ok ⟨1004⟩ ∧
      edgeCount (storeAndInfer (calmEnv CognitiveConfig.default) officeTalk
        (afterFact 500 [4, 3])).2.tables (⟨1004⟩, ⟨1⟩, EdgeType.related) = 2 ∧
      ¬ EdgesOnce ⟨1004⟩ (afterFact 500 [4, 3])
        (storeAndInfer (calmEnv CognitiveConfig.default) officeTalk (afterFact 500 [4, 3])).2 := by
  refine ⟨by decide +kernel, by decide +kernel, ?_⟩
  intro honce
  exact absurd (honce ⟨1⟩ EdgeType.related) (by decide +kernel)

end Turns

end Facade
end MenteDb
