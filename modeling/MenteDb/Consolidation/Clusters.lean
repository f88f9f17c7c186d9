import MenteDb.Consolidation.Engine
import MenteDb.Foundation.Assoc
import MenteDb.Foundation.Ranking
import MenteDb.Foundation.UnionFind

/-!
# Clusters of similar memories

Consolidation looks for groups of memories by union-find: every two memories that
are more similar than the threshold are joined.  The groups are the connected
parts of that similarity graph; which memories may take part is decided before.
-/

namespace MenteDb
namespace Consolidation

open Foundation
open Cognitive
open Relation

variable {F : Type} [Scalar F]

structure ConsolidationCandidate (F : Type) where
  memories : List MemoryId
  topic : String
  avgSimilarity : F

def dayUs : Nat := 86400000000

/-- Episodic, older than a day and accessed more than twice. -/
def shouldConsolidate (memory : MemoryNode F) (currentTime : Timestamp) : Bool :=
  decide (memory.memoryType = MemoryType.episodic) &&
    decide (dayUs < saturatingSub currentTime memory.createdAt) &&
    decide (2 < memory.accessCount)

/-!
## Clustering
-/

def embeddingAt (memories : List (MemoryNode F)) (i : Nat) : List F :=
  (memories[i]?.map MemoryNode.embedding).getD []

def similarityAt (memories : List (MemoryNode F)) (i j : Nat) : F :=
  cosineSimilarity (embeddingAt memories i) (embeddingAt memories j)

/-- The two loops over all pairs of memories. -/
def joinSimilar (memories : List (MemoryNode F)) (similarityThreshold : F) : Forest :=
  let n := memories.length
  (List.range n).foldl (fun f i =>
    (List.range' (i + 1) (n - (i + 1))).foldl (fun f j =>
      if similarityThreshold < similarityAt memories i j then f.union n i j else f) f)
    Forest.singletons

/-- Positions by root; every look-up shortens paths for the next. -/
def groupByRoot (n : Nat) (f : Forest) (positions : List Nat) : Forest × Assoc Nat (List Nat) :=
  positions.foldl (fun state i =>
    let found := state.1.find n i
    (found.2, state.2.upsert found.1 (fun group => group.getD [] ++ [i]))) (f, Assoc.empty)

/-- Every element with each of the later ones. -/
def laterPairs {α : Type} : List α -> List (α × α)
  | [] => []
  | i :: rest => rest.map (fun j => (i, j)) ++ laterPairs rest

def averageSimilarity (memories : List (MemoryNode F)) (indices : List Nat) : F :=
  let sims := (laterPairs indices).map (fun p => similarityAt memories p.1 p.2)
  if 0 < sims.length then sims.sum / (sims.length : F) else 1

/-- The first words of the first memory. -/
def clusterTopic (text : TextOps F) (memories : List (MemoryNode F)) (indices : List Nat) :
    String :=
  let content := ((indices.head?.bind (fun i => memories[i]?)).map MemoryNode.content).getD ""
  String.intercalate " " ((text.splitWhitespace content).take 5)

def candidateOf (text : TextOps F) (memories : List (MemoryNode F)) (indices : List Nat) :
    ConsolidationCandidate F where
  memories := indices.filterMap (fun i => memories[i]?.map MemoryNode.id)
  topic := clusterTopic text memories indices
  avgSimilarity := averageSimilarity memories indices

def findCandidates (o : HashOrder) (text : TextOps F) (memories : List (MemoryNode F))
    (minClusterSize : Nat) (similarityThreshold : F) : List (ConsolidationCandidate F) :=
  let n := memories.length
  let clusters := (groupByRoot n (joinSimilar memories similarityThreshold) (List.range n)).2
  (((o.order clusters.entries).map Prod.snd).filter
    (fun c => decide (minClusterSize <= c.length))).map (candidateOf text memories)

/-!
## Connected memories
-/

section Connected

variable (memories : List (MemoryNode F)) (threshold : F)

/-- Two of the memories are more similar than the threshold. -/
def Alike (a b : MemoryNode F) : Prop :=
  a ∈ memories ∧ b ∈ memories ∧ threshold < cosineSimilarity a.embedding b.embedding

/-- A chain of similar memories leads from one to the other. -/
def Connected (a b : MemoryNode F) : Prop := EqvGen (Alike memories threshold) a b

open Classical in
/-- All memories connected with the given one. -/
noncomputable def clusterOf (a : MemoryNode F) : List (MemoryNode F) :=
  memories.filter (fun b => decide (Connected memories threshold a b))

end Connected

theorem cosineSimilarity_comm (a b : List F) : cosineSimilarity a b = cosineSimilarity b a := by
  unfold cosineSimilarity
  have hzip : ((a.zip b).map (fun p => p.1 * p.2)).sum =
      ((b.zip a).map (fun p => p.1 * p.2)).sum := by
    rw [← List.zip_swap, List.map_map]
    congr 1
    apply List.map_congr_left
    intro p _
    exact mul_comm _ _
  by_cases hlength : a.length = b.length
  · by_cases ha : a = []
    · have hb : b = [] := by
        rw [ha] at hlength
        exact List.eq_nil_of_length_eq_zero hlength.symm
      simp [ha, hb]
    · have hb : b ≠ [] := by
        intro hb
        rw [hb] at hlength
        exact ha (List.eq_nil_of_length_eq_zero hlength)
      simp only [hlength, ha, hb, ne_eq, not_true_eq_false, or_self, if_false, hzip]
      rw [mul_comm (Scalar.sqrt _)]
  · have hlength' : ¬ b.length = a.length := fun h => hlength h.symm
    simp [hlength, hlength']

/-!
## What the loops compute
-/

section Loops

variable {memories : List (MemoryNode F)} {threshold : F}

/-- The pairs the loops join, in order. -/
def similarPairs (memories : List (MemoryNode F)) (threshold : F) : List (Nat × Nat) :=
  let n := memories.length
  (List.range n).flatMap (fun i =>
    ((List.range' (i + 1) (n - (i + 1))).filter
      (fun j => decide (threshold < similarityAt memories i j))).map (fun j => (i, j)))

theorem joinSimilar_eq :
    joinSimilar memories threshold =
      Forest.unions memories.length (similarPairs memories threshold) := by
  unfold joinSimilar Forest.unions similarPairs
  simp only [List.foldl_flatMap, List.foldl_map, List.foldl_filter, decide_eq_true_eq]

theorem mem_similarPairs {i j : Nat} :
    (i, j) ∈ similarPairs memories threshold <->
      i < j ∧ j < memories.length ∧ threshold < similarityAt memories i j := by
  unfold similarPairs
  simp only [List.mem_flatMap, List.mem_range, List.mem_map, List.mem_filter, List.mem_range'_1,
    decide_eq_true_eq, Prod.mk.injEq]
  constructor
  · intro h
    rcases h with ⟨i', hi', j', ⟨⟨hlow, hhigh⟩, hsim⟩, heqi, heqj⟩
    rw [heqi] at hsim hlow hhigh
    rw [heqj] at hsim hlow hhigh
    exact ⟨hlow, by omega, hsim⟩
  · intro h
    rcases h with ⟨hlt, hj, hsim⟩
    exact ⟨i, hlt.trans hj, j, ⟨⟨hlt, by omega⟩, hsim⟩, rfl, rfl⟩

omit [Scalar F] in
theorem embeddingAt_of_getElem? {i : Nat} {a : MemoryNode F} (h : memories[i]? = some a) :
    embeddingAt memories i = a.embedding := by
  unfold embeddingAt
  rw [h]
  rfl

/-- Positions joined by the loops hold connected memories. -/
theorem connected_of_eqvGen {i j : Nat}
    (h : EqvGen (fun a b => (a, b) ∈ similarPairs memories threshold) i j) :
    i = j ∨ exists a b, memories[i]? = some a ∧ memories[j]? = some b ∧
      Connected memories threshold a b := by
  induction h with
  | rel i j hij =>
      rcases mem_similarPairs.mp hij with ⟨hlt, hj, hsim⟩
      have ha := List.getElem?_eq_getElem (hlt.trans hj)
      have hb := List.getElem?_eq_getElem hj
      unfold similarityAt at hsim
      rw [embeddingAt_of_getElem? ha, embeddingAt_of_getElem? hb] at hsim
      exact Or.inr ⟨_, _, ha, hb, EqvGen.rel _ _
        ⟨List.getElem_mem _, List.getElem_mem _, hsim⟩⟩
  | refl i => exact Or.inl rfl
  | symm i j _ ih =>
      rcases ih with heq | ⟨a, b, ha, hb, hab⟩
      · exact Or.inl heq.symm
      · exact Or.inr ⟨b, a, hb, ha, EqvGen.symm _ _ hab⟩
  | trans i j k _ _ ihij ihjk =>
      rcases ihij with heq | ⟨a, b, ha, hb, hab⟩
      · rw [heq]
        exact ihjk
      · rcases ihjk with heq | ⟨b', c, hb', hc, hbc⟩
        · rw [← heq]
          exact Or.inr ⟨a, b, ha, hb, hab⟩
        · rw [hb] at hb'
          cases hb'
          exact Or.inr ⟨a, c, ha, hc, EqvGen.trans _ _ _ hab hbc⟩

/-- The root of the position of a memory. -/
noncomputable def rootOf (memories : List (MemoryNode F)) (threshold : F) (i : Nat) : Nat :=
  (joinSimilar memories threshold).root memories.length i

theorem ranked_joinSimilar : Forest.Ranked memories.length (joinSimilar memories threshold) := by
  rw [joinSimilar_eq]
  refine (Forest.unions_eq _ _ ?_).1
  intro p hp
  have hparts := mem_similarPairs.mp hp
  exact ⟨hparts.1.trans hparts.2.1, hparts.2.1⟩

theorem rootOf_eq_iff (i j : Nat) :
    rootOf memories threshold i = rootOf memories threshold j <->
      EqvGen (fun a b => (a, b) ∈ similarPairs memories threshold) i j := by
  unfold rootOf
  rw [joinSimilar_eq]
  refine (Forest.unions_eq _ _ ?_).2 i j
  intro p hp
  have hparts := mem_similarPairs.mp hp
  exact ⟨hparts.1.trans hparts.2.1, hparts.2.1⟩

omit [Scalar F] in
theorem position_unique (hnodup : memories.Nodup) {i j : Nat} {a : MemoryNode F}
    (hi : memories[i]? = some a) (hj : memories[j]? = some a) : i = j := by
  rcases List.getElem?_eq_some_iff.mp hi with ⟨hbound, _⟩
  exact (List.getElem?_inj hbound hnodup).mp (hi.trans hj.symm)

/-- Connected memories have positions with one root. -/
theorem rootOf_of_connected (hnodup : memories.Nodup) {a b : MemoryNode F}
    (h : Connected memories threshold a b) :
    a = b ∨ exists i j, memories[i]? = some a ∧ memories[j]? = some b ∧
      rootOf memories threshold i = rootOf memories threshold j := by
  induction h with
  | rel a b hab =>
      rcases hab with ⟨ha, hb, hsim⟩
      rcases List.getElem?_of_mem ha with ⟨i, hi⟩
      rcases List.getElem?_of_mem hb with ⟨j, hj⟩
      have hat : threshold < similarityAt memories i j := by
        unfold similarityAt
        rw [embeddingAt_of_getElem? hi, embeddingAt_of_getElem? hj]
        exact hsim
      have hback : threshold < similarityAt memories j i := by
        unfold similarityAt at hat ⊢
        rw [cosineSimilarity_comm]
        exact hat
      have hilt := (List.getElem?_eq_some_iff.mp hi).1
      have hjlt := (List.getElem?_eq_some_iff.mp hj).1
      refine Or.inr ⟨i, j, hi, hj, ?_⟩
      -- the loops join a pair in one order only
      rcases Nat.lt_trichotomy i j with hlt | heq | hgt
      · exact (rootOf_eq_iff i j).mpr (EqvGen.rel i j (mem_similarPairs.mpr ⟨hlt, hjlt, hat⟩))
      · rw [heq]
      · exact ((rootOf_eq_iff j i).mpr
          (EqvGen.rel j i (mem_similarPairs.mpr ⟨hgt, hilt, hback⟩))).symm
  | refl a => exact Or.inl rfl
  | symm a b _ ih =>
      rcases ih with heq | ⟨i, j, hi, hj, hroots⟩
      · exact Or.inl heq.symm
      · exact Or.inr ⟨j, i, hj, hi, hroots.symm⟩
  | trans a b c _ _ ihab ihbc =>
      rcases ihab with heq | ⟨i, j, hi, hj, hroots⟩
      · rw [heq]
        exact ihbc
      · rcases ihbc with heq | ⟨j', k, hj', hk, hroots'⟩
        · rw [← heq]
          exact Or.inr ⟨i, j, hi, hj, hroots⟩
        · rw [position_unique hnodup hj hj'] at hroots
          exact Or.inr ⟨i, k, hi, hk, hroots.trans hroots'⟩

/-- Memories with distinct positions are in one class exactly when they are connected. -/
theorem rootOf_eq_iff_connected (hnodup : memories.Nodup) {i j : Nat} {a b : MemoryNode F}
    (ha : memories[i]? = some a) (hb : memories[j]? = some b) :
    rootOf memories threshold i = rootOf memories threshold j <->
      Connected memories threshold a b := by
  constructor
  · intro h
    rcases connected_of_eqvGen ((rootOf_eq_iff i j).mp h) with heq | ⟨a', b', ha', hb', hab⟩
    · rw [heq, hb] at ha
      cases ha
      exact EqvGen.refl _
    · rw [ha] at ha'
      rw [hb] at hb'
      cases ha'
      cases hb'
      exact hab
  · intro h
    rcases rootOf_of_connected hnodup h with heq | ⟨i', j', ha', hb', hroots⟩
    · rw [← heq] at hb
      rw [position_unique hnodup ha hb]
    · rw [position_unique hnodup ha ha', position_unique hnodup hb hb']
      exact hroots

/-!
## Grouping
-/

omit [Scalar F] in
theorem groupByRoot_concat (n : Nat) (f : Forest) (positions : List Nat) (i : Nat) :
    groupByRoot n f (positions ++ [i]) =
      ((((groupByRoot n f positions).1).find n i).2,
        (groupByRoot n f positions).2.upsert (((groupByRoot n f positions).1).find n i).1
          (fun group => group.getD [] ++ [i])) := by
  unfold groupByRoot
  rw [List.foldl_append]
  rfl

omit [Scalar F] in
/-- Every group is the class of its root, in order of position. -/
theorem groupByRoot_eq {n : Nat} {f : Forest} (hf : Forest.Ranked n f) (positions : List Nat) :
    Forest.Ranked n (groupByRoot n f positions).1 ∧
      (forall j, (groupByRoot n f positions).1.root n j = f.root n j) ∧
      forall r, ((groupByRoot n f positions).2.find? r).getD [] =
        positions.filter (fun i => decide (f.root n i = r)) ∧
        ((groupByRoot n f positions).2.find? r ≠ some []) := by
  induction positions using List.reverseRecOn with
  | nil =>
      refine ⟨hf, fun _ => rfl, ?_⟩
      intro r
      exact ⟨rfl, by simp [groupByRoot]⟩
  | append_singleton past i ih =>
      rcases ih with ⟨hranked, hroots, hgroups⟩
      rcases hranked.find_eq i with ⟨hfound, hranked', hroots'⟩
      rw [hroots] at hfound
      rw [groupByRoot_concat]
      refine ⟨hranked', fun j => (hroots' j).trans (hroots j), ?_⟩
      intro r
      simp only [hfound]
      rw [Assoc.find?_upsert, List.filter_append]
      by_cases hr : r = f.root n i
      · have hself : [i].filter (fun j => decide (f.root n j = f.root n i)) = [i] := by simp
        rw [if_pos hr, hr, Option.getD_some, (hgroups (f.root n i)).1, hself]
        refine ⟨rfl, ?_⟩
        intro hempty
        have hcontra := Option.some.inj hempty
        simp at hcontra
      · have hne : ¬ f.root n i = r := fun heq => hr heq.symm
        rw [if_neg hr, List.filter_cons_of_neg (by simpa using hne), List.filter_nil,
          List.append_nil]
        exact hgroups r

omit [Scalar F] in
/-- The groups are the classes of the roots. -/
theorem mem_groupByRoot {n : Nat} {f : Forest} (hf : Forest.Ranked n f) {positions : List Nat}
    {r : Nat} {group : List Nat} :
    (r, group) ∈ (groupByRoot n f positions).2.entries <->
      group = positions.filter (fun i => decide (f.root n i = r)) ∧ group ≠ [] := by
  rcases groupByRoot_eq hf positions with ⟨_, _, hgroups⟩
  rcases hgroups r with ⟨hclass, hne⟩
  rw [← Assoc.find?_eq_some_iff]
  constructor
  · intro hfind
    rw [hfind] at hclass hne
    exact ⟨hclass, fun hempty => hne (congrArg some hempty)⟩
  · intro h
    cases hfind : (groupByRoot n f positions).2.find? r with
    | none =>
        rw [hfind] at hclass
        exact absurd (h.1.trans hclass.symm) h.2
    | some found =>
        rw [hfind] at hclass
        rw [h.1]
        exact congrArg some hclass

omit [Scalar F] in
/-- A group of positions as a list of memories. -/
theorem filterMap_filter_range (p : Nat -> Bool) (q : MemoryNode F -> Bool)
    (h : forall i a, memories[i]? = some a -> p i = q a) :
    ((List.range memories.length).filter p).filterMap (fun i => memories[i]?) =
      memories.filter q := by
  have htaken : forall k, ((List.range k).filter p).filterMap (fun i => memories[i]?) =
      (memories.take k).filter q := by
    intro k
    induction k with
    | zero => rfl
    | succ k ih =>
        rw [List.range_succ, List.filter_append, List.filterMap_append, ih, List.take_add_one,
          List.filter_append]
        congr 1
        cases hk : memories[k]? with
        | none =>
            by_cases hp : p k = true
            · simp [hp, hk]
            · simp [hp]
        | some a =>
            by_cases hp : p k = true
            · have hq : q a = true := (h k a hk).symm.trans hp
              simp [hp, hq, hk]
            · have hq : ¬ q a = true := by
                rw [← h k a hk]
                exact hp
              simp [hp, hq]
  rw [htaken, List.take_length]

theorem mem_clusterOf {a b : MemoryNode F} :
    b ∈ clusterOf memories threshold a <-> b ∈ memories ∧ Connected memories threshold a b := by
  classical
  unfold clusterOf
  rw [List.mem_filter, decide_eq_true_iff]

/-- The class of a position, as memories. -/
theorem class_eq_clusterOf (hnodup : memories.Nodup) {i : Nat} {a : MemoryNode F}
    (ha : memories[i]? = some a) :
    ((List.range memories.length).filter (fun j => decide
      (rootOf memories threshold j = rootOf memories threshold i))).filterMap
        (fun j => memories[j]?) = clusterOf memories threshold a := by
  classical
  unfold clusterOf
  apply filterMap_filter_range
  intro j b hb
  rw [decide_eq_decide]
  constructor
  · intro h
    exact (rootOf_eq_iff_connected hnodup ha hb).mp h.symm
  · intro h
    exact ((rootOf_eq_iff_connected hnodup ha hb).mpr h).symm

omit [Scalar F] in
theorem length_filterMap_positions {positions : List Nat}
    (h : forall i, i ∈ positions -> i < memories.length) :
    (positions.filterMap (fun i => memories[i]?)).length = positions.length := by
  induction positions with
  | nil => rfl
  | cons i rest ih =>
      have hi := h i List.mem_cons_self
      rw [List.filterMap_cons, List.getElem?_eq_getElem hi]
      simp only [List.length_cons]
      rw [ih (fun j hj => h j (List.mem_cons_of_mem i hj))]

/-- Positions with the given root. -/
noncomputable def classAt (memories : List (MemoryNode F)) (threshold : F) (r : Nat) : List Nat :=
  (List.range memories.length).filter (fun j => decide (rootOf memories threshold j = r))

theorem mem_groups {r : Nat} {group : List Nat} :
    (r, group) ∈ (groupByRoot memories.length (joinSimilar memories threshold)
        (List.range memories.length)).2.entries <->
      group = classAt memories threshold r ∧ group ≠ [] :=
  mem_groupByRoot ranked_joinSimilar

/-- The candidate made of a class. -/
theorem candidateOf_classAt (threshold : F) (hnodup : memories.Nodup) (text : TextOps F) {i : Nat}
    {a : MemoryNode F} (ha : memories[i]? = some a) :
    (candidateOf text memories
        (classAt memories threshold (rootOf memories threshold i))).memories =
        (clusterOf memories threshold a).map MemoryNode.id ∧
      (classAt memories threshold (rootOf memories threshold i)).length =
        (clusterOf memories threshold a).length := by
  have hclass : (classAt memories threshold (rootOf memories threshold i)).filterMap
      (fun j => memories[j]?) = clusterOf memories threshold a := class_eq_clusterOf hnodup ha
  constructor
  · show (classAt memories threshold (rootOf memories threshold i)).filterMap
      (fun i => memories[i]?.map MemoryNode.id) = _
    rw [← hclass, List.map_filterMap]
  · rw [← hclass]
    symm
    apply length_filterMap_positions
    intro j hj
    exact List.mem_range.mp (List.mem_filter.mp hj).1

/-- The candidates are the connected parts that are large enough. -/
theorem memories_findCandidates {o : HashOrder} {text : TextOps F} {minClusterSize : Nat}
    (hnodup : memories.Nodup) (ids : List MemoryId) :
    (exists c, c ∈ findCandidates o text memories minClusterSize threshold ∧ c.memories = ids) <->
      exists a, a ∈ memories ∧ minClusterSize <= (clusterOf memories threshold a).length ∧
        ids = (clusterOf memories threshold a).map MemoryNode.id := by
  unfold findCandidates
  constructor
  · intro h
    rcases h with ⟨c, hc, hids⟩
    rcases List.mem_map.mp hc with ⟨group, hgroup, hcandidate⟩
    rcases List.mem_filter.mp hgroup with ⟨hmem, hsize⟩
    rcases List.mem_map.mp hmem with ⟨entry, hentry, hsnd⟩
    rcases entry with ⟨r, group'⟩
    rw [HashOrder.mem_order] at hentry
    have hgroup' : group' = group := hsnd
    rcases mem_groups.mp hentry with ⟨hclass, hne⟩
    rw [hgroup'] at hclass hne
    rcases List.exists_mem_of_ne_nil group hne with ⟨i, hi⟩
    have hparts := List.mem_filter.mp (hclass ▸ hi)
    have hroot : rootOf memories threshold i = r := of_decide_eq_true hparts.2
    have hexists : exists a, memories[i]? = some a :=
      ⟨_, List.getElem?_eq_getElem (List.mem_range.mp hparts.1)⟩
    rcases hexists with ⟨a, ha⟩
    have hmade := candidateOf_classAt threshold hnodup text ha
    rw [hroot, ← hclass] at hmade
    rcases hmade with ⟨hmemories, hlength⟩
    refine ⟨a, List.mem_of_getElem? ha, ?_, ?_⟩
    · rw [← hlength]
      exact of_decide_eq_true hsize
    · rw [← hids, ← hcandidate]
      exact hmemories
  · intro h
    rcases h with ⟨a, ha, hsize, hids⟩
    rcases List.getElem?_of_mem ha with ⟨i, hi⟩
    rcases candidateOf_classAt threshold hnodup text hi with ⟨hmemories, hlength⟩
    have hilt := (List.getElem?_eq_some_iff.mp hi).1
    have hself : i ∈ classAt memories threshold (rootOf memories threshold i) :=
      List.mem_filter.mpr ⟨List.mem_range.mpr hilt, decide_eq_true rfl⟩
    have hentry : (rootOf memories threshold i,
        classAt memories threshold (rootOf memories threshold i)) ∈
        (groupByRoot memories.length (joinSimilar memories threshold)
          (List.range memories.length)).2.entries :=
      mem_groups.mpr ⟨rfl, List.ne_nil_of_mem hself⟩
    refine ⟨_, List.mem_map_of_mem (List.mem_filter.mpr ⟨List.mem_map_of_mem
      ((HashOrder.mem_order o).mpr hentry), ?_⟩), ?_⟩
    · rw [hlength]
      exact decide_eq_true hsize
    · rw [hids]
      exact hmemories

theorem self_mem_clusterOf {a : MemoryNode F} (ha : a ∈ memories) :
    a ∈ clusterOf memories threshold a := mem_clusterOf.mpr ⟨ha, EqvGen.refl a⟩

/-- The members of a cluster have the same cluster. -/
theorem clusterOf_eq_of_mem {a b : MemoryNode F} (h : b ∈ clusterOf memories threshold a) :
    clusterOf memories threshold b = clusterOf memories threshold a := by
  classical
  have hab : Connected memories threshold a b := (mem_clusterOf.mp h).2
  unfold clusterOf
  apply List.filter_congr
  intro c _
  have hiff : Connected memories threshold b c <-> Connected memories threshold a c :=
    ⟨fun hbc => EqvGen.trans a b c hab hbc, fun hac => EqvGen.trans b a c (EqvGen.symm a b hab) hac⟩
  exact decide_eq_decide.mpr hiff

/-- A memory is a source of some candidate when its cluster is large enough. -/
theorem mem_source_findCandidates {o : HashOrder} {text : TextOps F} {minClusterSize : Nat}
    (hnodup : memories.Nodup) {id : MemoryId} :
    (exists c, c ∈ findCandidates o text memories minClusterSize threshold ∧ id ∈ c.memories) <->
      exists a, a ∈ memories ∧ a.id = id ∧
        minClusterSize <= (clusterOf memories threshold a).length := by
  constructor
  · intro h
    rcases h with ⟨c, hc, hid⟩
    rcases (memories_findCandidates hnodup c.memories).mp ⟨c, hc, rfl⟩ with ⟨a, _, hsize, hids⟩
    rw [hids] at hid
    rcases List.mem_map.mp hid with ⟨b, hb, hbid⟩
    rw [← clusterOf_eq_of_mem hb] at hsize
    exact ⟨b, (mem_clusterOf.mp hb).1, hbid, hsize⟩
  · intro h
    rcases h with ⟨a, ha, hid, hsize⟩
    rcases (memories_findCandidates (o := o) hnodup _).mpr ⟨a, ha, hsize, rfl⟩ with
      ⟨c, hc, hids⟩
    refine ⟨c, hc, ?_⟩
    rw [hids, ← hid]
    exact List.mem_map_of_mem (self_mem_clusterOf ha)

omit [Scalar F] in
/-- One memory for each identifier. -/
theorem eq_of_same_id (hnodup : (memories.map MemoryNode.id).Nodup) {a b : MemoryNode F}
    (ha : a ∈ memories) (hb : b ∈ memories) (hid : a.id = b.id) : a = b :=
  List.inj_on_of_nodup_map hnodup ha hb hid

/-- Alike memories stay connected in any list that has them with their embeddings. -/
theorem Connected.of_same_embeddings {memories' : List (MemoryNode F)}
    {f : MemoryNode F -> MemoryNode F}
    (hf : forall a, a ∈ memories -> f a ∈ memories' ∧ (f a).embedding = a.embedding)
    {a b : MemoryNode F} (h : Connected memories threshold a b) :
    Connected memories' threshold (f a) (f b) := by
  induction h with
  | rel a b hab =>
      rcases hab with ⟨ha, hb, hsimilar⟩
      apply EqvGen.rel
      refine ⟨(hf a ha).1, (hf b hb).1, ?_⟩
      rw [(hf a ha).2, (hf b hb).2]
      exact hsimilar
  | refl a => exact EqvGen.refl _
  | symm a b _ ih => exact EqvGen.symm _ _ ih
  | trans a b c _ _ ihab ihbc => exact EqvGen.trans _ _ _ ihab ihbc

/-- With more memories around, a cluster does not shrink. -/
theorem length_clusterOf_le {memories' : List (MemoryNode F)} {f : MemoryNode F -> MemoryNode F}
    (hnodup : (memories.map MemoryNode.id).Nodup)
    (hf : forall a, a ∈ memories ->
      f a ∈ memories' ∧ (f a).id = a.id ∧ (f a).embedding = a.embedding) (a : MemoryNode F) :
    (clusterOf memories threshold a).length <=
      (clusterOf memories' threshold (f a)).length := by
  have hmem : forall b, b ∈ clusterOf memories threshold a -> b ∈ memories :=
    fun b hb => (mem_clusterOf.mp hb).1
  have hcluster : (clusterOf memories threshold a).Nodup :=
    (List.Nodup.of_map _ hnodup).filter _
  have hmapped : ((clusterOf memories threshold a).map f).Nodup := by
    refine hcluster.map_on ?_
    intro x hx y hy hxy
    apply eq_of_same_id hnodup (hmem x hx) (hmem y hy)
    rw [← (hf x (hmem x hx)).2.1, ← (hf y (hmem y hy)).2.1, hxy]
  have hsub : (clusterOf memories threshold a).map f ⊆
      clusterOf memories' threshold (f a) := by
    intro y hy
    rcases List.mem_map.mp hy with ⟨b, hb, hfb⟩
    rw [← hfb]
    refine mem_clusterOf.mpr ⟨(hf b (hmem b hb)).1, ?_⟩
    exact Connected.of_same_embeddings (fun x hx => ⟨(hf x hx).1, (hf x hx).2.2⟩)
      (mem_clusterOf.mp hb).2
  have hle := (hmapped.subperm hsub).length_le
  rw [List.length_map] at hle
  exact hle

end Loops

end Consolidation
end MenteDb
