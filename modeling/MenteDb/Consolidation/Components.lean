import MenteDb.Consolidation.Clusters

/-!
# Clusters are components

The groups that union-find leaves are the connected components of the graph whose edges were
joined.  For the clusters of memories the graph is on positions, so a memory that is given twice
counts twice; an identifier is in one cluster only when the identifiers are distinct.
-/

namespace MenteDb
namespace Consolidation

open Foundation
open Cognitive
open Relation

/-!
## Groups by root
-/

section Groups

variable {n : Nat} {f : Forest}

/-- Grouping reads no ranks. -/
theorem groupByRoot_ranks (n : Nat) (f : Forest) (rank : Nat -> Nat) (positions : List Nat) :
    groupByRoot n { f with rank := rank } positions =
      ({ (groupByRoot n f positions).1 with rank := rank }, (groupByRoot n f positions).2) := by
  induction positions using List.reverseRecOn with
  | nil => rfl
  | append_singleton past i ih =>
      rw [groupByRoot_concat, groupByRoot_concat, ih]
      rfl

theorem mem_groupByRoot_rankable (hf : Forest.Rankable n f) {positions : List Nat} {r : Nat}
    {group : List Nat} :
    (r, group) ∈ (groupByRoot n f positions).2.entries <->
      group = positions.filter (fun i => decide (f.root n i = r)) ∧ group ≠ [] := by
  rcases hf with ⟨rank, hranked⟩
  have hmem : (r, group) ∈ (groupByRoot n { f with rank := rank } positions).2.entries <-> _ :=
    mem_groupByRoot hranked
  rw [groupByRoot_ranks] at hmem
  exact hmem

/-- The groups by root are the components of the graph whose classes the forest keeps. -/
theorem components_groupByRoot (o : HashOrder) {r : Nat -> Nat -> Prop}
    (hf : Forest.Rankable n f)
    (hclasses : forall i j, f.root n i = f.root n j <-> EqvGen r i j) :
    Components n r ((o.order (groupByRoot n f (List.range n)).2.entries).map Prod.snd) := by
  have hgroup : forall root c,
      (root, c) ∈ o.order (groupByRoot n f (List.range n)).2.entries <->
        c = (List.range n).filter (fun i => decide (f.root n i = root)) ∧ c ≠ [] := by
    intro root c
    rw [HashOrder.mem_order]
    exact mem_groupByRoot_rankable hf
  have hmem : forall root c,
      (root, c) ∈ o.order (groupByRoot n f (List.range n)).2.entries ->
        forall i, i ∈ c <-> i < n ∧ f.root n i = root := by
    intro root c hc i
    rw [((hgroup root c).mp hc).1, List.mem_filter, List.mem_range, decide_eq_true_eq]
  constructor
  · intro c hc
    rcases List.mem_map.mp hc with ⟨⟨root, c'⟩, hentry, heq⟩
    cases heq
    rw [((hgroup root c').mp hentry).1]
    exact List.nodup_range.filter _
  · intro c hc
    rcases List.mem_map.mp hc with ⟨⟨root, c'⟩, hentry, heq⟩
    cases heq
    rcases List.exists_mem_of_ne_nil c' ((hgroup root c').mp hentry).2 with ⟨i, hi⟩
    rcases (hmem root c' hentry i).mp hi with ⟨hlt, hroot⟩
    exists i
    constructor
    · exact hlt
    · intro j
      rw [hmem root c' hentry j, ← hroot, ← hclasses, eq_comm]
  · intro i hi
    have hself : i ∈ (List.range n).filter (fun j => decide (f.root n j = f.root n i)) :=
      List.mem_filter.mpr ⟨List.mem_range.mpr hi, decide_eq_true rfl⟩
    have hentry := (hgroup (f.root n i) _).mpr ⟨rfl, List.ne_nil_of_mem hself⟩
    exact ⟨_, List.mem_map_of_mem hentry, hself⟩
  · have hkeys : (o.order (groupByRoot n f (List.range n)).2.entries).Pairwise
        (fun a b => a.1 ≠ b.1) := by
      have hperm := (o.perm (groupByRoot n f (List.range n)).2.entries).map Prod.fst
      exact List.pairwise_map.mp (hperm.nodup_iff.mpr (groupByRoot n f (List.range n)).2.nodup)
    rw [List.pairwise_map]
    refine hkeys.imp_of_mem ?_
    intro a b ha hb hne
    rw [List.disjoint_left]
    intro i hia hib
    have hroot := ((hmem a.1 a.2 ha i).mp hia).2
    exact hne (hroot.symm.trans ((hmem b.1 b.2 hb i).mp hib).2)

end Groups

/-!
## Clusters of memories
-/

section Clusters

variable {F : Type} [Scalar F] (memories : List (MemoryNode F)) (threshold : F)

/-- The memories at two positions are more similar than the threshold. -/
def SimilarAt (i j : Nat) : Prop :=
  i < memories.length ∧ j < memories.length ∧ threshold < similarityAt memories i j

variable {memories} {threshold}

theorem similarityAt_comm (i j : Nat) : similarityAt memories i j = similarityAt memories j i :=
  cosineSimilarity_comm _ _

/-- The loops join every pair in one order only, which connects the same positions. -/
theorem rootOf_eq_iff_similarAt (i j : Nat) :
    rootOf memories threshold i = rootOf memories threshold j <->
      EqvGen (SimilarAt memories threshold) i j := by
  rw [rootOf_eq_iff]
  constructor
  · apply eqvGen_of_forall
    intro a b hab
    rcases mem_similarPairs.mp hab with ⟨hlt, hb, hsimilar⟩
    exact EqvGen.rel a b ⟨hlt.trans hb, hb, hsimilar⟩
  · apply eqvGen_of_forall
    intro a b hab
    rcases hab with ⟨ha, hb, hsimilar⟩
    rcases Nat.lt_trichotomy a b with hlt | heq | hgt
    · exact EqvGen.rel a b (mem_similarPairs.mpr ⟨hlt, hb, hsimilar⟩)
    · rw [heq]
      exact EqvGen.refl b
    · rw [similarityAt_comm] at hsimilar
      exact EqvGen.symm b a (EqvGen.rel b a (mem_similarPairs.mpr ⟨hgt, ha, hsimilar⟩))

/-- The positions of the clusters, before the small ones are dropped. -/
def clusterPositions (o : HashOrder) (memories : List (MemoryNode F)) (threshold : F) :
    List (List Nat) :=
  (o.order (groupByRoot memories.length (joinSimilar memories threshold)
    (List.range memories.length)).2.entries).map Prod.snd

theorem components_clusterPositions (o : HashOrder) :
    Components memories.length (SimilarAt memories threshold)
      (clusterPositions o memories threshold) :=
  components_groupByRoot o ranked_joinSimilar.rankable rootOf_eq_iff_similarAt

omit [Scalar F] in
/-- A candidate lists the identifiers at the positions of its cluster. -/
theorem filterMap_positions {positions : List Nat}
    (h : forall i, i ∈ positions -> i < memories.length) :
    (positions.filterMap (fun i => memories[i]?.map MemoryNode.id)).map some =
      positions.map (fun i => memories[i]?.map MemoryNode.id) := by
  induction positions with
  | nil => rfl
  | cons i rest ih =>
      rw [List.filterMap_cons, List.getElem?_eq_getElem (h i List.mem_cons_self)]
      simp only [Option.map_some, List.map_cons]
      rw [ih (fun j hj => h j (List.mem_cons_of_mem i hj)),
        List.getElem?_eq_getElem (h i List.mem_cons_self)]
      rfl

/-- The forests of the run: one union for each similar pair and one look-up for each position. -/
theorem reached_joinSimilar (memories : List (MemoryNode F)) (threshold : F) :
    Forest.Reached memories.length (joinSimilar memories threshold) := by
  rw [joinSimilar_eq]
  unfold Forest.unions
  refine List.foldlRecOn _ _ Forest.Reached.singletons ?_
  intro f hf p hp
  have hparts := mem_similarPairs.mp hp
  exact Forest.Reached.union (hparts.1.trans hparts.2.1) hparts.2.1 hf

omit [Scalar F] in
theorem reached_groupByRoot {n : Nat} {f : Forest} (hf : Forest.Reached n f)
    (positions : List Nat) : Forest.Reached n (groupByRoot n f positions).1 := by
  induction positions using List.reverseRecOn with
  | nil => exact hf
  | append_singleton past i ih =>
      rw [groupByRoot_concat]
      exact Forest.Reached.find i ih

theorem findCandidates_eq (o : HashOrder) (text : TextOps F) (minClusterSize : Nat) :
    findCandidates o text memories minClusterSize threshold =
      ((clusterPositions o memories threshold).filter
        (fun c => decide (minClusterSize <= c.length))).map (candidateOf text memories) := rfl

omit [Scalar F] in
/-- Distinct identifiers tell the positions apart. -/
theorem id_position_unique (hids : (memories.map MemoryNode.id).Nodup) {i j : Nat}
    {id : MemoryId} (hi : memories[i]?.map MemoryNode.id = some id)
    (hj : memories[j]?.map MemoryNode.id = some id) : i = j := by
  rw [← List.getElem?_map] at hi hj
  rcases List.getElem?_eq_some_iff.mp hi with ⟨hbound, _⟩
  exact (List.getElem?_inj hbound hids).mp (hi.trans hj.symm)

/-- With distinct identifiers no identifier is listed twice, in one candidate or in two. -/
theorem nodup_findCandidates (o : HashOrder) (text : TextOps F) (minClusterSize : Nat)
    (hids : (memories.map MemoryNode.id).Nodup) :
    ((findCandidates o text memories minClusterSize threshold).flatMap
      ConsolidationCandidate.memories).Nodup := by
  have hcomponents : Components memories.length (SimilarAt memories threshold)
      (clusterPositions o memories threshold) := components_clusterPositions o
  have hpositions : ((clusterPositions o memories threshold).filter
      (fun c => decide (minClusterSize <= c.length))).flatten.Nodup := by
    rw [List.nodup_flatten]
    constructor
    · intro c hc
      exact hcomponents.nodup c (List.mem_filter.mp hc).1
    · exact hcomponents.disjoint.filter _
  have hlisted : (findCandidates o text memories minClusterSize threshold).flatMap
      ConsolidationCandidate.memories =
      ((clusterPositions o memories threshold).filter
        (fun c => decide (minClusterSize <= c.length))).flatten.filterMap
          (fun i => memories[i]?.map MemoryNode.id) := by
    rw [findCandidates_eq, List.flatMap_map, List.filterMap_flatten, List.flatMap_def]
    rfl
  rw [hlisted]
  refine hpositions.filterMap ?_
  intro i j id hi hj
  exact id_position_unique hids hi hj

/-- The candidates are the components of the similarity graph on the positions, as many of
them as are large enough, each with the identifiers at its positions.  Every search on the
way stops at a root. -/
theorem findCandidates_components (o : HashOrder) (text : TextOps F)
    (memories : List (MemoryNode F)) (minClusterSize : Nat) (threshold : F) :
    (exists components,
      Components memories.length (SimilarAt memories threshold) components ∧
        List.Forall₂
          (fun candidate c => candidate.memories.map some =
            c.map (fun i => memories[i]?.map MemoryNode.id))
          (findCandidates o text memories minClusterSize threshold)
          (components.filter (fun c => decide (minClusterSize <= c.length)))) ∧
      ((memories.map MemoryNode.id).Nodup ->
        ((findCandidates o text memories minClusterSize threshold).flatMap
          ConsolidationCandidate.memories).Nodup) ∧
      Forest.Reached memories.length (joinSimilar memories threshold) ∧
      Forest.Reached memories.length (groupByRoot memories.length
        (joinSimilar memories threshold) (List.range memories.length)).1 ∧
      forall f, Forest.Reached memories.length f -> forall i,
        Forest.Finds f.parent i (f.find memories.length i).1
          (f.find memories.length i).2.parent := by
  have hcomponents : Components memories.length (SimilarAt memories threshold)
      (clusterPositions o memories threshold) := components_clusterPositions o
  refine ⟨⟨_, hcomponents, ?_⟩, nodup_findCandidates o text minClusterSize,
    reached_joinSimilar memories threshold,
    reached_groupByRoot (reached_joinSimilar memories threshold) _, ?_⟩
  · rw [findCandidates_eq, List.forall₂_map_left_iff]
    apply List.forall₂_same.mpr
    intro c hc
    apply filterMap_positions
    intro i hi
    exact hcomponents.lt_of_mem (List.mem_filter.mp hc).1 hi
  · intro f hf i
    exact hf.finds i

end Clusters

end Consolidation
end MenteDb
