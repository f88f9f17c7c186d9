import MenteDb.Foundation.Ranking
import MenteDb.Foundation.Tally
import Mathlib.Algebra.Order.BigOperators.Group.List
import Mathlib.Algebra.Order.Field.Basic

/-!
# Reciprocal rank fusion

Several lists of the same kind of thing are merged by adding up, for each thing, the reciprocals
of its places.
-/

namespace Foundation

variable {κ F : Type} [Field F] [LinearOrder F] [IsStrictOrderedRing F]

/-- What each place in a list counts. -/
def reciprocals (c : F) (list : List κ) : List (κ × F) :=
  list.zipIdx.map (fun x => (x.1, 1 / (c + (x.2 : F))))

omit [LinearOrder F] [IsStrictOrderedRing F] in
@[simp] theorem map_fst_reciprocals (c : F) (list : List κ) :
    (reciprocals c list).map Prod.fst = list := by
  unfold reciprocals
  rw [List.map_map]
  exact List.zipIdx_map_fst 0 list

omit [LinearOrder F] [IsStrictOrderedRing F] in
theorem mem_reciprocals {c : F} {list : List κ} {i : Nat} {k : κ} (h : list[i]? = some k) :
    (k, 1 / (c + (i : F))) ∈ reciprocals c list :=
  List.mem_map.mpr ⟨(k, i), List.mk_mem_zipIdx_iff_getElem?.mpr h, rfl⟩

theorem one_div_pos_of_place {c : F} (hc : 0 < c) (i : Nat) : 0 < 1 / (c + (i : F)) :=
  one_div_pos.mpr (add_pos_of_pos_of_nonneg hc (Nat.cast_nonneg i))

theorem one_div_lt_of_place {c : F} (hc : 0 < c) {i j : Nat} (h : i < j) :
    1 / (c + (j : F)) < 1 / (c + (i : F)) := by
  apply one_div_lt_one_div_of_lt
  · exact add_pos_of_pos_of_nonneg hc (Nat.cast_nonneg i)
  · exact add_lt_add_right (Nat.cast_lt.mpr h) c

theorem pairwise_reciprocals {c : F} (hc : 0 < c) (list : List κ) :
    (reciprocals c list).Pairwise (fun a b => b.2 < a.2) := by
  unfold reciprocals
  rw [List.pairwise_map]
  have hplaces : (list.zipIdx.map Prod.snd).Pairwise (fun i j => i < j) := by
    rw [List.zipIdx_map_snd]
    exact List.pairwise_lt_range'
  exact (List.pairwise_map.mp hplaces).imp (fun hlt => one_div_lt_of_place hc hlt)

section Fused

variable [DecidableEq κ]

/-- The sum of the reciprocal places of each thing, once. -/
def fused (c : F) (lists : List (List κ)) : List (κ × F) :=
  tallies (lists.flatMap (reciprocals c))

omit [LinearOrder F] [IsStrictOrderedRing F] in
theorem mem_fused {c : F} {lists : List (List κ)} {k : κ} {v : F} :
    (k, v) ∈ fused c lists <->
      (exists list, list ∈ lists ∧ k ∈ list) ∧ v = tally (lists.flatMap (reciprocals c)) k := by
  unfold fused
  rw [mem_tallies, List.map_flatMap]
  simp only [map_fst_reciprocals, List.mem_flatMap]

omit [LinearOrder F] [IsStrictOrderedRing F] in
theorem nodup_fused (c : F) (lists : List (List κ)) : ((fused c lists).map Prod.fst).Nodup :=
  nodup_tallies _

/-- The first one stands before the second one. -/
def Before (list : List κ) (a b : κ) : Prop :=
  exists i j : Nat, i < j ∧ list[i]? = some a ∧ list[j]? = some b

omit [LinearOrder F] [IsStrictOrderedRing F] in
theorem tally_flatMap {α : Type} (f : α -> List (κ × F)) (xs : List α) (k : κ) :
    tally (xs.flatMap f) k = (xs.map (fun x => tally (f x) k)).sum := by
  induction xs with
  | nil => rfl
  | cons x rest ih =>
      rw [List.flatMap_cons, List.map_cons, List.sum_cons, ← ih]
      unfold tally
      rw [List.filter_append, List.map_append, List.sum_append]

omit [LinearOrder F] [IsStrictOrderedRing F] in
theorem tally_reciprocals {c : F} {list : List κ} (hnodup : list.Nodup) {i : Nat} {k : κ}
    (h : list[i]? = some k) : tally (reciprocals c list) k = 1 / (c + (i : F)) := by
  refine tally_of_mem ?_ (mem_reciprocals h)
  rw [map_fst_reciprocals]
  exact hnodup

omit [LinearOrder F] [IsStrictOrderedRing F] in
theorem tally_reciprocals_of_not_mem {c : F} {list : List κ} {k : κ} (h : k ∉ list) :
    tally (reciprocals c list) k = 0 := by
  apply tally_of_not_mem
  rw [map_fst_reciprocals]
  exact h

theorem tally_reciprocals_nonneg {c : F} (hc : 0 < c) {list : List κ} (hnodup : list.Nodup)
    (k : κ) : 0 <= tally (reciprocals c list) k := by
  by_cases hk : k ∈ list
  · rcases List.getElem?_of_mem hk with ⟨i, hi⟩
    rw [tally_reciprocals hnodup hi]
    exact le_of_lt (one_div_pos_of_place hc i)
  · rw [tally_reciprocals_of_not_mem hk]

theorem tally_reciprocals_lt {c : F} (hc : 0 < c) {list : List κ} (hnodup : list.Nodup)
    {a b : κ} (h : Before list a b) :
    tally (reciprocals c list) b < tally (reciprocals c list) a := by
  rcases h with ⟨i, j, hlt, ha, hb⟩
  rw [tally_reciprocals hnodup ha, tally_reciprocals hnodup hb]
  exact one_div_lt_of_place hc hlt

/-- What every list with the second one puts before it gets the higher score. -/
theorem tally_lt_of_before {c : F} (hc : 0 < c) {lists : List (List κ)}
    (hnodup : forall list, list ∈ lists -> list.Nodup) {a b : κ}
    (hbefore : forall list, list ∈ lists -> b ∈ list -> Before list a b)
    (hfound : exists list, list ∈ lists ∧ b ∈ list) :
    tally (lists.flatMap (reciprocals c)) b < tally (lists.flatMap (reciprocals c)) a := by
  rw [tally_flatMap, tally_flatMap]
  apply List.sum_lt_sum
  · intro list hlist
    by_cases hb : b ∈ list
    · exact le_of_lt (tally_reciprocals_lt hc (hnodup list hlist) (hbefore list hlist hb))
    · rw [tally_reciprocals_of_not_mem hb]
      exact tally_reciprocals_nonneg hc (hnodup list hlist) a
  · rcases hfound with ⟨list, hlist, hb⟩
    exact ⟨list, hlist, tally_reciprocals_lt hc (hnodup list hlist) (hbefore list hlist hb)⟩

/-- One list is merged into itself. -/
theorem TopOf.eq_of_fused_singleton {c : F} (hc : 0 < c) {list : List κ} (hnodup : list.Nodup)
    {k : Nat} (hlength : list.length <= k) {top : List (κ × F)}
    (h : TopOf k (fused c [list]) top) : top.map Prod.fst = list := by
  have hkeys : ((reciprocals c list).map Prod.fst).Nodup := by
    rw [map_fst_reciprocals]
    exact hnodup
  have hself : (fused c [list]).Perm (reciprocals c list) := by
    rw [List.perm_ext_iff_of_nodup (List.Nodup.of_map _ (nodup_fused c [list]))
      (List.Nodup.of_map _ hkeys)]
    rintro ⟨key, v⟩
    unfold fused
    rw [List.flatMap_singleton, mem_tallies]
    constructor
    · rintro ⟨hkey, hv⟩
      rw [map_fst_reciprocals] at hkey
      rcases List.getElem?_of_mem hkey with ⟨i, hi⟩
      rw [hv, tally_reciprocals hnodup hi]
      exact mem_reciprocals hi
    · intro hmem
      exact ⟨List.mem_map_of_mem hmem, (tally_of_mem hkeys hmem).symm⟩
  have hsorted := pairwise_reciprocals hc list
  have hall : TopOf k (fused c [list]) (reciprocals c list) := by
    refine ⟨reciprocals c list, hself.symm, hsorted.imp le_of_lt, ?_⟩
    rw [List.take_of_length_le]
    rw [← map_fst_reciprocals c list, List.length_map] at hlength
    exact hlength
  have hscores : ((reciprocals c list).map Prod.snd).Nodup := by
    apply List.pairwise_map.mpr
    exact hsorted.imp (fun hlt => ne_of_gt hlt)
  have heq : top = reciprocals c list := by
    apply h.eq_of_distinct hall
    intro x y hx hy hxy
    exact List.inj_on_of_nodup_map hscores (hself.mem_iff.mp hx) (hself.mem_iff.mp hy) hxy
  rw [heq, map_fst_reciprocals]

end Fused

end Foundation
