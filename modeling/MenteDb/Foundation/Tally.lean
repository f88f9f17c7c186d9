import MenteDb.Foundation.Assoc
import Mathlib.Algebra.BigOperators.Group.List.Basic
import Mathlib.Data.List.Dedup
import Mathlib.Data.List.Perm.Basic

/-!
# Tallies

A loop fills a table by combining the amounts it reads with what the table has under their keys.
What is accumulated under a key depends only on the amounts of this key, in order.  A tally adds
them up.
-/

namespace Foundation

variable {κ F : Type} [DecidableEq κ] [AddCommMonoid F]

def tally (xs : List (κ × F)) (k : κ) : F :=
  ((xs.filter (fun x => decide (x.1 = k))).map Prod.snd).sum

/-- Every key once, with its tally. -/
def tallies (xs : List (κ × F)) : List (κ × F) :=
  (xs.map Prod.fst).dedup.map (fun k => (k, tally xs k))

theorem tally_of_not_mem {xs : List (κ × F)} {k : κ} (h : k ∉ xs.map Prod.fst) :
    tally xs k = 0 := by
  have hnone : xs.filter (fun x => decide (x.1 = k)) = [] := by
    apply List.filter_eq_nil_iff.mpr
    intro x hx hk
    exact h (of_decide_eq_true hk ▸ List.mem_map_of_mem hx)
  rw [tally, hnone, List.map_nil, List.sum_nil]

theorem tally_cons (x : κ × F) (xs : List (κ × F)) (k : κ) :
    tally (x :: xs) k = (if x.1 = k then x.2 else 0) + tally xs k := by
  unfold tally
  by_cases hk : x.1 = k
  · simp [hk]
  · simp [hk]

@[simp] theorem map_fst_tallies (xs : List (κ × F)) :
    (tallies xs).map Prod.fst = (xs.map Prod.fst).dedup := by
  rw [tallies, List.map_map]
  exact List.map_id _

theorem nodup_tallies (xs : List (κ × F)) : ((tallies xs).map Prod.fst).Nodup := by
  rw [map_fst_tallies]
  exact List.nodup_dedup _

theorem mem_tallies {xs : List (κ × F)} {k : κ} {v : F} :
    (k, v) ∈ tallies xs <-> k ∈ xs.map Prod.fst ∧ v = tally xs k := by
  unfold tallies
  rw [List.mem_map]
  constructor
  · rintro ⟨j, hj, heq⟩
    cases heq
    exact ⟨List.mem_dedup.mp hj, rfl⟩
  · rintro ⟨hk, hv⟩
    exact ⟨k, List.mem_dedup.mpr hk, by rw [hv]⟩

/-- Different keys are tallied by their own amount. -/
theorem tally_of_mem {xs : List (κ × F)} (hnodup : (xs.map Prod.fst).Nodup) {k : κ} {v : F}
    (h : (k, v) ∈ xs) : tally xs k = v := by
  induction xs with
  | nil => cases h
  | cons x rest ih =>
      rw [List.map_cons, List.nodup_cons] at hnodup
      rw [tally_cons]
      cases List.mem_cons.mp h with
      | inl heq =>
          rw [← heq] at hnodup ⊢
          rw [if_pos rfl, tally_of_not_mem hnodup.1, add_zero]
      | inr hmem =>
          have hne : x.1 ≠ k := fun heq => hnodup.1 (heq ▸ List.mem_map_of_mem hmem)
          rw [if_neg hne, zero_add, ih hnodup.2 hmem]

/-!
## Tables that accumulateAt
-/

section Accumulated

variable {F : Type} {f : Option F -> F -> F} {xs ys : List (κ × F)} {t : Assoc κ F}

/-- The amounts of a key, in order. -/
def amounts (xs : List (κ × F)) (k : κ) : List F :=
  (xs.filter (fun x => decide (x.1 = k))).map Prod.snd

/-- What the loop leaves under a key. -/
def accumulateAt (f : Option F -> F -> F) (xs : List (κ × F)) (k : κ) : Option F :=
  (amounts xs k).foldl (fun old x => some (f old x)) none

/-- Every key once, with what is left under it. -/
def accumulated (f : Option F -> F -> F) (xs : List (κ × F)) : List (κ × F) :=
  (xs.map Prod.fst).dedup.filterMap (fun k => (accumulateAt f xs k).map (fun v => (k, v)))

/-- The table after the loop. -/
def Accumulates (f : Option F -> F -> F) (t : Assoc κ F) (xs : List (κ × F)) : Prop :=
  forall k, t.find? k = accumulateAt f xs k

theorem amounts_append (xs ys : List (κ × F)) (k : κ) :
    amounts (xs ++ ys) k = amounts xs k ++ amounts ys k := by
  unfold amounts
  rw [List.filter_append, List.map_append]

theorem amounts_of_not_mem {k : κ} (h : k ∉ xs.map Prod.fst) : amounts xs k = [] := by
  unfold amounts
  rw [List.map_eq_nil_iff, List.filter_eq_nil_iff]
  intro x hx hk
  exact h (of_decide_eq_true hk ▸ List.mem_map_of_mem hx)

/-- Different keys have one amount each. -/
theorem amounts_of_mem (hnodup : (xs.map Prod.fst).Nodup) {k : κ} {v : F} (h : (k, v) ∈ xs) :
    amounts xs k = [v] := by
  rcases List.append_of_mem h with ⟨before, after, rfl⟩
  rw [List.map_append, List.map_cons, List.nodup_append, List.nodup_cons] at hnodup
  rw [List.append_cons, amounts_append, amounts_append, amounts_of_not_mem hnodup.2.1.1,
    amounts_of_not_mem (fun hmem => hnodup.2.2 k hmem k List.mem_cons_self rfl)]
  simp [amounts]

theorem amounts_eq_of_perm (hnodup : (xs.map Prod.fst).Nodup) (h : xs.Perm ys) (k : κ) :
    amounts xs k = amounts ys k := by
  by_cases hk : k ∈ xs.map Prod.fst
  · rcases List.mem_map.mp hk with ⟨x, hx, rfl⟩
    rw [amounts_of_mem hnodup hx,
      amounts_of_mem ((h.map Prod.fst).nodup_iff.mp hnodup) (h.mem_iff.mp hx)]
  · rw [amounts_of_not_mem hk, amounts_of_not_mem (fun hy => hk ((h.map Prod.fst).mem_iff.mpr hy))]

theorem mem_accumulated {k : κ} {v : F} :
    (k, v) ∈ accumulated f xs <-> accumulateAt f xs k = some v := by
  unfold accumulated
  rw [List.mem_filterMap]
  constructor
  · rintro ⟨j, _, hj⟩
    rcases Option.map_eq_some_iff.mp hj with ⟨w, hw, heq⟩
    cases heq
    exact hw
  · intro h
    refine ⟨k, ?_, by rw [h]; rfl⟩
    by_contra hk
    rw [List.mem_dedup] at hk
    rw [accumulateAt, amounts_of_not_mem hk] at h
    cases h

theorem nodup_accumulated (f : Option F -> F -> F) (xs : List (κ × F)) :
    ((accumulated f xs).map Prod.fst).Nodup := by
  refine List.pairwise_map.mpr (List.pairwise_filterMap.mpr ((List.nodup_dedup _).imp ?_))
  intro j k hne a ha b hb
  rcases Option.map_eq_some_iff.mp ha with ⟨v, _, rfl⟩
  rcases Option.map_eq_some_iff.mp hb with ⟨w, _, rfl⟩
  exact hne

/-- The order between different keys does not matter. -/
theorem accumulated_perm (h : forall k, amounts xs k = amounts ys k) :
    (accumulated f xs).Perm (accumulated f ys) := by
  rw [List.perm_ext_iff_of_nodup (List.Nodup.of_map _ (nodup_accumulated f xs))
    (List.Nodup.of_map _ (nodup_accumulated f ys))]
  rintro ⟨k, v⟩
  rw [mem_accumulated, mem_accumulated, accumulateAt, accumulateAt, h k]

theorem Accumulates.entries_perm (h : Accumulates f t xs) : t.entries.Perm (accumulated f xs) := by
  rw [List.perm_ext_iff_of_nodup (List.Nodup.of_map _ t.nodup)
    (List.Nodup.of_map _ (nodup_accumulated f xs))]
  rintro ⟨k, v⟩
  rw [← Assoc.find?_eq_some_iff, h k, mem_accumulated]

theorem accumulates_empty : Accumulates f (Assoc.empty : Assoc κ F) [] := fun _ => rfl

/-- A table with different keys is filled by its own rows. -/
theorem accumulates_entries (hf : forall v, f none v = v) (t : Assoc κ F) :
    Accumulates f t t.entries := by
  intro k
  cases hfind : t.find? k with
  | none => rw [accumulateAt, amounts_of_not_mem (Assoc.find?_eq_none_iff.mp hfind), List.foldl_nil]
  | some v =>
      rw [accumulateAt, amounts_of_mem t.nodup (Assoc.find?_eq_some_iff.mp hfind)]
      exact congrArg some (hf v).symm

theorem Accumulates.foldl {step : Assoc κ F -> κ × F -> Assoc κ F}
    (hstep : forall t x, step t x = t.upsert x.1 (fun old => f old x.2))
    (h : Accumulates f t xs) (ys : List (κ × F)) :
    Accumulates f (ys.foldl step t) (xs ++ ys) := by
  induction ys generalizing t xs with
  | nil =>
      rw [List.append_nil]
      exact h
  | cons y rest ih =>
      rw [List.foldl_cons, List.append_cons]
      apply ih
      intro k
      rw [hstep, Assoc.find?_upsert, accumulateAt, amounts_append, List.foldl_append,
        ← accumulateAt]
      by_cases hk : k = y.1
      · rw [if_pos hk, hk, ← h y.1]
        simp [amounts]
      · have hnone : amounts [y] k = [] := by simp [amounts, Ne.symm hk]
        rw [if_neg hk, hnone, h k, List.foldl_nil]

end Accumulated

theorem foldl_some_add (l : List F) (s : F) :
    l.foldl (fun old x => some (old.getD 0 + x)) (some s) = some (s + l.sum) := by
  induction l generalizing s with
  | nil => rw [List.foldl_nil, List.sum_nil, add_zero]
  | cons x rest ih => rw [List.foldl_cons, ih, Option.getD_some, List.sum_cons, add_assoc]

/-- Adding up collects the tallies. -/
theorem accumulated_add (xs : List (κ × F)) :
    accumulated (fun old x => old.getD 0 + x) xs = tallies xs := by
  have hsome : forall k, k ∈ (xs.map Prod.fst).dedup ->
      (accumulateAt (fun old x => old.getD 0 + x) xs k).map (fun v => (k, v)) =
        some (k, tally xs k) := by
    intro k hk
    rcases List.mem_map.mp (List.mem_dedup.mp hk) with ⟨x, hx, rfl⟩
    have hmem : x.2 ∈ amounts xs x.1 :=
      List.mem_map_of_mem (List.mem_filter.mpr ⟨hx, decide_eq_true rfl⟩)
    have htally : tally xs x.1 = (amounts xs x.1).sum := rfl
    rw [accumulateAt, htally]
    cases hlist : amounts xs x.1 with
    | nil =>
        rw [hlist] at hmem
        cases hmem
    | cons v rest =>
        rw [List.foldl_cons, foldl_some_add, Option.getD_none, zero_add, List.sum_cons]
        rfl
  rw [accumulated, List.filterMap_congr hsome, List.filterMap_eq_map']
  rfl

/-!
## Sums over the rows of a table
-/

namespace Assoc

variable {ν : Type}

def sumOf (f : ν -> F) (t : Assoc κ ν) : F := (t.entries.map (fun e => f e.2)).sum

/-- The sum does not depend on the order of the rows. -/
theorem sumOf_congr (f : ν -> F) {t u : Assoc κ ν} (h : forall k, t.find? k = u.find? k) :
    t.sumOf f = u.sumOf f := ((entries_perm h).map _).sum_eq

theorem sumOf_insert_of_not_contains (f : ν -> F) {t : Assoc κ ν} {k : κ}
    (h : t.contains k = false) (v : ν) : (t.insert k v).sumOf f = t.sumOf f + f v := by
  unfold sumOf insert
  rw [entries_upsert_of_not_contains _ h, List.map_append, List.sum_append, List.map_singleton,
    List.sum_singleton]

/-- A row is written, whatever was there. -/
theorem sumOf_upsert (f : ν -> F) (t : Assoc κ ν) (k : κ) (g : Option ν -> ν) :
    (t.upsert k g).sumOf f = (t.erase k).sumOf f + f (g (t.find? k)) := by
  have hnew : (t.erase k).contains k = false := by
    rw [contains, find?_erase, if_pos rfl]
    rfl
  rw [← sumOf_insert_of_not_contains f hnew]
  apply sumOf_congr
  intro j
  rw [find?_upsert, find?_insert, find?_erase]
  by_cases hj : j = k
  · rw [if_pos hj, if_pos hj]
  · rw [if_neg hj, if_neg hj, if_neg hj]

theorem sumOf_of_find? (f : ν -> F) {t : Assoc κ ν} {k : κ} {v : ν} (h : t.find? k = some v) :
    t.sumOf f = (t.erase k).sumOf f + f v := by
  have hsame := sumOf_upsert f t k (fun _ => v)
  rw [← hsame]
  apply sumOf_congr
  intro j
  rw [find?_upsert]
  by_cases hj : j = k
  · rw [if_pos hj, hj, h]
  · rw [if_neg hj]

theorem sumOf_of_not_contains (f : ν -> F) {t : Assoc κ ν} {k : κ} (h : t.find? k = none) :
    t.sumOf f = (t.erase k).sumOf f := by
  apply sumOf_congr
  intro j
  rw [find?_erase]
  by_cases hj : j = k
  · rw [if_pos hj, hj, h]
  · rw [if_neg hj]

end Assoc

end Foundation
