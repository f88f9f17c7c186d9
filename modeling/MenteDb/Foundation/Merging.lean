import MenteDb.Foundation.Assoc

/-!
# Merging tables

The rows of one table are merged into another, one after the other.  What a row leaves under its
key is combined from what was there and what it holds, and combining can fail.  The order of the
rows does not matter to what is found afterwards, since no key has two rows.
-/

namespace Foundation
namespace Assoc

variable {κ ν μ : Type} [DecidableEq κ]

def mergeRows (combine : Option ν -> μ -> Option ν) (t : Assoc κ ν) (rows : List (κ × μ)) :
    Option (Assoc κ ν) :=
  rows.foldlM (fun t row =>
    (combine (t.find? row.1) row.2).map (fun v => t.insert row.1 v)) t

section Rows

variable {combine : Option ν -> μ -> Option ν}

theorem mergeRows_cons_eq_some {t t' : Assoc κ ν} {row : κ × μ} {rest : List (κ × μ)}
    (h : mergeRows combine t (row :: rest) = some t') :
    exists v, combine (t.find? row.1) row.2 = some v ∧
      mergeRows combine (t.insert row.1 v) rest = some t' := by
  unfold mergeRows at h
  rw [List.foldlM_cons] at h
  rcases Option.bind_eq_some_iff.mp h with ⟨next, hnext, hrest⟩
  rcases Option.map_eq_some_iff.mp hnext with ⟨v, hv, heq⟩
  rw [← heq] at hrest
  exact ⟨v, hv, hrest⟩

theorem find?_mergeRows_of_notMem {t t' : Assoc κ ν} {rows : List (κ × μ)}
    (h : mergeRows combine t rows = some t') {j : κ} (hj : j ∉ rows.map Prod.fst) :
    t'.find? j = t.find? j := by
  induction rows generalizing t with
  | nil =>
      cases h
      rfl
  | cons row rest ih =>
      rw [List.map_cons, List.mem_cons, not_or] at hj
      rcases mergeRows_cons_eq_some h with ⟨v, -, hrest⟩
      rw [ih hrest hj.2, find?_insert, if_neg hj.1]

theorem find?_mergeRows_of_mem {t t' : Assoc κ ν} {rows : List (κ × μ)}
    (hnodup : (rows.map Prod.fst).Nodup) (h : mergeRows combine t rows = some t') {j : κ} {x : μ}
    (hj : (j, x) ∈ rows) : exists v, combine (t.find? j) x = some v ∧ t'.find? j = some v := by
  induction rows generalizing t with
  | nil => exact absurd hj List.not_mem_nil
  | cons row rest ih =>
      rw [List.map_cons, List.nodup_cons] at hnodup
      rcases mergeRows_cons_eq_some h with ⟨v, hv, hrest⟩
      rcases List.mem_cons.mp hj with heq | hmem
      · rw [← heq] at hv hrest hnodup
        refine ⟨v, hv, ?_⟩
        rw [find?_mergeRows_of_notMem hrest hnodup.1, find?_insert, if_pos rfl]
      · have hne : j ≠ row.1 := by
          intro heq
          rw [← heq] at hnodup
          exact hnodup.1 (List.mem_map_of_mem hmem)
        rcases ih hnodup.2 hrest hmem with ⟨w, hw, hfind⟩
        rw [find?_insert, if_neg hne] at hw
        exact ⟨w, hw, hfind⟩

/-- What is found after a merge. -/
theorem find?_mergeRows {t t' : Assoc κ ν} {u : Assoc κ μ}
    (h : mergeRows combine t u.entries = some t') (j : κ) :
    t'.find? j =
      match u.find? j with
      | none => t.find? j
      | some x => combine (t.find? j) x := by
  cases hfind : u.find? j with
  | none => exact find?_mergeRows_of_notMem h (find?_eq_none_iff.mp hfind)
  | some x =>
      rcases find?_mergeRows_of_mem u.nodup h (find?_eq_some_iff.mp hfind) with ⟨v, hv, hj⟩
      exact hj.trans hv.symm

/-- A merge does not fail if no row fails on what was there. -/
theorem mergeRows_isSome {t : Assoc κ ν} {rows : List (κ × μ)}
    (hnodup : (rows.map Prod.fst).Nodup)
    (h : forall row, row ∈ rows -> (combine (t.find? row.1) row.2).isSome = true) :
    (mergeRows combine t rows).isSome = true := by
  induction rows generalizing t with
  | nil => rfl
  | cons row rest ih =>
      rw [List.map_cons, List.nodup_cons] at hnodup
      rcases Option.isSome_iff_exists.mp (h row List.mem_cons_self) with ⟨v, hv⟩
      unfold mergeRows
      rw [List.foldlM_cons, hv]
      apply ih hnodup.2
      intro other hother
      have hne : other.1 ≠ row.1 := by
        intro heq
        rw [← heq] at hnodup
        exact hnodup.1 (List.mem_map_of_mem hother)
      rw [find?_insert, if_neg hne]
      exact h other (List.mem_cons_of_mem row hother)

end Rows

end Assoc
end Foundation
