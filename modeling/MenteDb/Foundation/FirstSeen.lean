import Mathlib.Data.List.Nodup

/-!
# The first of each

A loop that remembers the keys it has seen keeps the first element of each key.
-/

namespace Foundation

variable {α κ : Type} [DecidableEq κ] (key : α -> κ)

/-- The elements whose keys are new, and the keys that were seen with them. -/
def firstOfEach : List κ -> List α -> List α × List κ
  | seen, [] => ([], seen)
  | seen, x :: rest =>
      if key x ∈ seen then firstOfEach seen rest
      else
        let later := firstOfEach (key x :: seen) rest
        (x :: later.1, later.2)

variable {key}

theorem firstOfEach_append (seen : List κ) (xs ys : List α) :
    (firstOfEach key seen (xs ++ ys)).1 =
      (firstOfEach key seen xs).1 ++ (firstOfEach key (firstOfEach key seen xs).2 ys).1 := by
  induction xs generalizing seen with
  | nil => rfl
  | cons x rest ih =>
      rw [List.cons_append, firstOfEach, firstOfEach]
      split
      · exact ih seen
      · exact congrArg (fun later => x :: later) (ih (key x :: seen))

theorem firstOfEach_sublist (seen : List κ) (xs : List α) :
    (firstOfEach key seen xs).1.Sublist xs := by
  induction xs generalizing seen with
  | nil => exact List.Sublist.refl _
  | cons x rest ih =>
      rw [firstOfEach]
      split
      · exact (ih seen).cons x
      · exact (ih (key x :: seen)).cons_cons x

theorem not_mem_seen_of_firstOfEach {seen : List κ} {xs : List α} {x : α}
    (h : x ∈ (firstOfEach key seen xs).1) : key x ∉ seen := by
  induction xs generalizing seen with
  | nil => cases h
  | cons y rest ih =>
      rw [firstOfEach] at h
      split at h
      · exact ih h
      · rename_i hnew
        rcases List.mem_cons.mp h with heq | hlater
        · rw [heq]
          exact hnew
        · exact fun hx => ih hlater (List.mem_cons_of_mem _ hx)

theorem nodup_firstOfEach (seen : List κ) (xs : List α) :
    ((firstOfEach key seen xs).1.map key).Nodup := by
  induction xs generalizing seen with
  | nil => exact List.nodup_nil
  | cons x rest ih =>
      rw [firstOfEach]
      split
      · exact ih seen
      · rw [List.map_cons, List.nodup_cons]
        refine ⟨?_, ih (key x :: seen)⟩
        intro hmem
        rcases List.mem_map.mp hmem with ⟨y, hy, heq⟩
        exact not_mem_seen_of_firstOfEach hy (heq ▸ List.mem_cons_self)

/-- Every key that was not seen before is there. -/
theorem mem_keys_firstOfEach {seen : List κ} {xs : List α} {k : κ} :
    k ∈ (firstOfEach key seen xs).1.map key <-> k ∈ xs.map key ∧ k ∉ seen := by
  constructor
  · intro h
    rcases List.mem_map.mp h with ⟨x, hx, rfl⟩
    exact ⟨List.mem_map_of_mem ((firstOfEach_sublist seen xs).subset hx),
      not_mem_seen_of_firstOfEach hx⟩
  · rintro ⟨hmem, hnew⟩
    induction xs generalizing seen with
    | nil => cases hmem
    | cons x rest ih =>
        rw [firstOfEach]
        rw [List.map_cons, List.mem_cons] at hmem
        split
        · rename_i hseen
          rcases hmem with heq | hlater
          · rw [heq] at hnew
            exact absurd hseen hnew
          · exact ih hlater hnew
        · rw [List.map_cons, List.mem_cons]
          by_cases heq : k = key x
          · exact Or.inl heq
          · refine Or.inr (ih (hmem.resolve_left heq) ?_)
            rw [List.mem_cons]
            exact not_or.mpr ⟨heq, hnew⟩

end Foundation
