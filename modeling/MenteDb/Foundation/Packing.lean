import Mathlib.Algebra.GroupWithZero.Nat
import Mathlib.Data.List.Basic
import Mathlib.Data.List.Perm.Basic
import Mathlib.Data.List.Nodup

/-!
# Greedy packing

Items with weights are taken in order as long as there is room; an item that is too
heavy is passed over and the next is tried.  What was taken fits, and nothing that was
passed over fits at the end.
-/

namespace Foundation

variable {α κ : Type}

section Packing

variable (weight : α -> Nat)

/-- The items that are taken into the room. -/
def taken : Nat -> List α -> List α
  | _, [] => []
  | room, a :: rest =>
      if weight a <= room then a :: taken (room - weight a) rest else taken room rest

/-- The items that are passed over. -/
def passed : Nat -> List α -> List α
  | _, [] => []
  | room, a :: rest =>
      if weight a <= room then passed (room - weight a) rest else a :: passed room rest

theorem taken_append_passed_perm (room : Nat) (items : List α) :
    (taken weight room items ++ passed weight room items).Perm items := by
  induction items generalizing room with
  | nil => exact List.Perm.refl []
  | cons a rest ih =>
      unfold taken passed
      split
      · exact (ih _).cons a
      · exact List.perm_middle.trans ((ih room).cons a)

theorem sum_taken_le (room : Nat) (items : List α) :
    ((taken weight room items).map weight).sum <= room := by
  induction items generalizing room with
  | nil => exact Nat.zero_le room
  | cons a rest ih =>
      unfold taken
      split
      · rename_i hfits
        have hrest := ih (room - weight a)
        rw [List.map_cons, List.sum_cons]
        omega
      · exact ih room

/-- What was passed over does not fit into the room that is left at the end. -/
theorem lt_of_mem_passed {room : Nat} {items : List α} {a : α}
    (h : a ∈ passed weight room items) :
    room - ((taken weight room items).map weight).sum < weight a := by
  induction items generalizing room with
  | nil => exact absurd h List.not_mem_nil
  | cons b rest ih =>
      unfold passed at h
      unfold taken
      split at h
      · rename_i hfits
        have hrest := ih h
        rw [if_pos hfits, List.map_cons, List.sum_cons]
        omega
      · rename_i hfits
        rw [if_neg hfits]
        rcases List.mem_cons.mp h with heq | hmem
        · rw [heq]
          omega
        · exact ih hmem

end Packing

/-!
## Classes
-/

theorem sum_map_flatMap {β : Type} (weight : α -> Nat) (f : β -> List α) (bs : List β) :
    ((bs.flatMap f).map weight).sum = (bs.map (fun b => ((f b).map weight).sum)).sum := by
  induction bs with
  | nil => rfl
  | cons b rest ih =>
      rw [List.flatMap_cons, List.map_append, List.sum_append, ih]
      rfl

/-- Items sorted by the class they are in are the items. -/
theorem flatMap_classes_perm [DecidableEq κ] (classOf : α -> κ) {classes : List κ}
    (hnodup : classes.Nodup) {items : List α} (hall : forall a, a ∈ items -> classOf a ∈ classes) :
    (classes.flatMap (fun k => items.filter (fun a => decide (classOf a = k)))).Perm items := by
  induction classes generalizing items with
  | nil =>
      have hnil : items = [] := List.eq_nil_iff_forall_not_mem.mpr (fun a ha =>
        absurd (hall a ha) List.not_mem_nil)
      rw [hnil]
      exact List.Perm.refl []
  | cons k rest ih =>
      rcases List.nodup_cons.mp hnodup with ⟨hnew, hrest⟩
      have hothers : (rest.flatMap (fun k' => items.filter (fun a => decide (classOf a = k')))) =
          rest.flatMap (fun k' => (items.filter (fun a => !decide (classOf a = k))).filter
            (fun a => decide (classOf a = k'))) := by
        apply List.flatMap_congr
        intro k' hk'
        rw [List.filter_filter]
        apply List.filter_congr
        intro a _
        by_cases ha : classOf a = k'
        · have hne : k' ≠ k := fun heq => hnew (heq ▸ hk')
          rw [ha]
          simp [hne]
        · simp [ha]
      have hin : forall a, a ∈ items.filter (fun a => !decide (classOf a = k)) ->
          classOf a ∈ rest := by
        intro a ha
        rcases List.mem_filter.mp ha with ⟨hmem, hne⟩
        rcases List.mem_cons.mp (hall a hmem) with heq | hin
        · rw [heq] at hne
          simp at hne
        · exact hin
      rw [List.flatMap_cons, hothers]
      exact ((ih hrest hin).append_left _).trans (List.filter_append_perm _ items)

end Foundation
