import MenteDb.Foundation.Ranking

/-!
# Retention

Entries arrive one by one, and each time only the best so many are kept.  What is kept in the
end is the best of everything that arrived.
-/

namespace Foundation

variable {κ F : Type} [LinearOrder F]

/-- What was dropped earlier does not come back. -/
theorem TopOf.push {n : Nat} {xs top top' : List (κ × F)} {x : κ × F} (h : TopOf n xs top)
    (h' : TopOf n (top ++ [x]) top') : TopOf n (xs ++ [x]) top' := by
  rcases h with ⟨sorted, hperm, hsorted, rfl⟩
  rcases h' with ⟨sorted', hperm', hsorted', rfl⟩
  have hparts := hsorted
  rw [← List.take_append_drop n sorted, List.pairwise_append] at hparts
  have hparts' := hsorted'
  rw [← List.take_append_drop n sorted', List.pairwise_append] at hparts'
  have hlength : sorted'.length = (sorted.take n).length + 1 := by
    rw [hperm'.length_eq, List.length_append, List.length_singleton]
  refine ⟨sorted'.take n ++ rank (sorted'.drop n ++ sorted.drop n), ?_, ?_, ?_⟩
  · have hrest := List.perm_insertionSort (fun a b : κ × F => b.2 <= a.2)
      (sorted'.drop n ++ sorted.drop n)
    calc (sorted'.take n ++ rank (sorted'.drop n ++ sorted.drop n)).Perm
          (sorted'.take n ++ (sorted'.drop n ++ sorted.drop n)) := hrest.append_left _
      _ = sorted' ++ sorted.drop n := by rw [← List.append_assoc, List.take_append_drop]
      _ |>.Perm ((sorted.take n ++ [x]) ++ sorted.drop n) := hperm'.append_right _
      _ |>.Perm ((sorted.take n ++ sorted.drop n) ++ [x]) := by
          rw [List.append_assoc, List.append_assoc]
          exact (List.perm_append_comm).append_left _
      _ = sorted ++ [x] := by rw [List.take_append_drop]
      _ |>.Perm (xs ++ [x]) := hperm.append_right _
  · rw [List.pairwise_append]
    refine ⟨hparts'.1, pairwise_rank _, ?_⟩
    intro a ha b hb
    rcases List.mem_append.mp (mem_rank.mp hb) with hnow | hbefore
    · exact hparts'.2.2 a ha b hnow
    · -- something was dropped, so one entry is dropped now
      have hfull : (sorted.take n).length = n := by
        have hlt : n < sorted.length := by
          by_contra hge
          rw [List.drop_eq_nil_of_le (Nat.not_lt.mp hge)] at hbefore
          cases hbefore
        rw [List.length_take, Nat.min_eq_left (Nat.le_of_lt hlt)]
      have hone : (sorted'.drop n).length = 1 := by
        rw [List.length_drop, hlength, hfull, Nat.add_sub_cancel_left]
      rcases List.length_eq_one_iff.mp hone with ⟨d, hd⟩
      have hkept : forall y, y ∈ sorted' -> y ∈ sorted.take n ∨ y = x := by
        intro y hy
        have hmem := hperm'.mem_iff.mp hy
        rw [List.mem_append, List.mem_singleton] at hmem
        exact hmem
      have hdropped : d ∈ sorted'.drop n := hd ▸ List.mem_singleton_self d
      rcases hkept a (List.mem_of_mem_take ha) with hold | hnew
      · exact hparts.2.2 a hold b hbefore
      · rcases hkept d (List.mem_of_mem_drop hdropped) with hdold | hdnew
        · exact (hparts.2.2 d hdold b hbefore).trans (hparts'.2.2 a ha d hdropped)
        · -- the new entry is dropped itself, so what is kept was kept before
          have hsame : (sorted'.take n ++ [x]).Perm (sorted.take n ++ [x]) := by
            have hlast : sorted'.take n ++ [x] = sorted' := by
              rw [← hdnew, ← hd, List.take_append_drop]
            rw [hlast]
            exact hperm'
          exact hparts.2.2 a (((List.perm_append_right_iff [x]).mp hsame).mem_iff.mp ha) b hbefore
  · rcases Nat.lt_or_ge sorted'.length n with hshort | hlong
    · have hless : sorted.length <= n := by
        rw [hlength, List.length_take] at hshort
        omega
      rw [List.drop_eq_nil_of_le (Nat.le_of_lt hshort), List.drop_eq_nil_of_le hless]
      show _ = (sorted'.take n ++ []).take n
      rw [List.append_nil, List.take_take, Nat.min_self]
    · rw [List.take_left' (List.length_take_of_le hlong)]

end Foundation
