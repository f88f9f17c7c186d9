import Mathlib.Data.List.Sort
import Mathlib.Order.Basic

/-!
# Rankings

A ranking lists scored keys, each key once, best score first.  Rankings arise by
sorting a table of scores whose iteration order is not specified.
-/

namespace Foundation

/-- An unspecified iteration order, as that of a hash table. -/
structure HashOrder where
  order : forall {α : Type}, List α -> List α
  perm : forall {α : Type} (xs : List α), (order xs).Perm xs

/-- Iteration in insertion order. -/
def HashOrder.insertion : HashOrder where
  order := fun xs => xs
  perm := fun xs => List.Perm.refl xs

@[simp] theorem HashOrder.mem_order (o : HashOrder) {α : Type} {xs : List α} {x : α} :
    x ∈ o.order xs <-> x ∈ xs :=
  (o.perm xs).mem_iff

/-- The first element of a sorted list with a property is the least one. -/
theorem find?_of_pairwise_le {α : Type} [PartialOrder α] {xs : List α} {p : α -> Bool} {x : α}
    (h : xs.Pairwise (fun a b => a <= b)) :
    xs.find? p = some x <->
      x ∈ xs ∧ p x = true ∧ forall y, y ∈ xs -> p y = true -> x <= y := by
  induction xs with
  | nil => simp
  | cons a rest ih =>
      rcases List.pairwise_cons.mp h with ⟨hfirst, hrest⟩
      rw [List.find?_cons]
      cases ha : p a with
      | true =>
          constructor
          · intro heq
            cases heq
            refine ⟨List.mem_cons_self, ha, ?_⟩
            intro y hy _
            rcases List.mem_cons.mp hy with hy | hy
            · rw [hy]
            · exact hfirst y hy
          · intro hleast
            rcases hleast with ⟨hx, _, hle⟩
            have hxa : x <= a := hle a List.mem_cons_self ha
            rcases List.mem_cons.mp hx with hx | hx
            · rw [hx]
            · rw [le_antisymm hxa (hfirst x hx)]
      | false =>
          rw [ih hrest]
          constructor
          · intro hleast
            rcases hleast with ⟨hx, hpx, hle⟩
            refine ⟨List.mem_cons_of_mem a hx, hpx, ?_⟩
            intro y hy hpy
            rcases List.mem_cons.mp hy with hy | hy
            · rw [hy, ha] at hpy
              cases hpy
            · exact hle y hy hpy
          · intro hleast
            rcases hleast with ⟨hx, hpx, hle⟩
            rcases List.mem_cons.mp hx with hx | hx
            · rw [hx, ha] at hpx
              cases hpx
            · exact ⟨hx, hpx, fun y hy hpy => hle y (List.mem_cons_of_mem a hy) hpy⟩

variable {κ F : Type} [LinearOrder F]

structure IsRanking (xs : List (κ × F)) : Prop where
  nodup : (xs.map Prod.fst).Nodup
  sorted : xs.Pairwise (fun a b => b.2 <= a.2)

/-- Sort by score, best first. -/
def rank (xs : List (κ × F)) : List (κ × F) := xs.insertionSort (fun a b => b.2 <= a.2)

@[simp] theorem mem_rank {xs : List (κ × F)} {x : κ × F} : x ∈ rank xs <-> x ∈ xs :=
  List.mem_insertionSort _

theorem pairwise_rank (xs : List (κ × F)) : (rank xs).Pairwise (fun a b => b.2 <= a.2) := by
  have htotal : Std.Total (fun a b : κ × F => b.2 <= a.2) := ⟨fun a b => le_total b.2 a.2⟩
  have htrans : IsTrans (κ × F) (fun a b => b.2 <= a.2) :=
    ⟨fun a b c hab hbc => le_trans hbc hab⟩
  exact List.pairwise_insertionSort _ xs

theorem isRanking_rank {xs : List (κ × F)} (h : (xs.map Prod.fst).Nodup) :
    IsRanking (rank xs) where
  nodup := ((List.perm_insertionSort _ xs).map Prod.fst).nodup_iff.mpr h
  sorted := pairwise_rank xs

theorem IsRanking.sublist {xs ys : List (κ × F)} (h : IsRanking ys) (hsub : xs.Sublist ys) :
    IsRanking xs where
  nodup := h.nodup.sublist (hsub.map Prod.fst)
  sorted := h.sorted.sublist hsub

theorem IsRanking.filter {xs : List (κ × F)} (h : IsRanking xs) (p : κ × F -> Bool) :
    IsRanking (xs.filter p) :=
  h.sublist List.filter_sublist

theorem IsRanking.take {xs : List (κ × F)} (h : IsRanking xs) (k : Nat) :
    IsRanking (xs.take k) :=
  h.sublist (List.take_sublist k xs)

/-!
## The best entries

Only ties leave open which entries come first.
-/

/-- The first {lit}`k` entries of the list once it is sorted, ties in any order. -/
def TopOf (k : Nat) (xs top : List (κ × F)) : Prop :=
  exists sorted : List (κ × F),
    sorted.Perm xs ∧ sorted.Pairwise (fun a b => b.2 <= a.2) ∧ top = sorted.take k

/-- Equal scores at every place, and the same entries above the lowest score. -/
def SameUpToTies (xs ys : List (κ × F)) : Prop :=
  xs.map Prod.snd = ys.map Prod.snd ∧
    forall x y, x ∈ xs -> y ∈ ys -> (y.2 < x.2 -> x ∈ ys) ∧ (x.2 < y.2 -> y ∈ xs)

theorem topOf_rank (k : Nat) (xs : List (κ × F)) : TopOf k xs ((rank xs).take k) :=
  ⟨rank xs, List.perm_insertionSort _ xs, pairwise_rank xs, rfl⟩

/-- What passes a filter keeps its order. -/
theorem topOf_filter_rank (k : Nat) (xs : List (κ × F)) (p : κ × F -> Bool) :
    TopOf k (xs.filter p) (((rank xs).filter p).take k) :=
  ⟨(rank xs).filter p, (List.perm_insertionSort _ xs).filter p,
    (pairwise_rank xs).sublist List.filter_sublist, rfl⟩

theorem TopOf.perm {k : Nat} {xs ys top : List (κ × F)} (h : TopOf k xs top)
    (hperm : xs.Perm ys) : TopOf k ys top := by
  rcases h with ⟨sorted, hsorted, hrest⟩
  exact ⟨sorted, hsorted.trans hperm, hrest⟩

theorem TopOf.nodup {k : Nat} {xs top : List (κ × F)} (h : TopOf k xs top)
    (hxs : (xs.map Prod.fst).Nodup) : (top.map Prod.fst).Nodup := by
  rcases h with ⟨sorted, hperm, _, htop⟩
  rw [htop]
  exact ((hperm.map Prod.fst).nodup_iff.mpr hxs).sublist ((List.take_sublist k sorted).map _)

/-- What scores higher than one of the first entries is among them. -/
theorem TopOf.mem_of_higher {k : Nat} {xs top : List (κ × F)} (h : TopOf k xs top) {x y : κ × F}
    (hx : x ∈ xs) (hy : y ∈ top) (hlt : y.2 < x.2) : x ∈ top := by
  rcases h with ⟨sorted, hperm, hsorted, htop⟩
  rw [htop] at hy ⊢
  have hmem : x ∈ sorted := hperm.mem_iff.mpr hx
  rw [← List.take_append_drop k sorted] at hmem hsorted
  rcases List.mem_append.mp hmem with htake | hdrop
  · exact htake
  · -- what is dropped scores no better than what is taken
    have hle := (List.pairwise_append.mp hsorted).2.2 y hy x hdrop
    exact absurd hlt (not_lt.mpr hle)

theorem TopOf.mem_of_lt {k : Nat} {xs top top' : List (κ × F)} (h : TopOf k xs top)
    (h' : TopOf k xs top') {x y : κ × F} (hx : x ∈ top) (hy : y ∈ top') (hlt : y.2 < x.2) :
    x ∈ top' := by
  rcases h with ⟨sorted, hperm, _, htop⟩
  rw [htop] at hx
  exact h'.mem_of_higher (hperm.mem_iff.mp (List.mem_of_mem_take hx)) hy hlt

theorem TopOf.sameUpToTies {k : Nat} {xs top top' : List (κ × F)} (h : TopOf k xs top)
    (h' : TopOf k xs top') : SameUpToTies top top' := by
  refine ⟨?_, fun x y hx hy => ⟨h.mem_of_lt h' hx hy, h'.mem_of_lt h hy hx⟩⟩
  rcases h with ⟨sorted, hperm, hsorted, htop⟩
  rcases h' with ⟨sorted', hperm', hsorted', htop'⟩
  have hscores : (sorted.map Prod.snd).Perm (sorted'.map Prod.snd) :=
    (hperm.trans hperm'.symm).map Prod.snd
  have hfirst : (sorted.map Prod.snd).Pairwise (fun a b => b <= a) :=
    List.pairwise_map.mpr hsorted
  have hsecond : (sorted'.map Prod.snd).Pairwise (fun a b => b <= a) :=
    List.pairwise_map.mpr hsorted'
  have heq : sorted.map Prod.snd = sorted'.map Prod.snd :=
    List.Perm.eq_of_pairwise (fun _ _ _ _ hab hba => le_antisymm hba hab) hfirst hsecond hscores
  rw [htop, htop', List.map_take, List.map_take, heq]

/-- Without ties there is one list of best entries. -/
theorem TopOf.eq_of_distinct {k : Nat} {xs top top' : List (κ × F)} (h : TopOf k xs top)
    (h' : TopOf k xs top')
    (hdistinct : forall x y, x ∈ xs -> y ∈ xs -> x.2 = y.2 -> x = y) : top = top' := by
  rcases h with ⟨sorted, hperm, hsorted, htop⟩
  rcases h' with ⟨sorted', hperm', hsorted', htop'⟩
  have heq : sorted = sorted' := by
    refine List.Perm.eq_of_pairwise ?_ hsorted hsorted' (hperm.trans hperm'.symm)
    intro a b ha hb hab hba
    exact hdistinct a b (hperm.mem_iff.mp ha) (hperm'.mem_iff.mp hb) (le_antisymm hba hab)
  rw [htop, htop', heq]

/-!
### Ties that do not matter

A tie leaves the first entries alone when it lies behind them, and leaves their set alone
when it does not lie across the cut.
-/

/-- How many entries score higher. -/
def above (xs : List (κ × F)) (x : κ × F) : Nat :=
  (xs.filter (fun z => decide (x.2 < z.2))).length

/-- How many entries score at least as high. -/
def atLeast (xs : List (κ × F)) (x : κ × F) : Nat :=
  (xs.filter (fun z => decide (x.2 <= z.2))).length

/-- Entries with one score are behind the first ones. -/
def Settled (k : Nat) (xs : List (κ × F)) : Prop :=
  forall x y, x ∈ xs -> y ∈ xs -> x ≠ y -> x.2 = y.2 -> k <= above xs x

/-- Entries with one score are on the same side of the cut. -/
def CutSettled (k : Nat) (xs : List (κ × F)) : Prop :=
  forall x, x ∈ xs -> k <= above xs x ∨ atLeast xs x <= k

instance [DecidableEq κ] (k : Nat) (xs : List (κ × F)) : Decidable (Settled k xs) :=
  decidable_of_iff (forall x, x ∈ xs -> forall y, y ∈ xs -> x ≠ y -> x.2 = y.2 ->
      k <= above xs x)
    ⟨fun h x y hx hy => h x hx y hy, fun h x hx y hy => h x y hx hy⟩

instance (k : Nat) (xs : List (κ × F)) : Decidable (CutSettled k xs) :=
  inferInstanceAs (Decidable (forall x, x ∈ xs -> k <= above xs x ∨ atLeast xs x <= k))

theorem above_perm {xs ys : List (κ × F)} (h : xs.Perm ys) (x : κ × F) :
    above xs x = above ys x :=
  (h.filter _).length_eq

theorem atLeast_perm {xs ys : List (κ × F)} (h : xs.Perm ys) (x : κ × F) :
    atLeast xs x = atLeast ys x :=
  (h.filter _).length_eq

/-- In a sorted list what scores higher than an entry stands before it. -/
theorem above_le_of_sorted {before after : List (κ × F)} {x : κ × F}
    (h : (before ++ x :: after).Pairwise (fun a b => b.2 <= a.2)) :
    above (before ++ x :: after) x <= before.length := by
  have hbehind : (x :: after).filter (fun z => decide (x.2 < z.2)) = [] := by
    apply List.filter_eq_nil_iff.mpr
    intro z hz
    rw [decide_eq_true_eq, not_lt]
    cases List.mem_cons.mp hz with
    | inl heq => exact le_of_eq (congrArg Prod.snd heq)
    | inr hmem => exact (List.pairwise_cons.mp (List.pairwise_append.mp h).2.1).1 z hmem
  unfold above
  rw [List.filter_append, hbehind, List.append_nil]
  exact List.length_filter_le _ _

theorem not_mem_take_of_above {k : Nat} {sorted : List (κ × F)}
    (h : sorted.Pairwise (fun a b => b.2 <= a.2)) {x : κ × F} (hx : k <= above sorted x) :
    x ∉ sorted.take k := by
  intro hmem
  rcases List.append_of_mem hmem with ⟨before, after, hsplit⟩
  have hlist : sorted = before ++ x :: (after ++ sorted.drop k) := by
    conv_lhs => rw [← List.take_append_drop k sorted, hsplit]
    rw [List.append_assoc, List.cons_append]
  have hlength : before.length < k := by
    have htake := congrArg List.length hsplit
    rw [List.length_take, List.length_append, List.length_cons] at htake
    omega
  rw [hlist] at h hx
  exact absurd (Nat.lt_of_le_of_lt (above_le_of_sorted h) hlength) (Nat.not_lt.mpr hx)

theorem mem_take_of_atLeast {k : Nat} {sorted : List (κ × F)}
    (h : sorted.Pairwise (fun a b => b.2 <= a.2)) {x : κ × F} (hx : x ∈ sorted)
    (hk : atLeast sorted x <= k) : x ∈ sorted.take k := by
  rw [← List.take_append_drop k sorted] at hx h
  rcases List.mem_append.mp hx with htake | hdrop
  · exact htake
  · -- the whole first part scores at least as high, and the entry itself does
    have hfull : (sorted.take k).length = k := by
      have hlength := List.length_pos_of_mem hdrop
      rw [List.length_drop] at hlength
      rw [List.length_take]
      omega
    have hfirst : (sorted.take k).filter (fun z => decide (x.2 <= z.2)) = sorted.take k := by
      apply List.filter_eq_self.mpr
      intro z hz
      exact decide_eq_true ((List.pairwise_append.mp h).2.2 z hz x hdrop)
    have hself : x ∈ (sorted.drop k).filter (fun z => decide (x.2 <= z.2)) :=
      List.mem_filter.mpr ⟨hdrop, decide_eq_true (le_refl _)⟩
    have hpos := List.length_pos_of_mem hself
    rw [atLeast, ← List.take_append_drop k sorted, List.filter_append, List.length_append,
      hfirst, hfull] at hk
    omega

/-- Ties behind the first entries leave one list of them. -/
theorem TopOf.eq_of_settled {k : Nat} {xs top top' : List (κ × F)} (h : TopOf k xs top)
    (h' : TopOf k xs top') (hsettled : Settled k xs) : top = top' := by
  have hscores := (h.sameUpToTies h').1
  rcases h with ⟨sorted, hperm, hsorted, htop⟩
  rcases h' with ⟨sorted', hperm', hsorted', htop'⟩
  have hlength : top.length = top'.length := by
    simpa using congrArg List.length hscores
  apply List.ext_getElem hlength
  intro i hi hi'
  have hx : top[i] ∈ xs := by
    have hmem : top[i] ∈ sorted.take k := htop ▸ List.getElem_mem hi
    exact hperm.mem_iff.mp (List.mem_of_mem_take hmem)
  have hy : top'[i] ∈ xs := by
    have hmem : top'[i] ∈ sorted'.take k := htop' ▸ List.getElem_mem hi'
    exact hperm'.mem_iff.mp (List.mem_of_mem_take hmem)
  have hscore : top[i].2 = top'[i].2 := by
    have hplace := congrArg (fun l => l[i]?) hscores
    simpa [hi, hi'] using hplace
  by_contra hne
  have habove := hsettled _ _ hx hy hne hscore
  rw [← above_perm hperm] at habove
  exact not_mem_take_of_above hsorted habove (htop ▸ List.getElem_mem hi)

/-- Without a tie across the cut there is one set of first entries. -/
theorem TopOf.mem_iff_of_cutSettled {k : Nat} {xs top : List (κ × F)} (h : TopOf k xs top)
    (hsettled : CutSettled k xs) (x : κ × F) :
    x ∈ top <-> x ∈ xs ∧ atLeast xs x <= k := by
  rcases h with ⟨sorted, hperm, hsorted, htop⟩
  rw [htop]
  constructor
  · intro hmem
    have hx := hperm.mem_iff.mp (List.mem_of_mem_take hmem)
    rcases hsettled x hx with habove | hatLeast
    · rw [← above_perm hperm] at habove
      exact absurd hmem (not_mem_take_of_above hsorted habove)
    · exact ⟨hx, hatLeast⟩
  · rintro ⟨hx, hatLeast⟩
    rw [← atLeast_perm hperm] at hatLeast
    exact mem_take_of_atLeast hsorted (hperm.mem_iff.mpr hx) hatLeast

end Foundation
