import Mathlib.Data.List.Count
import Mathlib.Data.List.Destutter
import Mathlib.Data.List.Nodup
import Mathlib.Data.List.Sort

/-!
# Sorted lists

A stable sort keeps the order of what compares equal, so it commutes with filters.  The first
elements of a sorted list are those that few others precede.  Equal neighbours are removed by one
pass; nothing occurs twice after it if and only if equal elements were next to each other, and
whether they were can be seen one block of the sorted list at a time.
-/

namespace Foundation

variable {α β ι κ : Type}

/-!
## Comparisons
-/

/-- A comparison orders by a key if it compares the keys. -/
def OrdersBy [LinearOrder κ] (key : α -> κ) (le : α -> α -> Bool) : Prop :=
  forall a b, le a b = true <-> key a <= key b

section OrdersBy

variable [LinearOrder κ] {key : α -> κ} {le : α -> α -> Bool}

theorem OrdersBy.total (h : OrdersBy key le) : Std.Total (fun a b => le a b = true) := by
  constructor
  intro a b
  rw [h, h]
  exact le_total (key a) (key b)

theorem OrdersBy.trans (h : OrdersBy key le) : IsTrans α (fun a b => le a b = true) := by
  constructor
  intro a b c
  rw [h, h, h]
  exact le_trans

theorem OrdersBy.pairwise (h : OrdersBy key le) (xs : List α) :
    (xs.insertionSort (fun a b => le a b = true)).Pairwise (fun a b => key a <= key b) := by
  have htotal := h.total
  have htrans := h.trans
  exact (List.pairwise_insertionSort _ xs).imp (fun hab => (h _ _).mp hab)

/-- Keys that occur once are in strict order. -/
theorem OrdersBy.pairwise_lt (h : OrdersBy key le) {xs : List α} (hnodup : (xs.map key).Nodup) :
    (xs.insertionSort (fun a b => le a b = true)).Pairwise (fun a b => key a < key b) := by
  have hkeys : ((xs.insertionSort (fun a b => le a b = true)).map key).Nodup :=
    ((List.perm_insertionSort _ xs).map key).nodup_iff.mpr hnodup
  exact ((h.pairwise xs).and (List.pairwise_map.mp hkeys)).imp
    (fun hab => lt_of_le_of_ne hab.1 hab.2)

end OrdersBy

/-!
## Filters
-/

section Filters

variable {r : α -> α -> Prop} [DecidableRel r]

theorem filter_orderedInsert [IsTrans α r] (p : α -> Bool) (a : α) {l : List α}
    (hsorted : l.Pairwise r) :
    (l.orderedInsert r a).filter p =
      if p a then (l.filter p).orderedInsert r a else l.filter p := by
  induction l with
  | nil =>
      rw [List.orderedInsert_nil, List.filter_singleton, List.filter_nil, List.orderedInsert_nil]
      cases p a <;> rfl
  | cons b rest ih =>
      rw [List.pairwise_cons] at hsorted
      by_cases hab : r a b
      · -- what is kept of the rest does not precede the new element
        have hfirst : forall c, c ∈ (b :: rest).filter p -> r a c := by
          intro c hc
          rcases List.mem_cons.mp (List.mem_of_mem_filter hc) with heq | hrest
          · rw [heq]
            exact hab
          · exact IsTrans.trans a b c hab (hsorted.1 c hrest)
        rw [List.orderedInsert_cons_of_le r rest hab, List.filter_cons]
        split
        · cases hkept : (b :: rest).filter p with
          | nil => rfl
          | cons c kept =>
              rw [hkept] at hfirst
              rw [List.orderedInsert_cons_of_le r kept (hfirst c List.mem_cons_self)]
        · rfl
      · rw [List.orderedInsert_of_not_le r rest hab, List.filter_cons, List.filter_cons,
          ih hsorted.2]
        by_cases ha : p a = true
        · rw [if_pos ha, if_pos ha]
          split
          · rw [List.orderedInsert_of_not_le r _ hab]
          · rfl
        · rw [if_neg ha, if_neg ha]

theorem filter_insertionSort [IsTrans α r] [Std.Total r] (p : α -> Bool) (l : List α) :
    (l.insertionSort r).filter p = (l.filter p).insertionSort r := by
  induction l with
  | nil => rfl
  | cons a rest ih =>
      rw [List.insertionSort_cons, filter_orderedInsert p a (List.pairwise_insertionSort r rest),
        ih, List.filter_cons]
      split
      · rw [List.insertionSort_cons]
      · rfl

theorem OrdersBy.filter [LinearOrder κ] {key : α -> κ} {le : α -> α -> Bool}
    (h : OrdersBy key le) (p : α -> Bool) (xs : List α) :
    (xs.insertionSort (fun a b => le a b = true)).filter p =
      (xs.filter p).insertionSort (fun a b => le a b = true) := by
  have htotal := h.total
  have htrans := h.trans
  exact filter_insertionSort p xs

/-- What was listed for one of several sources, each listed once. -/
theorem filter_flatMap_source [DecidableEq ι] {source : β -> ι} {listed : ι -> List β}
    (hsource : forall i x, x ∈ listed i -> source x = i) {sources : List ι}
    (hnodup : sources.Nodup) {i : ι} (hi : i ∈ sources) :
    (sources.flatMap listed).filter (fun x => decide (source x = i)) = listed i := by
  have hother : forall j, j ≠ i -> (listed j).filter (fun x => decide (source x = i)) = [] := by
    intro j hji
    rw [List.filter_eq_nil_iff]
    intro x hx htrue
    exact hji ((hsource j x hx).symm.trans (of_decide_eq_true htrue))
  have hown : (listed i).filter (fun x => decide (source x = i)) = listed i := by
    rw [List.filter_eq_self]
    intro x hx
    exact decide_eq_true (hsource i x hx)
  induction sources with
  | nil => cases hi
  | cons j rest ih =>
      rw [List.nodup_cons] at hnodup
      rw [List.flatMap_cons, List.filter_append]
      by_cases hij : j = i
      · have hrest : (rest.flatMap listed).filter (fun x => decide (source x = i)) = [] := by
          rw [List.filter_flatMap, List.flatMap_eq_nil_iff]
          intro k hk
          apply hother k
          intro hki
          rw [hij, ← hki] at hnodup
          exact hnodup.1 hk
        rw [hrest, List.append_nil, hij, hown]
      · have hmem : i ∈ rest :=
          (List.mem_cons.mp hi).resolve_left (fun heq => hij heq.symm)
        rw [hother j hij, List.nil_append, ih hnodup.2 hmem]

/-- What was listed for one of several elements with different keys. -/
theorem filter_flatMap_eq [DecidableEq κ] {key : α -> κ} {f : α -> List β}
    {g : β -> κ} {xs : List α} (hkeys : (xs.map key).Nodup)
    (howned : forall x, x ∈ xs -> forall b, b ∈ f x -> g b = key x) {x : α} (hx : x ∈ xs) :
    (xs.flatMap f).filter (fun b => decide (g b = key x)) = f x := by
  induction xs with
  | nil => cases hx
  | cons y rest ih =>
      have hparts := List.nodup_cons.mp hkeys
      have hrest : forall z, z ∈ rest -> forall b, b ∈ f z -> g b = key z :=
        fun z hz => howned z (List.mem_cons_of_mem y hz)
      rw [List.flatMap_cons, List.filter_append]
      rcases List.mem_cons.mp hx with heq | hmem
      · subst heq
        have hall : (f x).filter (fun b => decide (g b = key x)) = f x := by
          apply List.filter_eq_self.mpr
          intro b hb
          exact decide_eq_true (howned x List.mem_cons_self b hb)
        have hnone : (rest.flatMap f).filter (fun b => decide (g b = key x)) = [] := by
          apply List.filter_eq_nil_iff.mpr
          intro b hb hsame
          rcases List.mem_flatMap.mp hb with ⟨z, hz, hbz⟩
          rw [hrest z hz b hbz] at hsame
          exact hparts.1 (List.mem_map.mpr ⟨z, hz, of_decide_eq_true hsame⟩)
        rw [hall, hnone, List.append_nil]
      · have hnone : (f y).filter (fun b => decide (g b = key x)) = [] := by
          apply List.filter_eq_nil_iff.mpr
          intro b hb hsame
          rw [howned y List.mem_cons_self b hb] at hsame
          exact hparts.1 (List.mem_map.mpr ⟨x, hmem, (of_decide_eq_true hsame).symm⟩)
        rw [hnone, List.nil_append]
        exact ih hparts.2 hrest hmem

end Filters

/-!
## The first elements
-/

/-- An element is among the first if few precede it. -/
theorem mem_take_iff_countP {lt : α -> α -> Bool}
    (hasymm : forall a b, lt a b = true -> lt b a = false) {xs : List α}
    (hsorted : xs.Pairwise (fun a b => lt a b = true)) (k : Nat) (x : α) :
    x ∈ xs.take k <-> x ∈ xs ∧ xs.countP (fun y => lt y x) < k := by
  have hirrefl : forall a, lt a a = false := by
    intro a
    by_contra h
    have htrue : lt a a = true := by simpa using h
    rw [hasymm a a htrue] at htrue
    cases htrue
  induction xs generalizing k with
  | nil => simp
  | cons a rest ih =>
      rw [List.pairwise_cons] at hsorted
      cases k with
      | zero => simp
      | succ n =>
          have hrest : x ∈ rest.take n <-> x ∈ rest ∧ rest.countP (fun y => lt y x) < n :=
            ih hsorted.2 n
          rw [List.take_succ_cons, List.mem_cons, List.mem_cons, hrest]
          by_cases hx : x = a
          · have hnone : (a :: rest).countP (fun y => lt y x) = 0 := by
              rw [List.countP_eq_zero]
              intro y hy
              rcases List.mem_cons.mp hy with heq | hrest
              · rw [hx, heq, hirrefl a]
                exact Bool.false_ne_true
              · rw [hx, hasymm a y (hsorted.1 y hrest)]
                exact Bool.false_ne_true
            rw [hnone]
            exact iff_of_true (Or.inl hx) ⟨Or.inl hx, Nat.succ_pos n⟩
          · have hcons : x ∈ rest -> (a :: rest).countP (fun y => lt y x) =
                rest.countP (fun y => lt y x) + 1 :=
              fun hmem => List.countP_cons_of_pos (hsorted.1 x hmem)
            constructor
            · intro h
              rcases h with heq | ⟨hmem, hcount⟩
              · exact absurd heq hx
              · rw [hcons hmem]
                exact ⟨Or.inr hmem, Nat.succ_lt_succ hcount⟩
            · rintro ⟨heq | hmem, hcount⟩
              · exact absurd heq hx
              · rw [hcons hmem] at hcount
                exact Or.inr ⟨hmem, Nat.lt_of_succ_lt_succ hcount⟩

/-!
## Equal neighbours
-/

/-- Elements with one key are next to each other. -/
def Contiguous (key : α -> κ) (xs : List α) : Prop :=
  forall x y z, [x, y, z].Sublist xs -> key x = key z -> key x = key y

theorem Contiguous.sublist {key : α -> κ} {xs ys : List α} (h : Contiguous key ys)
    (hsub : xs.Sublist ys) : Contiguous key xs :=
  fun x y z hxyz => h x y z (hxyz.trans hsub)

theorem contiguous_congr {key : α -> κ} {key' : α -> ι}
    (h : forall x y, key x = key y <-> key' x = key' y) (xs : List α) :
    Contiguous key xs <-> Contiguous key' xs := by
  unfold Contiguous
  simp only [h]

theorem contiguous_map (f : α -> β) (key : β -> κ) (xs : List α) :
    Contiguous key (xs.map f) <-> Contiguous (fun x => key (f x)) xs := by
  constructor
  · intro h x y z hsub hxz
    exact h (f x) (f y) (f z) (hsub.map f) hxz
  · intro h fx fy fz hsub hxz
    rcases List.sublist_map_iff.mp hsub with ⟨triple, hsub, heq⟩
    match triple, heq with
    | [x, y, z], heq =>
        injection heq with hx hrest
        injection hrest with hy hrest
        injection hrest with hz
        rw [hx, hz] at hxz
        rw [hx, hy]
        exact h x y z hsub hxz

/-- In a sorted list elements with one key are next to each other. -/
theorem contiguous_of_pairwise [PartialOrder κ] {key : α -> κ} {xs : List α}
    (h : xs.Pairwise (fun a b => key a <= key b)) : Contiguous key xs := by
  intro x y z hsub hxz
  have hsorted := h.sublist hsub
  rw [List.pairwise_cons, List.pairwise_cons] at hsorted
  have hxy : key x <= key y := hsorted.1 y List.mem_cons_self
  have hyz : key y <= key z := hsorted.2.1 z List.mem_cons_self
  rw [← hxz] at hyz
  exact le_antisymm hxy hyz

/-- Where the blocks are next to each other it is enough to look into each of them. -/
theorem contiguous_iff_forall_filter [DecidableEq ι] {key : α -> κ} {block : α -> ι}
    (hblock : forall x y, key x = key y -> block x = block y) {xs : List α}
    (h : Contiguous block xs) :
    Contiguous key xs <->
      forall i, Contiguous key (xs.filter (fun x => decide (block x = i))) := by
  constructor
  · intro hkey i
    exact hkey.sublist List.filter_sublist
  · intro hkey x y z hsub hxz
    have hz : block x = block z := hblock x z hxz
    have hy : block x = block y := h x y z hsub hz
    have hown : [x, y, z].filter (fun a => decide (block a = block x)) = [x, y, z] := by
      rw [List.filter_eq_self]
      intro a ha
      rw [decide_eq_true_eq]
      simp only [List.mem_cons, List.not_mem_nil, or_false] at ha
      rcases ha with heq | heq | heq
      · rw [heq]
      · rw [heq, hy]
      · rw [heq, hz]
    apply hkey (block x) x y z _ hxz
    rw [← hown]
    exact hsub.filter _

section Neighbours

variable [DecidableEq κ]

/-- The elements of a list without those that have the key of the one kept before them. -/
def dedupBy (key : α -> κ) (xs : List α) : List α :=
  xs.destutter (fun a b => key a ≠ key b)

theorem mem_destutter'_ne {a x : κ} {ks : List κ} (h : x ∈ a :: ks) :
    x ∈ ks.destutter' (fun a b => a ≠ b) a := by
  induction ks generalizing a with
  | nil => exact h
  | cons b rest ih =>
      rw [List.destutter'_cons]
      split
      · rcases List.mem_cons.mp h with heq | hrest
        · rw [heq]
          exact List.mem_cons_self
        · exact List.mem_cons_of_mem a (ih hrest)
      · rename_i hsame
        have hab : a = b := not_not.mp hsame
        apply ih
        rcases List.mem_cons.mp h with heq | hrest
        · rw [heq]
          exact List.mem_cons_self
        · rw [hab]
          exact hrest

theorem nodup_destutter'_iff (a : κ) (ks : List κ) :
    (ks.destutter' (fun a b => a ≠ b) a).Nodup <-> Contiguous id (a :: ks) := by
  induction ks generalizing a with
  | nil =>
      refine iff_of_true (List.nodup_singleton a) ?_
      intro x y z hsub
      have hlength := hsub.length_le
      simp at hlength
  | cons b rest ih =>
      by_cases hab : a = b
      · rw [List.destutter'_cons_neg rest (not_not.mpr hab), ih, ← hab]
        constructor
        · intro h x y z hsub hxz
          rcases List.sublist_cons_iff.mp hsub with hsub | ⟨tail, heq, htail⟩
          · exact h x y z hsub hxz
          · injection heq with hx hyz
            rw [← hyz] at htail
            rcases List.sublist_cons_iff.mp htail with htail | ⟨last, heq', -⟩
            · apply h x y z _ hxz
              rw [hx]
              exact htail.cons_cons a
            · injection heq' with hy
              exact hx.trans hy.symm
        · intro h
          exact h.sublist (List.sublist_cons_self a (a :: rest))
      · rw [List.destutter'_cons_pos rest hab, List.nodup_cons, ih]
        constructor
        · rintro ⟨hnew, h⟩ x y z hsub hxz
          have hfresh : a ∉ b :: rest := fun hmem => hnew (mem_destutter'_ne hmem)
          rcases List.sublist_cons_iff.mp hsub with hsub | ⟨tail, heq, htail⟩
          · exact h x y z hsub hxz
          · injection heq with hx hyz
            have hmem : z ∈ b :: rest := by
              apply htail.subset
              rw [← hyz]
              exact List.mem_cons_of_mem y List.mem_cons_self
            have haz : a = z := hx.symm.trans hxz
            rw [← haz] at hmem
            exact absurd hmem hfresh
        · intro h
          refine ⟨?_, h.sublist (List.sublist_cons_self a (b :: rest))⟩
          intro hmem
          rcases List.mem_cons.mp ((rest.destutter'_sublist _ b).subset hmem) with heq | hrest
          · exact hab heq
          · have hsub : [a, b, a].Sublist (a :: b :: rest) :=
              ((List.singleton_sublist.mpr hrest).cons_cons b).cons_cons a
            exact hab (h a b a hsub rfl)

/-- After equal neighbours are removed no key occurs twice, if and only if the elements with one
key were next to each other. -/
theorem nodup_dedupBy_iff (key : α -> κ) (xs : List α) :
    ((dedupBy key xs).map key).Nodup <-> Contiguous key xs := by
  have hmap : (dedupBy key xs).map key = (xs.map key).destutter (fun a b => a ≠ b) :=
    List.map_destutter (fun _ _ _ _ => Iff.rfl)
  have hkeys : Contiguous id (xs.map key) <-> Contiguous key xs := contiguous_map key id xs
  rw [hmap, ← hkeys]
  cases xs with
  | nil =>
      refine iff_of_true List.nodup_nil ?_
      intro x y z hsub
      cases hsub
  | cons x rest => exact nodup_destutter'_iff (key x) (rest.map key)

end Neighbours

end Foundation
