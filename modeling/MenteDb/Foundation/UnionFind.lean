import Mathlib.Combinatorics.Pigeonhole
import Mathlib.Logic.Function.Iterate
import Mathlib.Logic.Relation

/-!
# Union-find

Parents and ranks of the numbers below a bound.  Finding a root shortens the path
it follows, a union hangs the root of smaller rank below the other one.  Both are
described by what they do to the root of every element, and a sequence of unions
joins exactly what the pairs it was given connect.
-/

namespace Foundation

structure Forest where
  parent : Nat -> Nat
  rank : Nat -> Nat

namespace Forest

/-!
## Operations
-/

/-- Every element on its own. -/
def singletons : Forest where
  parent i := i
  rank _ := 0

/-- The root above an element and the parents with the path to it shortened.  A path
is never longer than the number of elements, which is the fuel. -/
def findIn : Nat -> (Nat -> Nat) -> Nat -> Nat × (Nat -> Nat)
  | 0, parent, i => (i, parent)
  | fuel + 1, parent, i =>
      if parent i ≠ i then
        let found := findIn fuel parent (parent i)
        (found.1, Function.update found.2 i found.1)
      else (i, parent)

def find (n : Nat) (f : Forest) (i : Nat) : Nat × Forest :=
  let found := findIn n f.parent i
  (found.1, { f with parent := found.2 })

/-- Union by rank; of two roots of equal rank the first stays. -/
def union (n : Nat) (f : Forest) (a b : Nat) : Forest :=
  let foundA := f.find n a
  let foundB := foundA.2.find n b
  let ra := foundA.1
  let rb := foundB.1
  let g := foundB.2
  if ra = rb then g
  else if g.rank ra < g.rank rb then { g with parent := Function.update g.parent ra rb }
  else if g.rank rb < g.rank ra then { g with parent := Function.update g.parent rb ra }
  else
    { parent := Function.update g.parent rb ra
      rank := Function.update g.rank ra (g.rank ra + 1) }

/-- The end of the path above an element. -/
def root (n : Nat) (f : Forest) (i : Nat) : Nat := f.parent^[n] i

/-- Ranks grow towards the roots, and the parents of the elements are elements. -/
structure Ranked (n : Nat) (f : Forest) : Prop where
  parent_lt : forall i, i < n -> f.parent i < n
  parent_self : forall i, n <= i -> f.parent i = i
  rank_lt : forall i, f.parent i ≠ i -> f.rank i < f.rank (f.parent i)

theorem ranked_singletons (n : Nat) : Ranked n singletons where
  parent_lt _ hi := hi
  parent_self _ _ := rfl
  rank_lt _ hi := absurd rfl hi

theorem root_singletons (n i : Nat) : singletons.root n i = i :=
  Function.iterate_fixed rfl n

/-!
## Roots
-/

/-- Two searches in a row, in forests of a kind that searching keeps with its roots. -/
theorem find_find_eq {n : Nat} {Kind : Forest -> Prop}
    (hfind : forall f, Kind f -> forall i, (f.find n i).1 = f.root n i ∧ Kind (f.find n i).2 ∧
      forall j, (f.find n i).2.root n j = f.root n j)
    (htop : forall f, Kind f -> forall i, f.parent (f.root n i) = f.root n i)
    {f : Forest} (h : Kind f) (a b : Nat) :
    (f.find n a).1 = f.root n a ∧ ((f.find n a).2.find n b).1 = f.root n b ∧
      Kind ((f.find n a).2.find n b).2 ∧
      (forall i, ((f.find n a).2.find n b).2.root n i = f.root n i) ∧
      forall r, ((f.find n a).2.find n b).2.parent (f.root n r) = f.root n r := by
  rcases hfind f h a with ⟨hra, hfirst, hrootsA⟩
  rcases hfind _ hfirst b with ⟨hrb, hsecond, hrootsB⟩
  have hroots : forall i, ((f.find n a).2.find n b).2.root n i = f.root n i := by
    intro i
    rw [hrootsB, hrootsA]
  rw [hrootsA] at hrb
  refine ⟨hra, hrb, hsecond, hroots, ?_⟩
  intro r
  have hself := htop _ hsecond r
  rw [hroots] at hself
  exact hself

section Roots

variable {n : Nat} {f g : Forest}

theorem root_of_parent_eq {i : Nat} (h : f.parent i = i) : f.root n i = i :=
  Function.iterate_fixed h n

namespace Ranked

variable (h : Ranked n f)

include h

theorem iterate_lt {i : Nat} (hi : i < n) (k : Nat) : f.parent^[k] i < n := by
  induction k with
  | zero => exact hi
  | succ k ih =>
      rw [Function.iterate_succ_apply']
      exact h.parent_lt _ ih

/-- A path is shorter than the number of elements: the ranks on it are different. -/
theorem parent_root (i : Nat) : f.parent (f.root n i) = f.root n i := by
  by_cases hi : n <= i
  · have hself := h.parent_self i hi
    rw [root_of_parent_eq hself]
    exact hself
  by_contra hne
  have hnever : forall k, k <= n -> f.parent (f.parent^[k] i) ≠ f.parent^[k] i := by
    intro k hk hfixed
    apply hne
    have hend : f.root n i = f.parent^[k] i := by
      have hsplit : n = (n - k) + k := by omega
      unfold root
      rw [hsplit, Function.iterate_add_apply]
      exact Function.iterate_fixed hfixed _
    rw [hend]
    exact hfixed
  have hgrows : forall b, b <= n -> forall a, a < b ->
      f.rank (f.parent^[a] i) < f.rank (f.parent^[b] i) := by
    intro b
    induction b with
    | zero =>
        intro _ a ha
        exact absurd ha (Nat.not_lt_zero a)
    | succ b ih =>
        intro hb a ha
        have hstep := h.rank_lt _ (hnever b (by omega))
        rw [← Function.iterate_succ_apply' f.parent b i] at hstep
        rcases Nat.lt_succ_iff_lt_or_eq.mp ha with hlt | heq
        · exact (ih (by omega) a hlt).trans hstep
        · rw [heq]
          exact hstep
  have hmaps : Set.MapsTo (fun k => f.parent^[k] i) (Finset.range (n + 1)) (Finset.range n) := by
    intro k _
    exact Finset.mem_coe.mpr (Finset.mem_range.mpr (h.iterate_lt (not_le.mp hi) k))
  rcases Finset.exists_ne_map_eq_of_card_lt_of_maps_to (by simp) hmaps with
    ⟨a, ha, b, hb, hab, heq⟩
  have ha' := Nat.lt_succ_iff.mp (Finset.mem_range.mp ha)
  have hb' := Nat.lt_succ_iff.mp (Finset.mem_range.mp hb)
  have hsame := congrArg f.rank heq
  rcases Nat.lt_or_gt_of_ne hab with hlt | hgt
  · exact absurd hsame (Nat.ne_of_lt (hgrows b hb' a hlt))
  · exact absurd hsame.symm (Nat.ne_of_lt (hgrows a ha' b hgt))

theorem root_parent (i : Nat) : f.root n (f.parent i) = f.root n i := by
  have hend := h.parent_root i
  unfold root at hend ⊢
  rw [← Function.iterate_succ_apply, Function.iterate_succ_apply']
  exact hend

theorem root_lt {i : Nat} (hi : i < n) : f.root n i < n := h.iterate_lt hi n

/-- What holds of the roots and passes from a parent to its children holds of all. -/
theorem induction {P : Nat -> Prop} (hroot : forall i, f.parent i = i -> P i)
    (hstep : forall i, f.parent i ≠ i -> P (f.parent i) -> P i) (i : Nat) : P i := by
  have hdown : forall k i, P (f.parent^[k] i) -> P i := by
    intro k
    induction k with
    | zero =>
        intro i hi
        exact hi
    | succ k ih =>
        intro i hi
        rw [Function.iterate_succ_apply] at hi
        by_cases hfixed : f.parent i = i
        · exact hroot i hfixed
        · exact hstep i hfixed (ih _ hi)
  exact hdown n i (hroot _ (h.parent_root i))

theorem rank_lt_root {i : Nat} (hi : f.root n i ≠ i) : f.rank i < f.rank (f.root n i) := by
  revert hi
  apply h.induction (P := fun i => f.root n i ≠ i -> f.rank i < f.rank (f.root n i))
  · intro i hfixed hne
    exact absurd (root_of_parent_eq hfixed) hne
  · intro i hfixed ih _
    have hparent := h.rank_lt i hfixed
    rw [h.root_parent i] at ih
    by_cases htop : f.root n i = f.parent i
    · rw [htop]
      exact hparent
    · exact hparent.trans (ih htop)

/-- Parents that were moved up to the root leave all roots where they were. -/
theorem root_shortened (hg : Ranked n g)
    (hmoved : forall i, g.parent i = f.parent i ∨ g.parent i = f.root n i) (i : Nat) :
    g.root n i = f.root n i := by
  have hfixed : forall r, f.parent r = r -> g.root n r = r := by
    intro r hr
    apply root_of_parent_eq
    rcases hmoved r with hsame | hup
    · rw [hsame]
      exact hr
    · rw [hup]
      exact root_of_parent_eq hr
  apply h.induction (P := fun i => g.root n i = f.root n i)
  · intro i hi
    rw [hfixed i hi, root_of_parent_eq hi]
  · intro i _ ih
    rw [← hg.root_parent i]
    rcases hmoved i with hsame | hup
    · rw [hsame, ih, h.root_parent]
    · rw [hup]
      exact hfixed _ (h.parent_root i)

/-- A root hung below another one takes its elements along. -/
theorem root_linked (hg : Ranked n g) {a b : Nat} (ha : f.parent a = a) (hb : f.parent b = b)
    (hab : a ≠ b) (hlink : g.parent = Function.update f.parent a b) (i : Nat) :
    g.root n i = if f.root n i = a then b else f.root n i := by
  have hother : forall i, i ≠ a -> g.parent i = f.parent i := by
    intro i hi
    rw [hlink, Function.update_of_ne hi]
  have htop : g.root n b = b := by
    apply root_of_parent_eq
    rw [hother b hab.symm]
    exact hb
  apply h.induction (P := fun i => g.root n i = if f.root n i = a then b else f.root n i)
  · intro i hi
    rw [root_of_parent_eq (f := f) hi]
    by_cases hia : i = a
    · rw [if_pos hia, ← hg.root_parent i, hia, hlink, Function.update_self]
      exact htop
    · rw [if_neg hia]
      apply root_of_parent_eq
      rw [hother i hia]
      exact hi
  · intro i hi ih
    have hia : i ≠ a := by
      intro heq
      rw [heq] at hi
      exact hi ha
    rw [← hg.root_parent i, hother i hia, ih, h.root_parent]

theorem shortened (hrank : g.rank = f.rank)
    (hmoved : forall i, g.parent i = f.parent i ∨ g.parent i = f.root n i) : Ranked n g where
  parent_lt i hi := by
    rcases hmoved i with hsame | hup
    · rw [hsame]
      exact h.parent_lt i hi
    · rw [hup]
      exact h.root_lt hi
  parent_self i hi := by
    have hself := h.parent_self i hi
    rcases hmoved i with hsame | hup
    · rw [hsame]
      exact hself
    · rw [hup]
      exact root_of_parent_eq hself
  rank_lt i hne := by
    rw [hrank]
    rcases hmoved i with hsame | hup
    · rw [hsame] at hne ⊢
      exact h.rank_lt i hne
    · rw [hup] at hne ⊢
      exact h.rank_lt_root hne

/-!
## Finding
-/

theorem findIn_eq (fuel i : Nat)
    (hend : f.parent (f.parent^[fuel] i) = f.parent^[fuel] i) :
    (findIn fuel f.parent i).1 = f.root n i ∧
      forall j, (findIn fuel f.parent i).2 j = f.parent j ∨
        (findIn fuel f.parent i).2 j = f.root n j := by
  induction fuel generalizing i with
  | zero => exact ⟨(root_of_parent_eq hend).symm, fun _ => Or.inl rfl⟩
  | succ fuel ih =>
      rw [findIn]
      split
      · rw [Function.iterate_succ_apply] at hend
        rcases ih (f.parent i) hend with ⟨hfound, hmoved⟩
        rw [h.root_parent] at hfound
        refine ⟨hfound, ?_⟩
        intro j
        by_cases hj : j = i
        · rw [hj]
          simp only [Function.update_self]
          exact Or.inr hfound
        · simp only [Function.update_of_ne hj]
          exact hmoved j
      · rename_i hfixed
        exact ⟨(root_of_parent_eq (not_not.mp hfixed)).symm, fun _ => Or.inl rfl⟩

/-- Finding returns the root and keeps every root. -/
theorem find_eq (i : Nat) :
    (f.find n i).1 = f.root n i ∧ Ranked n (f.find n i).2 ∧
      forall j, (f.find n i).2.root n j = f.root n j := by
  rcases h.findIn_eq n i (h.parent_root i) with ⟨hfound, hmoved⟩
  have hshort : Ranked n (f.find n i).2 := h.shortened rfl hmoved
  exact ⟨hfound, hshort, h.root_shortened hshort hmoved⟩

/-!
## Unions
-/

theorem linked {a b : Nat} (ha : a < n) (hb : b < n)
    (hlink : g.parent = Function.update f.parent a b) (hgrow : forall i, f.rank i <= g.rank i)
    (hkeep : forall i, f.parent i ≠ i -> g.rank i = f.rank i) (hrank : g.rank a < g.rank b) :
    Ranked n g where
  parent_lt i hi := by
    rw [hlink]
    by_cases hia : i = a
    · rw [hia, Function.update_self]
      exact hb
    · rw [Function.update_of_ne hia]
      exact h.parent_lt i hi
  parent_self i hi := by
    have hia : i ≠ a := by omega
    rw [hlink, Function.update_of_ne hia]
    exact h.parent_self i hi
  rank_lt i hne := by
    rw [hlink] at hne ⊢
    by_cases hia : i = a
    · rw [hia, Function.update_self]
      exact hrank
    · rw [Function.update_of_ne hia] at hne ⊢
      rw [hkeep i hne]
      exact (h.rank_lt i hne).trans_le (hgrow _)

/-- What hanging one root below another joins. -/
theorem linked_iff (hg : Ranked n g) {a b : Nat} (ha : f.parent a = a) (hb : f.parent b = b)
    (hab : a ≠ b) (hlink : g.parent = Function.update f.parent a b) (i j : Nat) :
    g.root n i = g.root n j <->
      f.root n i = f.root n j ∨ (f.root n i = a ∧ f.root n j = b) ∨
        (f.root n i = b ∧ f.root n j = a) := by
  rw [h.root_linked hg ha hb hab hlink i, h.root_linked hg ha hb hab hlink j]
  by_cases hi : f.root n i = a
  · by_cases hj : f.root n j = a
    · simp [hi, hj]
    · simp [hi, hj, Ne.symm hj, eq_comm]
  · by_cases hj : f.root n j = a
    · simp [hi, hj]
    · simp [hi, hj]

/-- A union joins the classes of its two elements and no others. -/
theorem union_eq {a b : Nat} (ha : a < n) (hb : b < n) :
    Ranked n (f.union n a b) ∧ forall i j,
      (f.union n a b).root n i = (f.union n a b).root n j <->
        f.root n i = f.root n j ∨ (f.root n i = f.root n a ∧ f.root n j = f.root n b) ∨
          (f.root n i = f.root n b ∧ f.root n j = f.root n a) := by
  rcases find_find_eq (fun f h i => Ranked.find_eq h i) (fun f h i => Ranked.parent_root h i)
    h a b with ⟨hra, hrb, hg, hroots, htop⟩
  unfold union
  simp only [hra, hrb]
  generalize ((f.find n a).2.find n b).2 = g at hg hroots htop ⊢
  split
  · rename_i hsame
    refine ⟨hg, ?_⟩
    intro i j
    rw [hroots, hroots, hsame]
    constructor
    · exact Or.inl
    · intro hij
      rcases hij with hij | ⟨hi, hj⟩ | ⟨hi, hj⟩
      · exact hij
      · rw [hi, hj]
      · rw [hi, hj]
  · rename_i hne
    split
    · rename_i hlt
      have hlinked : Ranked n
          { g with parent := Function.update g.parent (f.root n a) (f.root n b) } :=
        hg.linked (h.root_lt ha) (h.root_lt hb) rfl (fun _ => le_refl _) (fun _ _ => rfl) hlt
      refine ⟨hlinked, ?_⟩
      intro i j
      rw [hg.linked_iff hlinked (htop a) (htop b) hne rfl, hroots, hroots]
    · split
      · rename_i hgt
        have hlinked : Ranked n
            { g with parent := Function.update g.parent (f.root n b) (f.root n a) } :=
          hg.linked (h.root_lt hb) (h.root_lt ha) rfl (fun _ => le_refl _) (fun _ _ => rfl) hgt
        refine ⟨hlinked, ?_⟩
        intro i j
        rw [hg.linked_iff hlinked (htop b) (htop a) (Ne.symm hne) rfl, hroots, hroots]
        exact or_congr_right or_comm
      · rename_i hle hge
        have hbumped : Ranked n
            { parent := Function.update g.parent (f.root n b) (f.root n a)
              rank := Function.update g.rank (f.root n a) (g.rank (f.root n a) + 1) } := by
          apply hg.linked (h.root_lt hb) (h.root_lt ha) rfl
          · intro i
            by_cases hi : i = f.root n a
            · simp only [hi, Function.update_self]
              exact Nat.le_succ _
            · simp only [Function.update_of_ne hi]
              exact le_refl _
          · intro i hi
            have hia : i ≠ f.root n a := by
              intro heq
              rw [heq] at hi
              exact hi (htop a)
            simp only [Function.update_of_ne hia]
          · simp only [Function.update_self, Function.update_of_ne (Ne.symm hne)]
            omega
        refine ⟨hbumped, ?_⟩
        intro i j
        rw [hg.linked_iff hbumped (htop b) (htop a) (Ne.symm hne) rfl, hroots, hroots]
        exact or_congr_right or_comm

end Ranked

end Roots

/-!
## The recursion that finds
-/

/-- A terminating run of the recursive search: it returns a root and leaves the path to it
shortened. -/
inductive Finds : (Nat -> Nat) -> Nat -> Nat -> (Nat -> Nat) -> Prop
  | top {parent : Nat -> Nat} {i : Nat} (hi : parent i = i) : Finds parent i i parent
  | climb {parent above : Nat -> Nat} {i r : Nat} (hi : parent i ≠ i)
      (hrest : Finds parent (parent i) r above) :
      Finds parent i r (Function.update above i r)

/-- The forests that look-ups and unions of elements make out of single elements. -/
inductive Reached (n : Nat) : Forest -> Prop
  | singletons : Reached n singletons
  | find {f : Forest} (i : Nat) (hf : Reached n f) : Reached n (f.find n i).2
  | union {f : Forest} {a b : Nat} (ha : a < n) (hb : b < n) (hf : Reached n f) :
      Reached n (f.union n a b)

theorem Reached.ranked {n : Nat} {f : Forest} (h : Reached n f) : Ranked n f := by
  induction h with
  | singletons => exact ranked_singletons n
  | find i _ ih => exact (ih.find_eq i).2.1
  | union ha hb _ ih => exact (ih.union_eq ha hb).1

/-- The search stops when the fuel leads to a root, and then fuel made no difference. -/
theorem finds_findIn {parent : Nat -> Nat} (fuel i : Nat)
    (hend : parent (parent^[fuel] i) = parent^[fuel] i) :
    Finds parent i (findIn fuel parent i).1 (findIn fuel parent i).2 := by
  induction fuel generalizing i with
  | zero => exact Finds.top hend
  | succ fuel ih =>
      rw [Function.iterate_succ_apply] at hend
      rw [findIn]
      split
      · rename_i hi
        exact Finds.climb hi (ih (parent i) hend)
      · rename_i hi
        exact Finds.top (not_not.mp hi)

/-- From every forest that is reached, finding terminates. -/
theorem Reached.finds {n : Nat} {f : Forest} (h : Reached n f) (i : Nat) :
    Finds f.parent i (f.find n i).1 (f.find n i).2.parent :=
  finds_findIn n i (h.ranked.parent_root i)

/-!
## Unions without ranks
-/

/-- The root of the first element is hung below the root of the second one. -/
def link (n : Nat) (f : Forest) (a b : Nat) : Forest :=
  let foundA := f.find n a
  let foundB := foundA.2.find n b
  let ra := foundA.1
  let rb := foundB.1
  let g := foundB.2
  if ra ≠ rb then { g with parent := Function.update g.parent ra rb } else g

/-- Some ranks grow towards the roots. -/
def Rankable (n : Nat) (f : Forest) : Prop :=
  exists rank, Ranked n { f with rank := rank }

theorem Ranked.rankable {n : Nat} {f : Forest} (h : Ranked n f) : Rankable n f := ⟨f.rank, h⟩

namespace Rankable

variable {n : Nat} {f : Forest} (h : Rankable n f)

include h

theorem parent_root (i : Nat) : f.parent (f.root n i) = f.root n i := by
  rcases h with ⟨rank, hranked⟩
  exact hranked.parent_root i

theorem root_lt {i : Nat} (hi : i < n) : f.root n i < n := by
  rcases h with ⟨rank, hranked⟩
  exact hranked.root_lt hi

theorem find_eq (i : Nat) :
    (f.find n i).1 = f.root n i ∧ Rankable n (f.find n i).2 ∧
      forall j, (f.find n i).2.root n j = f.root n j := by
  rcases h with ⟨rank, hranked⟩
  rcases hranked.find_eq i with ⟨hfound, hafter, hroots⟩
  exact ⟨hfound, ⟨rank, hafter⟩, hroots⟩

/-- A link joins the classes of its two elements and no others. -/
theorem link_eq {a b : Nat} (ha : a < n) (hb : b < n) :
    Rankable n (f.link n a b) ∧ forall i j,
      (f.link n a b).root n i = (f.link n a b).root n j <->
        f.root n i = f.root n j ∨ (f.root n i = f.root n a ∧ f.root n j = f.root n b) ∨
          (f.root n i = f.root n b ∧ f.root n j = f.root n a) := by
  rcases find_find_eq (fun f h i => Rankable.find_eq h i) (fun f h i => Rankable.parent_root h i)
    h a b with ⟨hra, hrb, hg, hroots, htop⟩
  unfold link
  simp only [hra, hrb]
  generalize ((f.find n a).2.find n b).2 = g at hg hroots htop ⊢
  split
  · rename_i hne
    rcases hg with ⟨rank, hranked⟩
    -- the ranks are not kept: the root that stays is given one above the other root
    have hlinked : Ranked n
        { parent := Function.update g.parent (f.root n a) (f.root n b)
          rank := Function.update rank (f.root n b)
            (max (rank (f.root n b)) (rank (f.root n a) + 1)) } := by
      apply hranked.linked (h.root_lt ha) (h.root_lt hb) rfl
      · intro i
        by_cases hi : i = f.root n b
        · simp only [hi, Function.update_self]
          exact le_max_left _ _
        · simp only [Function.update_of_ne hi]
          exact le_refl _
      · intro i hi
        have hib : i ≠ f.root n b := by
          intro heq
          rw [heq] at hi
          exact hi (htop b)
        simp only [Function.update_of_ne hib]
      · simp only [Function.update_self, Function.update_of_ne hne]
        exact (Nat.lt_succ_self _).trans_le (le_max_right _ _)
    refine ⟨⟨_, hlinked⟩, ?_⟩
    intro i j
    have hiff := hranked.linked_iff hlinked (htop a) (htop b) hne rfl i j
    rw [← hroots i, ← hroots j]
    exact hiff
  · rename_i hsame
    refine ⟨hg, ?_⟩
    intro i j
    rw [hroots, hroots, not_not.mp hsame]
    constructor
    · exact Or.inl
    · intro hij
      rcases hij with hij | ⟨hi, hj⟩ | ⟨hi, hj⟩
      · exact hij
      · rw [hi, hj]
      · rw [hi, hj]

end Rankable

/-!
## Classes of a sequence of unions
-/

open Relation

/-- Unions of all the pairs, in order, of elements that were on their own. -/
def unions (n : Nat) (pairs : List (Nat × Nat)) : Forest :=
  pairs.foldl (fun f p => f.union n p.1 p.2) singletons

theorem eq_of_eqvGen {β : Type} {r : Nat -> Nat -> Prop} {c : Nat -> β}
    (h : forall a b, r a b -> c a = c b) {i j : Nat} (hij : EqvGen r i j) : c i = c j := by
  induction hij with
  | rel a b hab => exact h a b hab
  | refl a => rfl
  | symm a b _ ih => exact ih.symm
  | trans a b c _ _ ihab ihbc => exact ihab.trans ihbc

/-- What one more pair connects. -/
theorem eqvGen_join {r s : Nat -> Nat -> Prop} {a b : Nat}
    (hs : forall x y, s x y <-> r x y ∨ (x = a ∧ y = b)) (i j : Nat) :
    EqvGen s i j <->
      EqvGen r i j ∨ (EqvGen r i a ∧ EqvGen r j b) ∨ (EqvGen r i b ∧ EqvGen r j a) := by
  have hold : forall {x y}, EqvGen r x y -> EqvGen s x y := by
    intro x y hxy
    exact EqvGen.mono (fun x y h => (hs x y).mpr (Or.inl h)) x y hxy
  have hpair : EqvGen s a b := EqvGen.rel a b ((hs a b).mpr (Or.inr ⟨rfl, rfl⟩))
  constructor
  · intro hij
    classical
    -- classes of the old relation, with that of the first element put into the other
    let c : Nat -> Quot r := fun x => if EqvGen r x a then Quot.mk r b else Quot.mk r x
    have hrel : forall x y, s x y -> c x = c y := by
      intro x y hxy
      rcases (hs x y).mp hxy with hr | ⟨hx, hy⟩
      · have hiff : EqvGen r x a <-> EqvGen r y a :=
          ⟨fun h => EqvGen.trans y x a (EqvGen.symm x y (EqvGen.rel x y hr)) h,
            fun h => EqvGen.trans x y a (EqvGen.rel x y hr) h⟩
        simp only [c, hiff, Quot.sound hr]
      · rw [hx, hy]
        simp only [c, EqvGen.refl a, if_true, ite_self]
    have hclass : c i = c j := eq_of_eqvGen hrel hij
    by_cases hi : EqvGen r i a
    · by_cases hj : EqvGen r j a
      · exact Or.inl (EqvGen.trans i a j hi (EqvGen.symm j a hj))
      · simp only [c, hi, hj, if_true, if_false] at hclass
        exact Or.inr (Or.inl ⟨hi, EqvGen.symm b j (Quot.eqvGen_exact hclass)⟩)
    · by_cases hj : EqvGen r j a
      · simp only [c, hi, hj, if_true, if_false] at hclass
        exact Or.inr (Or.inr ⟨Quot.eqvGen_exact hclass, hj⟩)
      · simp only [c, hi, hj, if_false] at hclass
        exact Or.inl (Quot.eqvGen_exact hclass)
  · intro hij
    rcases hij with hij | ⟨hi, hj⟩ | ⟨hi, hj⟩
    · exact hold hij
    · exact EqvGen.trans i b j (EqvGen.trans i a b (hold hi) hpair) (EqvGen.symm j b (hold hj))
    · exact EqvGen.trans i a j (EqvGen.trans i b a (hold hi) (EqvGen.symm a b hpair))
        (EqvGen.symm j a (hold hj))

/-- The classes are what the pairs connect. -/
theorem unions_eq (n : Nat) (pairs : List (Nat × Nat))
    (hbound : forall p, p ∈ pairs -> p.1 < n ∧ p.2 < n) :
    Ranked n (unions n pairs) ∧ forall i j,
      (unions n pairs).root n i = (unions n pairs).root n j <->
        EqvGen (fun a b => (a, b) ∈ pairs) i j := by
  induction pairs using List.reverseRecOn with
  | nil =>
      refine ⟨ranked_singletons n, ?_⟩
      intro i j
      constructor
      · intro hij
        have heq : i = j := by simpa [unions, root_singletons] using hij
        rw [heq]
        exact EqvGen.refl j
      · intro hij
        exact eq_of_eqvGen (fun a b hab => by cases hab) hij
  | append_singleton past p ih =>
      rcases ih (fun q hq => hbound q (List.mem_append_left _ hq)) with ⟨hranked, hclasses⟩
      rcases hbound p (List.mem_append_right _ (List.mem_singleton.mpr rfl)) with ⟨ha, hb⟩
      have hstep : unions n (past ++ [p]) = (unions n past).union n p.1 p.2 := by
        unfold unions
        rw [List.foldl_append]
        rfl
      rcases hranked.union_eq ha hb with ⟨hunion, hjoined⟩
      rw [hstep]
      refine ⟨hunion, ?_⟩
      have hsplit : forall x y, (x, y) ∈ past ++ [p] <-> (x, y) ∈ past ∨ (x = p.1 ∧ y = p.2) := by
        intro x y
        rw [List.mem_append, List.mem_singleton, Prod.ext_iff]
      intro i j
      rw [hjoined, hclasses, hclasses, hclasses, hclasses, hclasses, eqvGen_join hsplit]

end Forest

/-!
## Components
-/

open Relation

theorem eqvGen_of_forall {r s : Nat -> Nat -> Prop} (h : forall a b, r a b -> EqvGen s a b)
    {i j : Nat} (hij : EqvGen r i j) : EqvGen s i j :=
  (EqvGen.is_equivalence s).eqvGen_iff.mp (EqvGen.mono h i j hij)

/-- The components of a graph on the numbers below a bound, each of them listed once. -/
structure Components (n : Nat) (r : Nat -> Nat -> Prop) (components : List (List Nat)) : Prop where
  nodup : forall c, c ∈ components -> c.Nodup
  component : forall c, c ∈ components ->
    exists i, i < n ∧ forall j, j ∈ c <-> j < n ∧ EqvGen r i j
  complete : forall i, i < n -> exists c, c ∈ components ∧ i ∈ c
  disjoint : components.Pairwise List.Disjoint

namespace Components

variable {n : Nat} {r : Nat -> Nat -> Prop} {components : List (List Nat)}
  (h : Components n r components)

include h

theorem lt_of_mem {c : List Nat} (hc : c ∈ components) {i : Nat} (hi : i ∈ c) : i < n := by
  rcases h.component c hc with ⟨i', _, hmem⟩
  exact ((hmem i).mp hi).1

/-- A component holds everything that is connected with one of its elements. -/
theorem mem_iff {c : List Nat} (hc : c ∈ components) {i : Nat} (hi : i ∈ c) (j : Nat) :
    j ∈ c <-> j < n ∧ EqvGen r i j := by
  rcases h.component c hc with ⟨i', _, hmem⟩
  have hfirst : EqvGen r i' i := ((hmem i).mp hi).2
  rw [hmem]
  constructor
  · intro hj
    exact ⟨hj.1, EqvGen.trans i i' j (EqvGen.symm i' i hfirst) hj.2⟩
  · intro hj
    exact ⟨hj.1, EqvGen.trans i' i j hfirst hj.2⟩

theorem exists_mem {c : List Nat} (hc : c ∈ components) : exists i, i ∈ c := by
  rcases h.component c hc with ⟨i, hi, hmem⟩
  exact ⟨i, (hmem i).mpr ⟨hi, EqvGen.refl i⟩⟩

/-- No element is in the components at two places of the list. -/
theorem index_unique {k l : Nat} (hk : k < components.length) (hl : l < components.length)
    {i : Nat} (hik : i ∈ components[k]) (hil : i ∈ components[l]) : k = l := by
  have hpairwise := List.pairwise_iff_getElem.mp h.disjoint
  rcases Nat.lt_trichotomy k l with hlt | heq | hgt
  · exact absurd hil (List.disjoint_left.mp (hpairwise k l hk hl hlt) hik)
  · exact heq
  · exact absurd hik (List.disjoint_left.mp (hpairwise l k hl hk hgt) hil)

end Components

end Foundation
