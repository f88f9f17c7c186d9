import Mathlib.Data.List.Basic
import Mathlib.Data.List.Count

/-!
# Stable bucket layout

A list of items is laid out in one flat array, bucket after bucket.  The layout
is computed in the usual three passes: count the items of each bucket, turn the
counts into bucket offsets by a prefix sum, then write every item at the cursor
of its bucket.  Counters live in machine words, so every addition is taken
modulo the word size {lit}`W`.

The main result reads one bucket back: as long as the items fit in a word, the
slice between two consecutive offsets is the list of items of that bucket, in
their original order.
-/

namespace Foundation
namespace Bucket

variable {α β : Type}

/-!
## The three passes
-/

/-- Number of items of each of the {lit}`n` buckets. -/
def counts (W n : Nat) (keys : List Nat) : List Nat :=
  keys.foldl
    (fun cs k => if k < n then cs.modify k (fun c => (c + 1) % W) else cs)
    (List.replicate n 0)

/-- Bucket offsets: the prefix sums of the counts, starting at zero. -/
def offsets (W : Nat) (cs : List Nat) : List Nat :=
  cs.scanl (fun acc c => (acc + c) % W) 0

/-- Write one item at the cursor of its bucket and advance the cursor. -/
def place (W n : Nat) (key : α -> Nat) (val : α -> β)
    (st : List Nat × List β) (x : α) : List Nat × List β :=
  if key x < n then
    (st.1.modify (key x) (fun c => (c + 1) % W),
      st.2.set (st.1.getD (key x) 0) (val x))
  else st

/-- Write all items, in order. -/
def fill (W n : Nat) (key : α -> Nat) (val : α -> β)
    (items : List α) (st : List Nat × List β) : List Nat × List β :=
  items.foldl (place W n key val) st

/-!
## Counting

The number of items in bucket {lit}`r` and the number of items in the buckets
before {lit}`r` are plain list counts.
-/

def inBucket (key : α -> Nat) (r : Nat) (items : List α) : Nat :=
  items.countP (fun x => key x == r)

def before (key : α -> Nat) (r : Nat) (items : List α) : Nat :=
  items.countP (fun x => decide (key x < r))

theorem inBucket_eq_length_filter (key : α -> Nat) (r : Nat) (items : List α) :
    inBucket key r items = (items.filter (fun x => key x == r)).length :=
  List.countP_eq_length_filter

theorem inBucket_append (key : α -> Nat) (r : Nat) (xs ys : List α) :
    inBucket key r (xs ++ ys) = inBucket key r xs + inBucket key r ys :=
  List.countP_append

theorem before_le_length (key : α -> Nat) (r : Nat) (items : List α) :
    before key r items <= items.length :=
  List.countP_le_length

theorem before_zero (key : α -> Nat) (items : List α) :
    before key 0 items = 0 := by
  simp [before]

theorem before_succ (key : α -> Nat) (r : Nat) (items : List α) :
    before key (r + 1) items = before key r items + inBucket key r items := by
  induction items with
  | nil => rfl
  | cons x rest ih =>
      simp only [before, inBucket, List.countP_cons] at ih ⊢
      rw [ih]
      rcases Nat.lt_trichotomy (key x) r with hlt | heq | hgt
      · have hne : ¬ key x = r := by omega
        have hlt' : key x < r + 1 := by omega
        simp [hlt, hne, hlt']
        omega
      · simp [heq]
        omega
      · have hne : ¬ key x = r := by omega
        have hnlt : ¬ key x < r := by omega
        have hnlt' : ¬ key x < r + 1 := by omega
        simp [hne, hnlt, hnlt']

theorem before_mono (key : α -> Nat) {r q : Nat} (h : r <= q) (items : List α) :
    before key r items <= before key q items := by
  induction h with
  | refl => exact Nat.le_refl _
  | step _ ih =>
      rw [before_succ]
      omega

theorem counts_step_getElem? (W n : Nat) (cs : List Nat) (k r : Nat) :
    (if k < n then cs.modify k (fun c => (c + 1) % W) else cs)[r]? =
      cs[r]?.map (fun c => if k < n ∧ k = r then (c + 1) % W else c) := by
  by_cases hk : k < n
  · simp only [hk, if_true, true_and, List.getElem?_modify]
    rfl
  · simp [hk]

theorem counts_foldl_getElem? (W n r : Nat) (hr : r < n) (keys : List Nat)
    (cs : List Nat) (c : Nat) (hc : cs[r]? = some c)
    (hbound : c + keys.length < W) :
    (keys.foldl
      (fun cs k => if k < n then cs.modify k (fun c => (c + 1) % W) else cs)
      cs)[r]? = some (c + inBucket id r keys) := by
  induction keys generalizing cs c with
  | nil => simpa [inBucket] using hc
  | cons k rest ih =>
      simp only [List.length_cons] at hbound
      rw [List.foldl_cons]
      have hstep := counts_step_getElem? W n cs k r
      rw [hc] at hstep
      by_cases hkr : k = r
      · have hcond : k < n ∧ k = r := ⟨by omega, hkr⟩
        have hmod : (c + 1) % W = c + 1 := Nat.mod_eq_of_lt (by omega)
        rw [Option.map_some, if_pos hcond, hmod] at hstep
        rw [ih _ (c + 1) hstep (by omega)]
        simp [inBucket, hkr]
        omega
      · have hcond : ¬ (k < n ∧ k = r) := fun h => hkr h.2
        rw [Option.map_some, if_neg hcond] at hstep
        rw [ih _ c hstep (by omega)]
        simp [inBucket, hkr]

theorem counts_getElem? {W n r : Nat} {keys : List Nat}
    (hr : r < n) (hbound : keys.length < W) :
    (counts W n keys)[r]? = some (inBucket id r keys) := by
  have h := counts_foldl_getElem? W n r hr keys (List.replicate n 0) 0
    (by simp [hr]) (by omega)
  simpa [counts] using h

theorem counts_foldl_length (W n : Nat) (keys cs : List Nat) :
    (keys.foldl
      (fun cs k => if k < n then cs.modify k (fun c => (c + 1) % W) else cs)
      cs).length = cs.length := by
  induction keys generalizing cs with
  | nil => rfl
  | cons k rest ih =>
      rw [List.foldl_cons, ih]
      split <;> simp

theorem counts_length (W n : Nat) (keys : List Nat) :
    (counts W n keys).length = n := by
  simp [counts, counts_foldl_length]

/-!
## Offsets
-/

theorem offsets_length (W : Nat) (cs : List Nat) :
    (offsets W cs).length = cs.length + 1 := by
  simp [offsets]

/-- The offset of bucket {lit}`r` is the number of items in earlier buckets. -/
theorem offsets_getElem? {W n r : Nat} {keys : List Nat}
    (hr : r <= n) (hbound : keys.length < W) :
    (offsets W (counts W n keys))[r]? = some (before id r keys) := by
  induction r with
  | zero =>
      have hlen := offsets_length W (counts W n keys)
      rw [before_zero]
      simp [offsets]
  | succ r ih =>
      unfold offsets at ih ⊢
      rw [List.getElem?_succ_scanl, ih (by omega)]
      rw [counts_getElem? (by omega) hbound]
      have hle := before_le_length id (r + 1) keys
      have hsucc := before_succ id r keys
      have hmod :
          (before id r keys + inBucket id r keys) % W =
            before id (r + 1) keys := by
        rw [← hsucc]
        exact Nat.mod_eq_of_lt (by omega)
      simp [hmod]

/-!
## Filling

The invariant of the last pass relates the part of the input already written
({lit}`done`) to the cursors and to the array.
-/

structure Filled (n : Nat) (key : α -> Nat) (val : α -> β)
    (items done : List α) (st : List Nat × List β) : Prop where
  cursor : forall r, r < n ->
    st.1[r]? = some (before key r items + inBucket key r done)
  slot : forall r j, r < n -> j < inBucket key r done ->
    st.2[before key r items + j]? =
      ((done.filter (fun x => key x == r))[j]?).map val
  length : st.2.length = before key n items

/-- The slots of two different buckets never meet. -/
theorem slot_disjoint {key : α -> Nat} {items : List α} {r q j i : Nat}
    (hrq : r ≠ q) (hj : j < inBucket key r items)
    (hi : i < inBucket key q items) :
    before key r items + j ≠ before key q items + i := by
  rcases Nat.lt_or_gt_of_ne hrq with hlt | hgt
  · have hmono := before_mono key (show r + 1 <= q by omega) items
    have hsucc := before_succ key r items
    omega
  · have hmono := before_mono key (show q + 1 <= r by omega) items
    have hsucc := before_succ key q items
    omega

theorem filter_snoc_of_eq (key : α -> Nat) (r : Nat) (done : List α) (x : α)
    (h : key x = r) :
    (done ++ [x]).filter (fun y => key y == r) =
      done.filter (fun y => key y == r) ++ [x] := by
  simp [h]

theorem filter_snoc_of_ne (key : α -> Nat) (r : Nat) (done : List α) (x : α)
    (h : key x ≠ r) :
    (done ++ [x]).filter (fun y => key y == r) =
      done.filter (fun y => key y == r) := by
  simp [h]

theorem inBucket_snoc (key : α -> Nat) (r : Nat) (done : List α) (x : α) :
    inBucket key r (done ++ [x]) =
      inBucket key r done + if key x = r then 1 else 0 := by
  rw [inBucket_append]
  by_cases h : key x = r <;> simp [inBucket, h]

section Step

variable {W n : Nat} {key : α -> Nat} {val : α -> β} {done rest : List α} {x : α}
  {st : List Nat × List β}

theorem inBucket_le_of_done (r : Nat) :
    inBucket key r (done ++ [x]) <= inBucket key r (done ++ x :: rest) := by
  rw [show done ++ x :: rest = (done ++ [x]) ++ rest by simp,
    inBucket_append key r (done ++ [x]) rest]
  omega

/-- The bucket of the next item has room for it. -/
theorem inBucket_lt_of_next :
    inBucket key (key x) done < inBucket key (key x) (done ++ x :: rest) := by
  have hle : inBucket key (key x) (done ++ [x]) <= inBucket key (key x) (done ++ x :: rest) :=
    inBucket_le_of_done (key x)
  rw [inBucket_snoc, if_pos rfl] at hle
  omega

theorem Filled.nextSlot (h : Filled n key val (done ++ x :: rest) done st) (hx : key x < n) :
    st.1.getD (key x) 0 =
      before key (key x) (done ++ x :: rest) + inBucket key (key x) done := by
  simp [List.getD_eq_getElem?_getD, h.cursor (key x) hx]

theorem Filled.nextSlot_lt (h : Filled n key val (done ++ x :: rest) done st) (hx : key x < n) :
    before key (key x) (done ++ x :: rest) + inBucket key (key x) done < st.2.length := by
  have hroom : inBucket key (key x) done < inBucket key (key x) (done ++ x :: rest) :=
    inBucket_lt_of_next
  have hmono := before_mono key (show key x + 1 <= n by omega) (done ++ x :: rest)
  have hsucc := before_succ key (key x) (done ++ x :: rest)
  rw [h.length]
  omega

theorem Filled.cursor_place (hbound : (done ++ x :: rest).length < W)
    (h : Filled n key val (done ++ x :: rest) done st) (hx : key x < n) {r : Nat} (hr : r < n) :
    (place W n key val st x).1[r]? =
      some (before key r (done ++ x :: rest) + inBucket key r (done ++ [x])) := by
  simp only [place, if_pos hx, List.getElem?_modify, h.cursor r hr,
    Option.map_eq_map, Option.map_some, Option.some.injEq]
  rw [inBucket_snoc]
  by_cases hxr : key x = r
  · rw [if_pos hxr, if_pos hxr]
    subst hxr
    have hle := before_le_length key n (done ++ x :: rest)
    have hslot := h.nextSlot_lt hx
    rw [h.length] at hslot
    exact Nat.mod_eq_of_lt (by omega)
  · rw [if_neg hxr, if_neg hxr]
    rfl

theorem Filled.slot_place (h : Filled n key val (done ++ x :: rest) done st) (hx : key x < n)
    {r j : Nat} (hr : r < n) (hj : j < inBucket key r (done ++ [x])) :
    (place W n key val st x).2[before key r (done ++ x :: rest) + j]? =
      (((done ++ [x]).filter (fun y => key y == r))[j]?).map val := by
  have hpos := h.nextSlot hx
  have hposlt := h.nextSlot_lt hx
  rw [← hpos] at hposlt
  simp only [place, if_pos hx]
  rw [List.getElem?_set]
  by_cases hxr : key x = r
  · subst hxr
    rw [inBucket_snoc, if_pos rfl] at hj
    rw [filter_snoc_of_eq key (key x) done x rfl]
    have hlen := inBucket_eq_length_filter key (key x) done
    by_cases hjlast : j = inBucket key (key x) done
    · -- the slot just written
      rw [if_pos (by rw [hpos, hjlast]), if_pos hposlt]
      rw [List.getElem?_append_right (by omega)]
      simp [hjlast, hlen]
    · have hjlt : j < inBucket key (key x) done := by omega
      rw [if_neg (by rw [hpos]; omega)]
      rw [List.getElem?_append_left (by omega)]
      exact h.slot (key x) j hr hjlt
  · have hle : inBucket key r (done ++ [x]) <= inBucket key r (done ++ x :: rest) :=
      inBucket_le_of_done r
    rw [inBucket_snoc, if_neg hxr] at hj hle
    rw [filter_snoc_of_ne key r done x hxr]
    have hne := slot_disjoint hxr inBucket_lt_of_next
      (show j < inBucket key r (done ++ x :: rest) by omega)
    rw [if_neg (by rw [hpos]; exact hne)]
    exact h.slot r j hr (by omega)

/-- An item of a bucket that is not asked for is passed over. -/
theorem Filled.place_other (h : Filled n key val (done ++ x :: rest) done st)
    (hx : ¬ key x < n) :
    Filled n key val (done ++ x :: rest) (done ++ [x]) (place W n key val st x) := by
  have hkeep : forall r, r < n -> key x ≠ r := by
    intro r hr heq
    omega
  refine ⟨?_, ?_, ?_⟩
  · intro r hr
    simp only [place, if_neg hx]
    rw [h.cursor r hr, inBucket_snoc, if_neg (hkeep r hr)]
    rfl
  · intro r j hr hj
    rw [inBucket_snoc, if_neg (hkeep r hr)] at hj
    simp only [place, if_neg hx]
    rw [filter_snoc_of_ne key r done x (hkeep r hr)]
    exact h.slot r j hr hj
  · simp only [place, if_neg hx]
    exact h.length

theorem filled_step (hbound : (done ++ x :: rest).length < W)
    (h : Filled n key val (done ++ x :: rest) done st) :
    Filled n key val (done ++ x :: rest) (done ++ [x])
      (place W n key val st x) := by
  by_cases hx : key x < n
  · refine ⟨fun r hr => h.cursor_place hbound hx hr, fun r j hr hj => h.slot_place hx hr hj, ?_⟩
    simp only [place, if_pos hx, List.length_set]
    exact h.length
  · exact h.place_other hx

end Step

theorem filled_fill {W n : Nat} {key : α -> Nat} {val : α -> β}
    {done rest : List α} {st : List Nat × List β}
    (hbound : (done ++ rest).length < W)
    (h : Filled n key val (done ++ rest) done st) :
    Filled n key val (done ++ rest) (done ++ rest)
      (fill W n key val rest st) := by
  induction rest generalizing done st with
  | nil => simpa [fill] using h
  | cons x rest ih =>
      have hassoc : done ++ x :: rest = (done ++ [x]) ++ rest := by simp
      have hstep := filled_step hbound h
      rw [hassoc] at hstep hbound ⊢
      have hrest := ih hbound hstep
      simpa [fill] using hrest

/-!
## Reading buckets one after another

Listing bucket after bucket is a rearrangement of the items.
-/

theorem flatMap_buckets_perm_filter (key : α -> Nat) (n : Nat) (items : List α) :
    List.Perm
      ((List.range n).flatMap (fun r => items.filter (fun x => key x == r)))
      (items.filter (fun x => decide (key x < n))) := by
  induction n with
  | zero => simp
  | succ n ih =>
      rw [List.range_succ, List.flatMap_append, List.flatMap_singleton]
      have hsplit := List.filter_append_perm (fun x => decide (key x < n))
        (items.filter (fun x => decide (key x < n + 1)))
      have hlow :
          (items.filter (fun x => decide (key x < n + 1))).filter
              (fun x => decide (key x < n)) =
            items.filter (fun x => decide (key x < n)) := by
        rw [List.filter_filter]
        apply List.filter_congr
        intro x _
        simp only [← Bool.decide_and, decide_eq_decide]
        omega
      have hhigh :
          (items.filter (fun x => decide (key x < n + 1))).filter
              (fun x => !decide (key x < n)) =
            items.filter (fun x => key x == n) := by
        rw [List.filter_filter]
        apply List.filter_congr
        intro x _
        rw [Bool.eq_iff_iff]
        simp
        omega
      rw [hlow, hhigh] at hsplit
      exact (ih.append_right _).trans hsplit

theorem flatMap_buckets_perm {key : α -> Nat} {n : Nat} {items : List α}
    (h : forall x, x ∈ items -> key x < n) :
    List.Perm
      ((List.range n).flatMap (fun r => items.filter (fun x => key x == r))) items := by
  have hall : items.filter (fun x => decide (key x < n)) = items := by
    rw [List.filter_eq_self]
    intro x hx
    simpa using h x hx
  have hperm := flatMap_buckets_perm_filter key n items
  rwa [hall] at hperm

theorem filter_flatMap_buckets (key : α -> Nat) (n q : Nat) (items : List α) :
    ((List.range n).flatMap (fun r => items.filter (fun x => key x == r))).filter
        (fun x => key x == q) =
      if q < n then items.filter (fun x => key x == q) else [] := by
  induction n with
  | zero => simp
  | succ n ih =>
      rw [List.range_succ, List.flatMap_append, List.flatMap_singleton,
        List.filter_append, ih]
      by_cases hqn : q = n
      · subst hqn
        simp
      · have hempty :
            (items.filter (fun x => key x == n)).filter (fun x => key x == q) = [] := by
          rw [List.filter_filter, List.filter_eq_nil_iff]
          intro x _
          simp
          omega
        have hiff : q < n + 1 <-> q < n := by omega
        rw [hempty, List.append_nil]
        simp only [hiff]

/-!
## Reading a bucket back
-/

/-- The flat array produced by the three passes. -/
def layout (W n : Nat) (key : α -> Nat) (val : α -> β) (default : β)
    (items : List α) : List β :=
  let off := offsets W (counts W n (items.map key))
  (fill W n key val items
    (off.take n, List.replicate (off.getD n 0) default)).2

theorem before_map (key : α -> Nat) (r : Nat) (items : List α) :
    before id r (items.map key) = before key r items := by
  simp [before, List.countP_map, Function.comp_def]

theorem layout_filled {W n : Nat} {key : α -> Nat} {val : α -> β} {default : β}
    {items : List α} (hbound : items.length < W) :
    Filled n key val items items
      (fill W n key val items
        ((offsets W (counts W n (items.map key))).take n,
          List.replicate ((offsets W (counts W n (items.map key))).getD n 0)
            default)) := by
  have hkeys : (items.map key).length < W := by simpa using hbound
  have hstart :
      Filled n key val ([] ++ items) []
        ((offsets W (counts W n (items.map key))).take n,
          List.replicate ((offsets W (counts W n (items.map key))).getD n 0)
            default) := by
    refine ⟨?_, ?_, ?_⟩
    · intro r hr
      simp only [List.nil_append]
      rw [List.getElem?_take_of_lt hr, offsets_getElem? (by omega) hkeys, before_map]
      rfl
    · intro r j _ hj
      simp [inBucket] at hj
    · simp only [List.length_replicate, List.nil_append]
      rw [List.getD_eq_getElem?_getD, offsets_getElem? (Nat.le_refl n) hkeys,
        before_map]
      rfl
  have hlen : ([] ++ items).length < W := by simpa using hbound
  have hfilled := filled_fill hlen hstart
  simpa using hfilled

/-- The slice of bucket {lit}`r` holds the items of the bucket in order. -/
theorem layout_slice {W n r : Nat} {key : α -> Nat} {val : α -> β} {default : β}
    {items : List α} (hbound : items.length < W) (hr : r < n) :
    ((layout W n key val default items).drop (before key r items)).take
        (inBucket key r items) =
      (items.filter (fun x => key x == r)).map val := by
  have hfilled := @layout_filled _ _ W n key val default items hbound
  apply List.ext_getElem?
  intro j
  have hlen := inBucket_eq_length_filter key r items
  by_cases hj : j < inBucket key r items
  · rw [List.getElem?_take_of_lt hj, List.getElem?_drop, List.getElem?_map]
    exact hfilled.slot r j hr hj
  · rw [List.getElem?_eq_none (by simp; omega),
      List.getElem?_eq_none (by simp; omega)]

end Bucket
end Foundation
