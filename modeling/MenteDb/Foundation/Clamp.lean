import Mathlib.Algebra.Order.Field.Basic
import Mathlib.Algebra.Order.Monoid.Unbundled.MinMax

/-!
# Clamping

A value forced between two bounds, and increasing affine maps under it.  The
main result says when clamping between two maps changes nothing: applying the
clamped map twice, with different slopes, against applying the second once.
-/

namespace Foundation

/-!
## Bounds
-/

section Order

variable {α : Type} [LinearOrder α] {lo hi x y s c : α}

def clampTo (lo hi x : α) : α := max lo (min hi x)

theorem clampTo_of_le (h : x <= lo) : clampTo lo hi x = lo :=
  max_eq_left ((min_le_right hi x).trans h)

theorem clampTo_of_ge (hle : lo <= hi) (h : hi <= x) : clampTo lo hi x = hi := by
  unfold clampTo
  rw [min_eq_left h, max_eq_right hle]

theorem clampTo_of_between (hlo : lo <= x) (hhi : x <= hi) : clampTo lo hi x = x := by
  unfold clampTo
  rw [min_eq_right hhi, max_eq_right hlo]

/-- A clamped value lies below the range, above it or inside it. -/
theorem clampTo_cases (hle : lo <= hi) (x : α) :
    (x <= lo ∧ clampTo lo hi x = lo) ∨ (hi <= x ∧ clampTo lo hi x = hi) ∨
      (lo < x ∧ x < hi ∧ clampTo lo hi x = x) := by
  rcases le_or_gt x lo with hlow | hlow
  · exact Or.inl ⟨hlow, clampTo_of_le hlow⟩
  · rcases le_or_gt hi x with hhigh | hhigh
    · exact Or.inr (Or.inl ⟨hhigh, clampTo_of_ge hle hhigh⟩)
    · exact Or.inr (Or.inr ⟨hlow, hhigh, clampTo_of_between hlow.le hhigh.le⟩)

theorem clampTo_eq_iff (hle : lo <= hi) :
    clampTo lo hi x = s <->
      (lo <= s ∧ s <= hi ∧ x = s) ∨ (s = lo ∧ x <= lo) ∨ (s = hi ∧ hi <= x) := by
  constructor
  · intro h
    rcases clampTo_cases hle x with ⟨hx, heq⟩ | ⟨hx, heq⟩ | ⟨hlo, hhi, heq⟩
    · exact Or.inr (Or.inl ⟨h.symm.trans heq, hx⟩)
    · exact Or.inr (Or.inr ⟨h.symm.trans heq, hx⟩)
    · have hxs : x = s := heq.symm.trans h
      exact Or.inl ⟨hxs ▸ hlo.le, hxs ▸ hhi.le, hxs⟩
  · intro h
    rcases h with ⟨hlo, hhi, heq⟩ | ⟨heq, hx⟩ | ⟨heq, hx⟩
    · rw [heq, clampTo_of_between hlo hhi]
    · rw [heq, clampTo_of_le hx]
    · rw [heq, clampTo_of_ge hle hx]

/-- Two values clamp to the same when they are equal or beyond the same bound. -/
theorem clampTo_eq_clampTo_iff (hlt : lo < hi) :
    clampTo lo hi x = clampTo lo hi y <->
      x = y ∨ (x <= lo ∧ y <= lo) ∨ (hi <= x ∧ hi <= y) := by
  constructor
  · intro h
    rcases clampTo_cases hlt.le y with ⟨hy, heq⟩ | ⟨hy, heq⟩ | ⟨hlo, hhi, heq⟩
    · rw [heq] at h
      rcases (clampTo_eq_iff hlt.le).mp h with ⟨_, _, hx⟩ | ⟨_, hx⟩ | ⟨hsame, _⟩
      · exact Or.inr (Or.inl ⟨hx.le, hy⟩)
      · exact Or.inr (Or.inl ⟨hx, hy⟩)
      · exact absurd hsame hlt.ne
    · rw [heq] at h
      rcases (clampTo_eq_iff hlt.le).mp h with ⟨_, _, hx⟩ | ⟨hsame, _⟩ | ⟨_, hx⟩
      · exact Or.inr (Or.inr ⟨hx.ge, hy⟩)
      · exact absurd hsame hlt.ne'
      · exact Or.inr (Or.inr ⟨hx, hy⟩)
    · rw [heq] at h
      rcases (clampTo_eq_iff hlt.le).mp h with ⟨_, _, hx⟩ | ⟨hsame, _⟩ | ⟨hsame, _⟩
      · exact Or.inl hx
      · exact absurd hsame hlo.ne'
      · exact absurd hsame hhi.ne
  · intro h
    rcases h with heq | ⟨hx, hy⟩ | ⟨hx, hy⟩
    · rw [heq]
    · rw [clampTo_of_le hx, clampTo_of_le hy]
    · rw [clampTo_of_ge hlt.le hx, clampTo_of_ge hlt.le hy]

/-- A clamped value is small when the lower bound is, and the value or the upper bound. -/
theorem clampTo_le_iff : clampTo lo hi x <= c <-> lo <= c ∧ (hi <= c ∨ x <= c) := by
  unfold clampTo
  rw [max_le_iff, min_le_iff]

theorem le_clampTo_iff (hle : lo <= hi) :
    c <= clampTo lo hi x <-> c <= hi ∧ (c <= lo ∨ c <= x) := by
  unfold clampTo
  rw [le_max_iff, le_min_iff]
  constructor
  · intro h
    rcases h with hlo | ⟨hhi, hx⟩
    · exact ⟨hlo.trans hle, Or.inl hlo⟩
    · exact ⟨hhi, Or.inr hx⟩
  · intro h
    rcases h with ⟨hhi, hlo | hx⟩
    · exact Or.inl hlo
    · exact Or.inr ⟨hhi, hx⟩

end Order

/-!
## Increasing affine maps
-/

section Affine

variable {F : Type} [Field F] [LinearOrder F] [IsStrictOrderedRing F] {lo hi s x f g b c : F}

theorem mul_add_le_iff (hf : 0 < f) : x * f + b <= c <-> x <= (c - b) / f := by
  rw [le_div_iff₀ hf, le_sub_iff_add_le]

theorem le_mul_add_iff (hf : 0 < f) : c <= x * f + b <-> (c - b) / f <= x := by
  rw [div_le_iff₀ hf, sub_le_iff_le_add]

/-- The map of a clamped value is small when the map of the lower bound is, and that
of the value or of the upper bound. -/
theorem clampTo_mul_add_le_iff (hf : 0 < f) :
    clampTo lo hi x * f + b <= c <->
      lo * f + b <= c ∧ (hi * f + b <= c ∨ x * f + b <= c) := by
  simp only [mul_add_le_iff hf]
  exact clampTo_le_iff

theorem le_clampTo_mul_add_iff (hle : lo <= hi) (hf : 0 < f) :
    c <= clampTo lo hi x * f + b <->
      c <= hi * f + b ∧ (c <= lo * f + b ∨ c <= x * f + b) := by
  simp only [le_mul_add_iff hf]
  exact le_clampTo_iff hle

/-- Clamping a first map before a second one is not noticed when the first leaves the
value where it is, or when the second ends at the same bound either way. -/
theorem clampTo_mul_add_twice_iff (hlt : lo < hi) (hg : 0 < g) :
    clampTo lo hi (clampTo lo hi (s * f + b) * g + b) = clampTo lo hi (s * g + b) <->
      ((lo <= s ∧ s <= hi ∧ s * f + b = s) ∨ (s = lo ∧ s * f + b <= lo) ∨
        (s = hi ∧ hi <= s * f + b)) ∨
      ((lo * g + b <= lo ∧ (hi * g + b <= lo ∨ (s * f + b) * g + b <= lo)) ∧
        s * g + b <= lo) ∨
      ((hi <= hi * g + b ∧ (hi <= lo * g + b ∨ hi <= (s * f + b) * g + b)) ∧
        hi <= s * g + b) := by
  have hinj : clampTo lo hi (s * f + b) * g + b = s * g + b <->
      clampTo lo hi (s * f + b) = s := by
    rw [add_left_inj, mul_left_inj' hg.ne']
  rw [clampTo_eq_clampTo_iff hlt, hinj, clampTo_eq_iff hlt.le, clampTo_mul_add_le_iff hg,
    le_clampTo_mul_add_iff hlt.le hg]

end Affine

end Foundation
