import Mathlib.Data.Int.Basic
import Mathlib.Data.UInt

/-!
# Integers of a fixed width

A build with overflow checks stops at a result that does not fit its type.  A build without
them goes on with the result modulo the width.
-/

namespace Foundation

inductive Build where
  | checked
  | wrapping
deriving DecidableEq, Repr

namespace Build

/-- {lit}`a - b` for unsigned integers of 64 bits; none stands for a panic. -/
def subU64 (build : Build) (a b : UInt64) : Option UInt64 :=
  if b <= a then some (a - b)
  else
    match build with
    | checked => none
    | wrapping => some (a - b)

@[simp] theorem subU64_wrapping (a b : UInt64) : wrapping.subU64 a b = some (a - b) := by
  unfold subU64
  split <;> rfl

theorem subU64_of_le (build : Build) {a b : UInt64} (h : b <= a) :
    build.subU64 a b = some (a - b) := by
  unfold subU64
  rw [if_pos h]

theorem subU64_of_lt {a b : UInt64} (h : a < b) : checked.subU64 a b = none := by
  unfold subU64
  rw [if_neg (UInt64.not_le.mpr h)]

/-- {lit}`a + b` for unsigned integers of 32 bits. -/
def addU32 (build : Build) (a b : Nat) : Option Nat :=
  if a + b < 2 ^ 32 then some (a + b)
  else
    match build with
    | checked => none
    | wrapping => some ((a + b) % 2 ^ 32)

theorem addU32_of_lt (build : Build) {a b : Nat} (h : a + b < 2 ^ 32) :
    build.addU32 a b = some (a + b) := by
  unfold addU32
  rw [if_pos h]

/-- Whatever the build, a sum that is returned is right up to the width. -/
theorem addU32_eq_some {build : Build} {a b n : Nat} (h : build.addU32 a b = some n) :
    n = (a + b) % 2 ^ 32 := by
  unfold addU32 at h
  split at h
  · rename_i hlt
    cases h
    exact (Nat.mod_eq_of_lt hlt).symm
  · cases build with
    | checked => cases h
    | wrapping =>
        cases h
        rfl

/-- A result of an operation on unsigned integers of 64 bits. -/
def u64 (build : Build) (n : Nat) : Option Nat :=
  if n < 2 ^ 64 then some n
  else
    match build with
    | checked => none
    | wrapping => some (n % 2 ^ 64)

/-- A result of an operation on signed integers of 32 bits. -/
def i32 (build : Build) (z : Int) : Option Int :=
  if -2 ^ 31 <= z ∧ z < 2 ^ 31 then some z
  else
    match build with
    | checked => none
    | wrapping => some (z.bmod (2 ^ 32))

theorem i32_of_mem (build : Build) {z : Int} (hlow : -2 ^ 31 <= z) (hhigh : z < 2 ^ 31) :
    build.i32 z = some z := by
  unfold i32
  rw [if_pos ⟨hlow, hhigh⟩]

theorem i32_checked_of_le {z : Int} (h : 2 ^ 31 <= z) : checked.i32 z = none := by
  unfold i32
  rw [if_neg (fun hmem => absurd hmem.2 (Int.not_lt.mpr h))]

theorem i32_wrapping (z : Int) : wrapping.i32 z = some (z.bmod (2 ^ 32)) := by
  unfold i32
  split
  · rename_i hmem
    rw [Int.bmod_eq_of_le hmem.1 hmem.2]
  · rfl

/-- An operation on what an earlier one left is that operation on the exact value. -/
theorem i32_add {build : Build} {a d : Int} (h : build.i32 a = some d) (w : Int) :
    build.i32 (d + w) = build.i32 (a + w) := by
  cases build with
  | checked =>
      unfold i32 at h
      split at h
      · cases h
        rfl
      · cases h
  | wrapping =>
      rw [i32_wrapping] at h
      cases h
      rw [i32_wrapping, i32_wrapping, Int.bmod_add_bmod]

end Build
end Foundation
