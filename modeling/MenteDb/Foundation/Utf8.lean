import Mathlib.Algebra.GroupWithZero.Nat
import Mathlib.Data.List.Basic

/-!
# Texts and their bytes

A text is a list of characters, its bytes are their UTF-8 encodings one after the
other.  A slice of a text between two byte positions exists when characters begin at
both.  A test that only ASCII bytes pass reads a text byte by byte just as it reads
it character by character.
-/

namespace Foundation
namespace Utf8

def encode (s : List Char) : List UInt8 := s.flatMap String.utf8EncodeChar

/-- The number of bytes. -/
def size (s : List Char) : Nat := (s.map Char.utf8Size).sum

/-- The text from a byte on, if a character begins there. -/
def dropBytes : List Char -> Nat -> Option (List Char)
  | s, 0 => some s
  | [], _ + 1 => none
  | c :: rest, n + 1 =>
      if c.utf8Size <= n + 1 then dropBytes rest (n + 1 - c.utf8Size) else none

/-- The text up to a byte, if a character begins there. -/
def takeBytes : List Char -> Nat -> Option (List Char)
  | _, 0 => some []
  | [], _ + 1 => none
  | c :: rest, n + 1 =>
      if c.utf8Size <= n + 1 then (takeBytes rest (n + 1 - c.utf8Size)).map (c :: ·) else none

/-- The characters between two bytes. -/
def slice (s : List Char) (start stop : Nat) : Option (List Char) :=
  if start <= stop then (dropBytes s start).bind (fun rest => takeBytes rest (stop - start))
  else none

/-- The byte at which a character first stands. -/
def find (c : Char) : List Char -> Option Nat
  | [] => none
  | d :: rest => if d = c then some 0 else (find c rest).map (fun n => d.utf8Size + n)

/-!
## Sizes
-/

@[simp] theorem size_nil : size [] = 0 := rfl

@[simp] theorem size_cons (c : Char) (s : List Char) : size (c :: s) = c.utf8Size + size s := rfl

@[simp] theorem size_append (s t : List Char) : size (s ++ t) = size s + size t := by
  unfold size
  rw [List.map_append, List.sum_append]

theorem size_eq_zero {s : List Char} (h : size s = 0) : s = [] := by
  cases s with
  | nil => rfl
  | cons c rest =>
      have hpos := Char.utf8Size_pos c
      rw [size_cons] at h
      omega

theorem length_le_size (s : List Char) : s.length <= size s := by
  induction s with
  | nil => exact Nat.le_refl 0
  | cons c rest ih =>
      have hpos := Char.utf8Size_pos c
      rw [size_cons, List.length_cons]
      omega

@[simp] theorem encode_nil : encode [] = [] := rfl

theorem encode_cons (c : Char) (s : List Char) :
    encode (c :: s) = String.utf8EncodeChar c ++ encode s := rfl

@[simp] theorem encode_append (s t : List Char) : encode (s ++ t) = encode s ++ encode t :=
  List.flatMap_append

@[simp] theorem length_encode (s : List Char) : (encode s).length = size s := by
  induction s with
  | nil => rfl
  | cons c rest ih =>
      rw [encode_cons, List.length_append, ih, String.length_utf8EncodeChar, size_cons]

/-!
## Slices
-/

theorem takeBytes_cons_of_le {c : Char} {n : Nat} (h : c.utf8Size <= n) (rest : List Char) :
    takeBytes (c :: rest) n = (takeBytes rest (n - c.utf8Size)).map (c :: ·) := by
  have hpos := Char.utf8Size_pos c
  cases n with
  | zero => omega
  | succ n =>
      conv => lhs; unfold takeBytes
      rw [if_pos h]

theorem takeBytes_cons_of_lt {c : Char} {n : Nat} (hn : 0 < n) (h : n < c.utf8Size)
    (rest : List Char) : takeBytes (c :: rest) n = none := by
  cases n with
  | zero => omega
  | succ n =>
      unfold takeBytes
      rw [if_neg (Nat.not_le.mpr h)]

theorem takeBytes_eq_some {s w : List Char} {n : Nat} :
    takeBytes s n = some w <-> size w = n ∧ exists v, s = w ++ v := by
  induction s generalizing n w with
  | nil =>
      cases n with
      | zero =>
          unfold takeBytes
          constructor
          · intro h
            cases h
            exact ⟨rfl, [], rfl⟩
          · intro h
            rw [size_eq_zero h.1]
      | succ n =>
          unfold takeBytes
          constructor
          · intro h
            cases h
          · intro h
            rcases h with ⟨hsize, v, hv⟩
            rw [(List.append_eq_nil_iff.mp hv.symm).1] at hsize
            cases hsize
  | cons c rest ih =>
      cases n with
      | zero =>
          unfold takeBytes
          constructor
          · intro h
            cases h
            exact ⟨rfl, c :: rest, rfl⟩
          · intro h
            rw [size_eq_zero h.1]
      | succ n =>
          unfold takeBytes
          constructor
          · intro h
            split at h
            · rename_i hle
              rcases Option.map_eq_some_iff.mp h with ⟨w', hw', heq⟩
              rcases ih.mp hw' with ⟨hsize, v, hv⟩
              rw [← heq, hv, size_cons, hsize]
              exact ⟨by omega, v, rfl⟩
            · cases h
          · intro h
            rcases h with ⟨hsize, v, hv⟩
            cases w with
            | nil => cases hsize
            | cons d w' =>
                rcases List.cons.inj hv with ⟨hcd, hrest⟩
                rw [← hcd] at hsize ⊢
                rw [size_cons] at hsize
                rw [if_pos (by omega), ih.mpr ⟨by omega, v, hrest⟩]
                rfl

theorem dropBytes_append (u v : List Char) : dropBytes (u ++ v) (size u) = some v := by
  induction u with
  | nil => cases v <;> rfl
  | cons c rest ih =>
      have hpos := Char.utf8Size_pos c
      rcases Nat.exists_eq_add_of_le' hpos with ⟨k, hk⟩
      have hsize : size (c :: rest) = (k + size rest) + 1 := by
        rw [size_cons, hk]
        omega
      rw [hsize, List.cons_append]
      unfold dropBytes
      rw [if_pos (by omega), ← ih]
      congr 1
      omega

theorem dropBytes_eq_some {s v : List Char} {n : Nat} (h : dropBytes s n = some v) :
    exists u, s = u ++ v ∧ size u = n := by
  induction s generalizing n with
  | nil =>
      cases n with
      | zero =>
          cases h
          exact ⟨[], rfl, rfl⟩
      | succ n => cases h
  | cons c rest ih =>
      cases n with
      | zero =>
          cases h
          exact ⟨[], rfl, rfl⟩
      | succ n =>
          unfold dropBytes at h
          split at h
          · rename_i hle
            rcases ih h with ⟨u, hu, hsize⟩
            refine ⟨c :: u, by rw [hu]; rfl, ?_⟩
            rw [size_cons, hsize]
            omega
          · cases h

/-- A character begins at a byte, or the text ends there. -/
def IsBoundary (s : List Char) (n : Nat) : Prop := exists u v, s = u ++ v ∧ size u = n

theorem takeBytes_isSome_iff {s : List Char} {n : Nat} :
    (takeBytes s n).isSome = true <-> IsBoundary s n := by
  rw [Option.isSome_iff_exists]
  constructor
  · intro h
    rcases h with ⟨w, hw⟩
    rcases takeBytes_eq_some.mp hw with ⟨hsize, v, hv⟩
    exact ⟨w, v, hv, hsize⟩
  · intro h
    rcases h with ⟨u, v, hs, hsize⟩
    exact ⟨u, takeBytes_eq_some.mpr ⟨hsize, v, hs⟩⟩

instance (s : List Char) (n : Nat) : Decidable (IsBoundary s n) :=
  decidable_of_iff _ takeBytes_isSome_iff

/-- A slice from the position of a character on. -/
theorem slice_append (u v : List Char) (n : Nat) :
    slice (u ++ v) (size u) (size u + n) = takeBytes v n := by
  unfold slice
  rw [if_pos (Nat.le_add_right _ _), dropBytes_append, Nat.add_sub_cancel_left]
  rfl

/-- Slices are the pieces of the text, at their positions. -/
theorem slice_eq_some {s w : List Char} {start stop : Nat} :
    slice s start stop = some w <->
      exists u v, s = u ++ (w ++ v) ∧ size u = start ∧ size u + size w = stop := by
  constructor
  · intro h
    unfold slice at h
    split at h
    · rename_i hle
      rcases Option.bind_eq_some_iff.mp h with ⟨rest, hdrop, htake⟩
      rcases dropBytes_eq_some hdrop with ⟨u, hu, hstart⟩
      rcases takeBytes_eq_some.mp htake with ⟨hsize, v, hv⟩
      refine ⟨u, v, by rw [hu, hv], hstart, ?_⟩
      omega
    · cases h
  · intro h
    rcases h with ⟨u, v, hs, hstart, hstop⟩
    rw [hs, ← hstart, ← hstop, slice_append]
    exact takeBytes_eq_some.mpr ⟨rfl, v, rfl⟩

/-- The texts before and after a slice. -/
theorem around_slice_iff {s left right : List Char} {start n : Nat} :
    (takeBytes s start = some left ∧ dropBytes s (start + n) = some right) <->
      exists mid, s = left ++ (mid ++ right) ∧ size left = start ∧ size mid = n := by
  constructor
  · intro h
    rcases takeBytes_eq_some.mp h.1 with ⟨hstart, v, hv⟩
    rcases dropBytes_eq_some h.2 with ⟨u, hu, hend⟩
    rw [hv] at hu
    rcases List.append_eq_append_iff.mp hu with ⟨mid, hmid, hright⟩ | ⟨mid, hmid, hright⟩
    · refine ⟨mid, by rw [hv, hright], hstart, ?_⟩
      rw [hmid, size_append] at hend
      omega
    · -- the texts meet
      have hnone : mid = [] := by
        apply size_eq_zero
        rw [hmid, size_append] at hstart
        omega
      rw [hnone] at hmid hright
      rw [List.append_nil] at hmid
      refine ⟨[], by rw [hv, hright, List.nil_append, List.nil_append], hstart, ?_⟩
      rw [hmid] at hstart
      rw [size_nil]
      omega
  · intro h
    rcases h with ⟨mid, hs, hstart, hn⟩
    constructor
    · exact takeBytes_eq_some.mpr ⟨hstart, mid ++ right, hs⟩
    · rw [hs, ← hstart, ← hn, ← size_append, ← List.append_assoc]
      exact dropBytes_append (left ++ mid) right

/-!
## The first place of a character
-/

theorem find_append {c : Char} {u : List Char} (hu : c ∉ u) (v : List Char) :
    find c (u ++ c :: v) = some (size u) := by
  induction u with
  | nil => exact if_pos rfl
  | cons d u ih =>
      rw [List.mem_cons, not_or] at hu
      rw [List.cons_append]
      unfold find
      rw [if_neg (fun heq => hu.1 heq.symm), ih hu.2]
      rfl

theorem find_eq_none {c : Char} {s : List Char} (hs : c ∉ s) : find c s = none := by
  induction s with
  | nil => rfl
  | cons d s ih =>
      rw [List.mem_cons, not_or] at hs
      unfold find
      rw [if_neg (fun heq => hs.1 heq.symm), ih hs.2]
      rfl

/-- A text has the character, and begins so before it, or does not have it. -/
theorem first_place (c : Char) (s : List Char) :
    c ∉ s ∨ exists u v, s = u ++ c :: v ∧ c ∉ u := by
  by_cases hmem : c ∈ s
  · rcases List.eq_append_cons_of_mem hmem with ⟨u, v, hs, hu⟩
    exact Or.inr ⟨u, v, hs, hu⟩
  · exact Or.inl hmem

/-!
## Tests of bytes
-/

/-- Only ASCII bytes pass. -/
def AsciiOnly (p : UInt8 -> Bool) : Prop := forall b, p b = true -> b.toNat < 128

/-- The same test for characters. -/
def onChar (p : UInt8 -> Bool) (c : Char) : Bool := decide (c.utf8Size = 1) && p c.toUInt8

theorem encode_cons_ascii {c : Char} (h : c.utf8Size = 1) (s : List Char) :
    encode (c :: s) = c.toUInt8 :: encode s := by
  rw [encode_cons, String.utf8EncodeChar_eq_singleton h]
  rfl

/-- A character of more bytes has no ASCII byte. -/
theorem high_of_mem {c : Char} {b : UInt8} (hc : c.utf8Size ≠ 1)
    (hb : b ∈ String.utf8EncodeChar c) : 128 <= b.toNat := by
  have hwide : ¬ c.val.toNat <= 127 := by
    intro hle
    exact hc (Char.utf8Size_eq_one_iff.mpr hle)
  unfold String.utf8EncodeChar at hb
  simp only [hwide, if_false] at hb
  split at hb
  · simp only [List.mem_cons, List.not_mem_nil, or_false] at hb
    rcases hb with hb | hb
    · rw [hb, UInt8.toNat_ofNat']
      omega
    · rw [hb, UInt8.toNat_ofNat']
      omega
  · split at hb
    · simp only [List.mem_cons, List.not_mem_nil, or_false] at hb
      rcases hb with hb | hb | hb
      · rw [hb, UInt8.toNat_ofNat']
        omega
      · rw [hb, UInt8.toNat_ofNat']
        omega
      · rw [hb, UInt8.toNat_ofNat']
        omega
    · simp only [List.mem_cons, List.not_mem_nil, or_false] at hb
      rcases hb with hb | hb | hb | hb
      · rw [hb, UInt8.toNat_ofNat']
        omega
      · rw [hb, UInt8.toNat_ofNat']
        omega
      · rw [hb, UInt8.toNat_ofNat']
        omega
      · rw [hb, UInt8.toNat_ofNat']
        omega

theorem fails_of_wide {p : UInt8 -> Bool} (hp : AsciiOnly p) {c : Char} (hc : c.utf8Size ≠ 1)
    {b : UInt8} (hb : b ∈ String.utf8EncodeChar c) : p b = false := by
  have hhigh := high_of_mem hc hb
  rw [Bool.eq_false_iff]
  intro hpass
  have hlow := hp b hpass
  omega

theorem onChar_of_wide (p : UInt8 -> Bool) {c : Char} (hc : c.utf8Size ≠ 1) :
    onChar p c = false := by
  unfold onChar
  rw [decide_eq_false hc, Bool.false_and]

theorem onChar_of_ascii (p : UInt8 -> Bool) {c : Char} (hc : c.utf8Size = 1) :
    onChar p c = p c.toUInt8 := by
  unfold onChar
  rw [decide_eq_true hc, Bool.true_and]

theorem ascii_of_onChar {p : UInt8 -> Bool} {c : Char} (h : onChar p c = true) :
    c.utf8Size = 1 := by
  unfold onChar at h
  exact of_decide_eq_true (Bool.and_eq_true_iff.mp h).1

theorem asciiOnly_beq {a : UInt8} (h : a.toNat < 128) : AsciiOnly (fun b => b == a) := by
  intro b hb
  rw [eq_of_beq hb]
  exact h

theorem asciiOnly_range {low high : UInt8} (h : high.toNat < 128) :
    AsciiOnly (fun b => decide (low <= b) && decide (b <= high)) := by
  intro b hb
  have hle := of_decide_eq_true (Bool.and_eq_true_iff.mp hb).2
  exact Nat.lt_of_le_of_lt (UInt8.le_iff_toNat_le.mp hle) h

theorem AsciiOnly.or {p q : UInt8 -> Bool} (hp : AsciiOnly p) (hq : AsciiOnly q) :
    AsciiOnly (fun b => p b || q b) := by
  intro b hb
  rcases Bool.or_eq_true_iff.mp hb with hb | hb
  · exact hp b hb
  · exact hq b hb

theorem toUInt8_inj {c a : Char} (hc : c.utf8Size = 1) (ha : a.utf8Size = 1)
    (h : c.toUInt8 = a.toUInt8) : c = a := by
  have hc' : c.val.toNat <= 127 := Char.utf8Size_eq_one_iff.mp hc
  have ha' : a.val.toNat <= 127 := Char.utf8Size_eq_one_iff.mp ha
  have hbytes := congrArg UInt8.toNat h
  unfold Char.toUInt8 at hbytes
  rw [UInt32.toNat_toUInt8, UInt32.toNat_toUInt8] at hbytes
  apply Char.ext
  apply UInt32.toNat_inj.mp
  omega

theorem onChar_beq {a : Char} (ha : a.utf8Size = 1) (c : Char) :
    onChar (fun b => b == a.toUInt8) c = decide (c = a) := by
  by_cases hc : c.utf8Size = 1
  · rw [onChar_of_ascii _ hc]
    by_cases heq : c = a
    · rw [heq, decide_eq_true rfl, beq_self_eq_true]
    · rw [decide_eq_false heq, beq_eq_false_iff_ne]
      intro hbyte
      exact heq (toUInt8_inj hc ha hbyte)
  · rw [onChar_of_wide _ hc, decide_eq_false]
    intro heq
    rw [heq] at hc
    exact hc ha

/-- The first byte of a text passes when its first character does. -/
theorem test_head (c : Char) (s : List Char) : exists b bytes,
    encode (c :: s) = b :: bytes ∧ b ∈ String.utf8EncodeChar c ∧
      forall p, AsciiOnly p -> p b = onChar p c := by
  cases hchar : String.utf8EncodeChar c with
  | nil => exact absurd hchar String.utf8EncodeChar_ne_nil
  | cons b bytes =>
      refine ⟨b, bytes ++ encode s, by rw [encode_cons, hchar]; rfl, List.mem_cons_self, ?_⟩
      intro p hp
      by_cases hc : c.utf8Size = 1
      · rw [String.utf8EncodeChar_eq_singleton hc] at hchar
        rw [onChar_of_ascii p hc, ← (List.cons.inj hchar).1]
        rfl
      · have hb : b ∈ String.utf8EncodeChar c := by
          rw [hchar]
          exact List.mem_cons_self
        rw [onChar_of_wide p hc, fails_of_wide hp hc hb]

/-- Scanning bytes is scanning characters. -/
theorem takeWhile_encode {p : UInt8 -> Bool} (hp : AsciiOnly p) (s : List Char) :
    (encode s).takeWhile p = encode (s.takeWhile (onChar p)) := by
  induction s with
  | nil => rfl
  | cons c rest ih =>
      by_cases hc : c.utf8Size = 1
      · rw [encode_cons_ascii hc, List.takeWhile_cons, List.takeWhile_cons, onChar_of_ascii p hc]
        split
        · rw [ih, encode_cons_ascii hc]
        · rfl
      · rcases test_head c rest with ⟨b, bytes, henc, _, htest⟩
        have hfail : p b = false := by
          rw [htest p hp, onChar_of_wide p hc]
        rw [henc, List.takeWhile_cons_of_neg (by rw [hfail]; exact Bool.false_ne_true),
          List.takeWhile_cons_of_neg (by rw [onChar_of_wide p hc]; exact Bool.false_ne_true)]
        rfl

/-- The byte at the position of a character. -/
theorem getElem?_encode (u v : List Char) : (encode (u ++ v))[size u]? = (encode v).head? := by
  rw [encode_append, ← length_encode u, List.getElem?_append_right (Nat.le_refl _), Nat.sub_self]
  cases encode v with
  | nil => rfl
  | cons b bytes => rfl

theorem drop_encode (u v : List Char) : (encode (u ++ v)).drop (size u) = encode v := by
  rw [encode_append, ← length_encode u, List.drop_left]

theorem any_head_encode {p : UInt8 -> Bool} (hp : AsciiOnly p) (v : List Char) :
    (encode v).head?.any p = v.head?.any (onChar p) := by
  cases v with
  | nil => rfl
  | cons c rest =>
      rcases test_head c rest with ⟨b, bytes, henc, _, htest⟩
      rw [henc]
      exact htest p hp

theorem head_encode_eq {a : Char} (ha : a.utf8Size = 1) (v : List Char) :
    (encode v).head? = some a.toUInt8 <-> v.head? = some a := by
  have hlow : a.toUInt8.toNat < 128 := by
    have hle : a.val.toNat <= 127 := Char.utf8Size_eq_one_iff.mp ha
    unfold Char.toUInt8
    rw [UInt32.toNat_toUInt8]
    omega
  have hany := any_head_encode (asciiOnly_beq hlow) v
  cases v with
  | nil => simp
  | cons c rest =>
      rcases test_head c rest with ⟨b, bytes, henc, _, _⟩
      rw [henc] at hany ⊢
      have htest : (b == a.toUInt8) = onChar (fun b => b == a.toUInt8) c := hany
      rw [onChar_beq ha] at htest
      simp only [List.head?_cons, Option.some.injEq]
      rw [← beq_iff_eq, htest, decide_eq_true_iff]

end Utf8
end Foundation
