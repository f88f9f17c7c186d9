import Mathlib.Algebra.Order.Floor.Semiring
import Mathlib.Data.Rat.Floor
import MenteDb.Foundation.Outcome
import MenteDb.Foundation.Overflow

/-!
# Rate limiting

A bucket of tokens for each client.  A request takes a token, and before it does the bucket is
refilled for the time since the last refill, in whole tokens.  The time of the last refill moves
only if a token was added, so what is left of a token is not lost.
-/

namespace MenteDb
namespace Server

open Foundation

section Buckets

variable {K : Type}

/-- Times are in seconds, and so is the unit of the refill rate. -/
structure Bucket (K : Type) where
  tokens : Nat
  lastRefill : K
  maxTokens : Nat
  refillRate : Nat
deriving DecidableEq

namespace Bucket

def new (maxTokens refillRate : Nat) (now : K) : Bucket K where
  tokens := maxTokens
  lastRefill := now
  maxTokens := maxTokens
  refillRate := refillRate

/-- Takes a token if there is one. -/
def consume (b : Bucket K) : Bool × Bucket K :=
  if 0 < b.tokens then (true, { b with tokens := b.tokens - 1 }) else (false, b)

theorem consume_spec (b : Bucket K) :
    b.consume.1.toNat + b.consume.2.tokens = b.tokens ∧
      b.consume.2.lastRefill = b.lastRefill ∧ b.consume.2.maxTokens = b.maxTokens ∧
      b.consume.2.refillRate = b.refillRate := by
  unfold consume
  split
  · rename_i hpos
    refine ⟨?_, rfl, rfl, rfl⟩
    show 1 + (b.tokens - 1) = b.tokens
    omega
  · rename_i hpos
    refine ⟨?_, rfl, rfl, rfl⟩
    show 0 + b.tokens = b.tokens
    omega

variable [Field K] [LinearOrder K] [FloorSemiring K]

/-- {lit}`x as u32`, which stays within the type. -/
def castU32 (x : K) : Nat := min (Nat.floor x) (2 ^ 32 - 1)

/-- The whole tokens for the time since the last refill; {lit}`duration_since` is never
negative. -/
def refillAt (b : Bucket K) (now : K) : Nat :=
  castU32 (max (now - b.lastRefill) 0 * (b.refillRate : K))

def refill (build : Build) (b : Bucket K) (now : K) : Option (Bucket K) :=
  if 0 < b.refillAt now then
    (build.addU32 b.tokens (b.refillAt now)).map (fun sum =>
      { b with tokens := min sum b.maxTokens, lastRefill := now })
  else some b

def tryConsume (build : Build) (b : Bucket K) (now : K) : Option (Bool × Bucket K) :=
  (b.refill build now).map consume

/-- The requests of a client at their times: which of them were admitted, and the bucket they
leave. -/
def serve (build : Build) : Bucket K -> List K -> Option (List (K × Bool) × Bucket K)
  | b, [] => some ([], b)
  | b, now :: rest =>
      (b.tryConsume build now).bind (fun r =>
        (serve build r.2 rest).map (fun served => ((now, r.1) :: served.1, served.2)))

end Bucket

/-- How many requests were admitted from one time to another. -/
def admittedIn [LinearOrder K] (a b : K) (served : List (K × Bool)) : Nat :=
  served.countP (fun r => r.2 && decide (a <= r.1) && decide (r.1 <= b))

end Buckets

section Bounds

variable {K : Type} [Field K] [LinearOrder K] [IsStrictOrderedRing K] [FloorSemiring K]

namespace Bucket

theorem castU32_le {x : K} (h : 0 <= x) : (castU32 x : K) <= x := by
  have hfloor : (castU32 x : K) <= (Nat.floor x : K) := by
    exact_mod_cast Nat.min_le_left _ _
  exact le_trans hfloor (Nat.floor_le h)

theorem lt_one_of_castU32_eq_zero {x : K} (h : castU32 x = 0) : x < 1 := by
  have hfloor : Nat.floor x = 0 := by
    unfold castU32 at h
    omega
  exact Nat.floor_eq_zero.mp hfloor

theorem refillAt_le {b : Bucket K} {now : K} (hnow : b.lastRefill <= now) :
    (b.refillAt now : K) <= (now - b.lastRefill) * (b.refillRate : K) := by
  unfold refillAt
  rw [max_eq_left (sub_nonneg.mpr hnow)]
  exact castU32_le (mul_nonneg (sub_nonneg.mpr hnow) (Nat.cast_nonneg _))

/-- All that a request can do.  The first case is a refill: the reference time moves, and what
was added is covered by the time that passed.  In the second the time is short of a token. -/
theorem tryConsume_cases {build : Build} {b b' : Bucket K} {now : K} {admitted : Bool}
    (h : b.tryConsume build now = some (admitted, b')) (hnow : b.lastRefill <= now) :
    (b'.maxTokens = b.maxTokens ∧ b'.refillRate = b.refillRate) ∧
      ((b'.lastRefill = now ∧ admitted.toNat + b'.tokens <= b.maxTokens ∧
          ((admitted.toNat + b'.tokens : Nat) : K) <=
            (b.tokens : K) + (now - b.lastRefill) * (b.refillRate : K)) ∨
        (b'.lastRefill = b.lastRefill ∧ admitted.toNat + b'.tokens = b.tokens ∧
          (now - b.lastRefill) * (b.refillRate : K) < 1)) := by
  rcases Option.map_eq_some_iff.mp h with ⟨mid, hrefill, hconsume⟩
  rcases consume_spec mid with ⟨htokens, hlast, hmax, hrate⟩
  rw [hconsume] at htokens hlast hmax hrate
  unfold refill at hrefill
  split at hrefill
  · rcases Option.map_eq_some_iff.mp hrefill with ⟨sum, hsum, hmid⟩
    cases hmid
    refine ⟨⟨hmax, hrate⟩, Or.inl ⟨hlast, ?_, ?_⟩⟩
    · rw [htokens]
      exact Nat.min_le_right _ _
    · have hle : sum <= b.tokens + b.refillAt now := by
        rw [Build.addU32_eq_some hsum]
        exact Nat.mod_le _ _
      have hcover := refillAt_le hnow
      have hkept : admitted.toNat + b'.tokens <= b.tokens + b.refillAt now := by
        rw [htokens]
        exact le_trans (Nat.min_le_left _ _) hle
      calc ((admitted.toNat + b'.tokens : Nat) : K)
          <= ((b.tokens + b.refillAt now : Nat) : K) := by exact_mod_cast hkept
        _ = (b.tokens : K) + (b.refillAt now : K) := by push_cast; ring
        _ <= (b.tokens : K) + (now - b.lastRefill) * (b.refillRate : K) := by linarith
  · rename_i hnone
    cases hrefill
    refine ⟨⟨hmax, hrate⟩, Or.inr ⟨hlast, htokens, ?_⟩⟩
    have hzero : b.refillAt now = 0 := Nat.eq_zero_of_not_pos hnone
    unfold refillAt at hzero
    rw [max_eq_left (sub_nonneg.mpr hnow)] at hzero
    exact lt_one_of_castU32_eq_zero hzero

/-- A request leaves a bucket as the next request needs it. -/
theorem tryConsume_keeps {build : Build} {b b' : Bucket K} {now : K} {rest : List K}
    {admitted : Bool} (h : b.tryConsume build now = some (admitted, b'))
    (hsorted : (b.lastRefill :: now :: rest).Pairwise (fun s t => s <= t))
    (htokens : b.tokens <= b.maxTokens) :
    b'.tokens <= b'.maxTokens ∧ (b'.lastRefill :: rest).Pairwise (fun s t => s <= t) := by
  have hnow : b.lastRefill <= now := List.rel_of_pairwise_cons hsorted List.mem_cons_self
  rcases tryConsume_cases h hnow with ⟨⟨hmax, -⟩, hcases⟩
  rw [hmax]
  rcases hcases with ⟨hlast, hfits, -⟩ | ⟨hlast, hkept, -⟩
  · rw [hlast]
    exact ⟨by omega, (List.pairwise_cons.mp hsorted).2⟩
  · rw [hlast]
    exact ⟨by omega, hsorted.sublist ((List.sublist_cons_self now rest).cons_cons _)⟩

omit [Field K] [IsStrictOrderedRing K] [FloorSemiring K] in
theorem later_of_sorted {to_ now : K} {rest : List K}
    (hsorted : (now :: rest).Pairwise (fun s t => s <= t)) (hlate : to_ < now) (t : K)
    (ht : t ∈ now :: rest) : to_ < t := by
  rcases List.mem_cons.mp ht with heq | hrest
  · rw [heq]
    exact hlate
  · exact lt_of_lt_of_le hlate ((List.pairwise_cons.mp hsorted).1 t hrest)

omit [IsStrictOrderedRing K] in
theorem serve_cons_eq_some {build : Build} {b last : Bucket K} {now : K} {rest : List K}
    {served : List (K × Bool)} (h : b.serve build (now :: rest) = some (served, last)) :
    exists admitted b' more, b.tryConsume build now = some (admitted, b') ∧
      b'.serve build rest = some (more, last) ∧ served = (now, admitted) :: more := by
  rcases Option.bind_eq_some_iff.mp h with ⟨r, hstep, hrest⟩
  rcases Option.map_eq_some_iff.mp hrest with ⟨more, hmore, heq⟩
  cases heq
  exact ⟨r.1, r.2, more.1, hstep, hmore, rfl⟩

/-- No request finds more tokens than the bucket holds. -/
theorem serve_tokens_le {build : Build} {b last : Bucket K} {times : List K}
    {served : List (K × Bool)} (h : b.serve build times = some (served, last))
    (hsorted : (b.lastRefill :: times).Pairwise (fun s t => s <= t))
    (htokens : b.tokens <= b.maxTokens) :
    last.tokens <= b.maxTokens ∧ last.maxTokens = b.maxTokens := by
  induction times generalizing b served with
  | nil =>
      cases h
      exact ⟨htokens, rfl⟩
  | cons now rest ih =>
      rcases serve_cons_eq_some h with ⟨admitted, b', more, hstep, hrest, heq⟩
      have hnow : b.lastRefill <= now := List.rel_of_pairwise_cons hsorted List.mem_cons_self
      rcases tryConsume_cases hstep hnow with ⟨⟨hmax, -⟩, -⟩
      have hnext := tryConsume_keeps hstep hsorted htokens
      have hlast := ih hrest hnext.2 hnext.1
      rw [hmax] at hlast
      exact hlast

omit [IsStrictOrderedRing K] in
/-- A later request is not in an interval that has ended. -/
theorem admittedIn_of_lt {build : Build} {b last : Bucket K} {times : List K}
    {served : List (K × Bool)} (h : b.serve build times = some (served, last)) {from_ to_ : K}
    (hlate : forall t, t ∈ times -> to_ < t) : admittedIn from_ to_ served = 0 := by
  induction times generalizing b served with
  | nil =>
      cases h
      rfl
  | cons now rest ih =>
      rcases serve_cons_eq_some h with ⟨admitted, b', more, hstep, hrest, heq⟩
      rw [heq]
      unfold admittedIn
      rw [List.countP_cons_of_neg]
      · exact ih hrest (fun t ht => hlate t (List.mem_cons_of_mem now ht))
      · have hnow := hlate now List.mem_cons_self
        simp [not_le.mpr hnow]

omit [Field K] [IsStrictOrderedRing K] [FloorSemiring K] in
theorem admittedIn_cons_le (from_ to_ : K) (now : K) (admitted : Bool)
    (served : List (K × Bool)) :
    admittedIn from_ to_ ((now, admitted) :: served) <=
      admitted.toNat + admittedIn from_ to_ served := by
  unfold admittedIn
  rw [List.countP_cons]
  cases admitted with
  | false => simp
  | true =>
      show _ <= 1 + _
      split <;> omega

/-- The tokens in the bucket and those of the time up to the end of the interval are all there
is to admit requests with. -/
theorem admittedIn_le_credit {build : Build} {b last : Bucket K} {times : List K}
    {served : List (K × Bool)} (h : b.serve build times = some (served, last))
    (hsorted : (b.lastRefill :: times).Pairwise (fun s t => s <= t)) (from_ : K) {to_ : K}
    (hto : b.lastRefill <= to_) :
    (admittedIn from_ to_ served : K) <=
      (b.tokens : K) + (to_ - b.lastRefill) * (b.refillRate : K) := by
  induction times generalizing b served with
  | nil =>
      rw [admittedIn_of_lt h (fun t ht => absurd ht List.not_mem_nil), Nat.cast_zero]
      exact add_nonneg (Nat.cast_nonneg _)
        (mul_nonneg (sub_nonneg.mpr hto) (Nat.cast_nonneg _))
  | cons now rest ih =>
      have hnow : b.lastRefill <= now := List.rel_of_pairwise_cons hsorted List.mem_cons_self
      have hrestSorted := (List.pairwise_cons.mp hsorted).2
      by_cases hin : now <= to_
      · rcases serve_cons_eq_some h with ⟨admitted, b', more, hstep, hrest, heq⟩
        rcases tryConsume_cases hstep hnow with ⟨⟨-, hrate⟩, hcases⟩
        have hcons : (admittedIn from_ to_ served : K) <=
            (admitted.toNat : K) + (admittedIn from_ to_ more : K) := by
          rw [heq]
          exact_mod_cast admittedIn_cons_le from_ to_ now admitted more
        rcases hcases with ⟨hlast, -, hcover⟩ | ⟨hlast, hkept, -⟩
        · have hmore := ih hrest (by rw [hlast]; exact hrestSorted) (by rw [hlast]; exact hin)
          rw [hlast, hrate] at hmore
          rw [Nat.cast_add] at hcover
          have hsplit : (to_ - b.lastRefill) * (b.refillRate : K) =
              (now - b.lastRefill) * (b.refillRate : K) + (to_ - now) * (b.refillRate : K) := by
            ring
          linarith
        · have hmore := ih hrest
            (by rw [hlast]; exact hsorted.sublist ((List.sublist_cons_self now rest).cons_cons _))
            (by rw [hlast]; exact hto)
          rw [hlast, hrate] at hmore
          have htokens : (admitted.toNat : K) + (b'.tokens : K) = (b.tokens : K) := by
            exact_mod_cast hkept
          linarith
      · rw [admittedIn_of_lt h (later_of_sorted hrestSorted (not_le.mp hin)), Nat.cast_zero]
        exact add_nonneg (Nat.cast_nonneg _)
          (mul_nonneg (sub_nonneg.mpr hto) (Nat.cast_nonneg _))

/-- From the first request of an interval on, time before the interval adds less than one token to
those of the bucket, unless that request adds it. -/
theorem admittedIn_le_of_first {build : Build} {b last : Bucket K} {now : K} {rest : List K}
    {served : List (K × Bool)} (h : b.serve build (now :: rest) = some (served, last))
    (hsorted : (b.lastRefill :: now :: rest).Pairwise (fun s t => s <= t))
    (htokens : b.tokens <= b.maxTokens) {from_ to_ : K} (hbegun : from_ <= now) (hin : now <= to_) :
    admittedIn from_ to_ served <=
      b.maxTokens + Nat.ceil ((to_ - from_) * (b.refillRate : K)) := by
  have hnow : b.lastRefill <= now := List.rel_of_pairwise_cons hsorted List.mem_cons_self
  have hrestSorted := (List.pairwise_cons.mp hsorted).2
  have hceil := Nat.le_ceil ((to_ - from_) * (b.refillRate : K))
  have hmaxTokens : (b.tokens : K) <= (b.maxTokens : K) := by exact_mod_cast htokens
  have hlength : (to_ - now) * (b.refillRate : K) <= (to_ - from_) * (b.refillRate : K) :=
    mul_le_mul_of_nonneg_right (by linarith) (Nat.cast_nonneg _)
  rcases serve_cons_eq_some h with ⟨admitted, b', more, hstep, hrest, heq⟩
  rcases tryConsume_cases hstep hnow with ⟨⟨hmax, hrate⟩, hcases⟩
  have hcons : (admittedIn from_ to_ served : K) <=
      (admitted.toNat : K) + (admittedIn from_ to_ more : K) := by
    rw [heq]
    exact_mod_cast admittedIn_cons_le from_ to_ now admitted more
  rcases hcases with ⟨hlast, hfits, -⟩ | ⟨hlast, hkept, hshort⟩
  · have hto : b'.lastRefill <= to_ := by
      rw [hlast]
      exact hin
    have hmore := admittedIn_le_credit hrest (by rw [hlast]; exact hrestSorted) from_ hto
    rw [hlast, hrate] at hmore
    have hfull : (admitted.toNat : K) + (b'.tokens : K) <= (b.maxTokens : K) := by
      exact_mod_cast hfits
    have hbound : (admittedIn from_ to_ served : K) <=
        (b.maxTokens : K) + (Nat.ceil ((to_ - from_) * (b.refillRate : K)) : K) := by
      linarith
    exact_mod_cast hbound
  · have hcredit := admittedIn_le_credit h hsorted from_ (le_trans hnow hin)
    have hsplit : (to_ - b.lastRefill) * (b.refillRate : K) =
        (to_ - now) * (b.refillRate : K) + (now - b.lastRefill) * (b.refillRate : K) := by
      ring
    have hbound : (admittedIn from_ to_ served : K) <
        (b.maxTokens : K) + (Nat.ceil ((to_ - from_) * (b.refillRate : K)) : K) + 1 := by
      linarith
    exact Nat.lt_succ_iff.mp (by exact_mod_cast hbound)

/-- In an interval a full bucket is used up, and the tokens of its length. -/
theorem admittedIn_le {build : Build} {b last : Bucket K} {times : List K}
    {served : List (K × Bool)} (h : b.serve build times = some (served, last))
    (hsorted : (b.lastRefill :: times).Pairwise (fun s t => s <= t))
    (htokens : b.tokens <= b.maxTokens) (from_ to_ : K) :
    admittedIn from_ to_ served <=
      b.maxTokens + Nat.ceil ((to_ - from_) * (b.refillRate : K)) := by
  induction times generalizing b served with
  | nil =>
      cases h
      exact Nat.zero_le _
  | cons now rest ih =>
      have hnow : b.lastRefill <= now := List.rel_of_pairwise_cons hsorted List.mem_cons_self
      have hrestSorted := (List.pairwise_cons.mp hsorted).2
      by_cases hlate : to_ < now
      · rw [admittedIn_of_lt h (later_of_sorted hrestSorted hlate)]
        exact Nat.zero_le _
      · by_cases hearly : now < from_
        · -- the interval has not begun
          rcases serve_cons_eq_some h with ⟨admitted, b', more, hstep, hrest, heq⟩
          rcases tryConsume_cases hstep hnow with ⟨⟨hmax, hrate⟩, -⟩
          have hnext := tryConsume_keeps hstep hsorted htokens
          have hmore := ih hrest hnext.2 hnext.1
          rw [hmax, hrate] at hmore
          rw [heq]
          unfold admittedIn at hmore ⊢
          rw [List.countP_cons_of_neg (by simp [not_le.mpr hearly])]
          exact hmore
        · exact admittedIn_le_of_first h hsorted htokens (not_lt.mp hearly) (not_lt.mp hlate)

/-- The tokens of a request that are added fit their type. -/
def Fits (b : Bucket K) (now : K) : Prop := b.tokens + b.refillAt now < 2 ^ 32

omit [IsStrictOrderedRing K] in
theorem tryConsume_of_fits (build : Build) {b : Bucket K} {now : K} (h : b.Fits now) :
    exists admitted b', b.tryConsume build now = some (admitted, b') := by
  have hsum : build.addU32 b.tokens (b.refillAt now) = some (b.tokens + b.refillAt now) :=
    build.addU32_of_lt h
  unfold tryConsume refill
  split
  · rw [hsum]
    exact ⟨_, _, rfl⟩
  · exact ⟨_, _, rfl⟩

omit [IsStrictOrderedRing K] in
/-- Every request is answered, one after the other. -/
theorem serve_of_fits (build : Build) {b : Bucket K} {times : List K}
    (h : Throughout (fun b now => (tryConsume build b now).map Prod.snd) Fits b times) :
    exists served last, b.serve build times = some (served, last) ∧
      served.map Prod.fst = times := by
  induction times generalizing b with
  | nil => exact ⟨[], b, rfl, rfl⟩
  | cons now rest ih =>
      rcases tryConsume_of_fits build h.1 with ⟨admitted, b', hstep⟩
      have hrest := h.2 b' (Option.map_eq_some_iff.mpr ⟨(admitted, b'), hstep, rfl⟩)
      rcases ih hrest with ⟨more, last, hmore, htimes⟩
      refine ⟨(now, admitted) :: more, last, ?_, ?_⟩
      · show (b.tryConsume build now).bind _ = _
        rw [hstep, Option.bind_some, hmore]
        rfl
      · rw [List.map_cons, htimes]

/-- As long as all the tokens of the time that passed would fit, those of each request do. -/
theorem fits_until (build : Build) {b : Bucket K} {times : List K}
    (hsorted : (b.lastRefill :: times).Pairwise (fun s t => s <= t))
    (htokens : b.tokens <= b.maxTokens) {horizon : K} (hend : forall t, t ∈ times -> t <= horizon)
    (hroom : (b.maxTokens : K) + (horizon - b.lastRefill) * (b.refillRate : K) < 2 ^ 32) :
    Throughout (fun b now => (tryConsume build b now).map Prod.snd) Fits b times := by
  induction times generalizing b with
  | nil => exact trivial
  | cons now rest ih =>
      have hnow : b.lastRefill <= now := List.rel_of_pairwise_cons hsorted List.mem_cons_self
      have hmaxTokens : (b.tokens : K) <= (b.maxTokens : K) := by exact_mod_cast htokens
      have hlonger : (now - b.lastRefill) * (b.refillRate : K) <=
          (horizon - b.lastRefill) * (b.refillRate : K) :=
        mul_le_mul_of_nonneg_right (by linarith [hend now List.mem_cons_self])
          (Nat.cast_nonneg _)
      constructor
      · have hsum : ((b.tokens + b.refillAt now : Nat) : K) < ((2 ^ 32 : Nat) : K) := by
          push_cast
          linarith [refillAt_le hnow]
        exact_mod_cast hsum
      · intro b' hb'
        rcases Option.map_eq_some_iff.mp hb' with ⟨⟨admitted, left⟩, hstep, heq⟩
        cases heq
        have hnext := tryConsume_keeps hstep hsorted htokens
        rcases tryConsume_cases hstep hnow with ⟨⟨hmax, hrate⟩, hcases⟩
        have hlater : b.lastRefill <= left.lastRefill := by
          rcases hcases with ⟨hlast, -⟩ | ⟨hlast, -⟩
          · rw [hlast]
            exact hnow
          · exact le_of_eq hlast.symm
        apply ih hnext.2 hnext.1 (fun t ht => hend t (List.mem_cons_of_mem now ht))
        rw [hmax, hrate]
        have hshorter : (horizon - left.lastRefill) * (b.refillRate : K) <=
            (horizon - b.lastRefill) * (b.refillRate : K) :=
          mul_le_mul_of_nonneg_right (by linarith) (Nat.cast_nonneg _)
        linarith

end Bucket

/-- A new bucket answers every request, never holds more tokens than it may, and in no interval
admits more requests than those tokens and the ones of the length of the interval. -/
theorem bursts_are_bounded (build : Build) (maxTokens refillRate : Nat) (start : K)
    (times : List K) (hsorted : (start :: times).Pairwise (fun s t => s <= t))
    (hfits : Throughout (fun b now => (Bucket.tryConsume build b now).map Prod.snd) Bucket.Fits
      (Bucket.new maxTokens refillRate start) times) :
    exists served last,
      (Bucket.new maxTokens refillRate start).serve build times = some (served, last) ∧
        served.map Prod.fst = times ∧ last.tokens <= maxTokens ∧
        forall from_ to_, admittedIn from_ to_ served <=
          maxTokens + Nat.ceil ((to_ - from_) * (refillRate : K)) := by
  rcases Bucket.serve_of_fits build hfits with ⟨served, last, hserve, htimes⟩
  have htokens := Bucket.serve_tokens_le hserve hsorted (Nat.le_refl maxTokens)
  exact ⟨served, last, hserve, htimes, htokens.1, fun from_ to_ =>
    Bucket.admittedIn_le hserve hsorted (Nat.le_refl maxTokens) from_ to_⟩

end Bounds

/-- Two requests at once empty a bucket of two; a third waits for the refill. -/
theorem bursts_are_bounded_two : exists served last,
    (Bucket.new 2 1 (0 : Rat)).serve Build.checked [1 / 2, 1 / 2, 3 / 4, 1] =
      some (served, last) ∧
        served.map Prod.fst = [1 / 2, 1 / 2, 3 / 4, 1] ∧ last.tokens <= 2 ∧
        forall from_ to_, admittedIn from_ to_ served <=
          2 + Nat.ceil ((to_ - from_) * ((1 : Nat) : Rat)) := by
  have hsorted : ((0 : Rat) :: [1 / 2, 1 / 2, 3 / 4, 1]).Pairwise (fun s t => s <= t) := by
    decide +kernel
  have hfits := Bucket.fits_until Build.checked (b := Bucket.new 2 1 (0 : Rat)) hsorted
    (Nat.le_refl 2) (show forall t, t ∈ _ -> t <= (1 : Rat) by decide +kernel)
    (by norm_num [Bucket.new])
  exact bursts_are_bounded Build.checked 2 1 (0 : Rat) [1 / 2, 1 / 2, 3 / 4, 1] hsorted hfits

end Server
end MenteDb
