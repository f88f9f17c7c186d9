import Mathlib.Data.List.Flatten
import MenteDb.Foundation.Machines
import MenteDb.Server.RateLimit

/-!
# A bucket for each client

The limiter keeps the buckets of all addresses under one lock.  The bucket of an address is made
at its first request.  A request whose sum overflows panics before it changes its bucket.
-/

namespace MenteDb
namespace Server

open Foundation

variable {A K : Type}

/-- The clock when a bucket would be made for a request, and when the request takes its token. -/
structure Arrival (K : Type) where
  opened : K
  now : K
deriving DecidableEq, Repr

structure RateLimiter (A K : Type) where
  buckets : A -> Option (Bucket K)
  maxTokens : Nat
  refillRate : Nat

def RateLimiter.new (maxTokens refillRate : Nat) : RateLimiter A K where
  buckets := fun _ => none
  maxTokens := maxTokens
  refillRate := refillRate

section Limiter

variable [Field K] [LinearOrder K] [FloorSemiring K]

/-- What happens under the lock: whether the request is allowed, if it does not panic, and the
bucket it leaves. -/
def consult (build : Build) (maxTokens refillRate : Nat) (entry : Option (Bucket K))
    (arrival : Arrival K) : Option Bool × Bucket K :=
  let bucket := entry.getD (Bucket.new maxTokens refillRate arrival.opened)
  match bucket.tryConsume build arrival.now with
  | some (allowed, left) => (some allowed, left)
  | none => (none, bucket)

namespace RateLimiter

variable [DecidableEq A]

def call (build : Build) (l : RateLimiter A K) (address : A) (arrival : Arrival K) :
    Option Bool × RateLimiter A K :=
  let admitted := consult build l.maxTokens l.refillRate (l.buckets address) arrival
  (admitted.1, { l with buckets := Function.update l.buckets address (some admitted.2) })

/-- The requests of all clients with their answers, and the limiter they leave. -/
def run (build : Build) : RateLimiter A K -> List (A × Arrival K) ->
    List (A × Arrival K × Option Bool) × RateLimiter A K
  | l, [] => ([], l)
  | l, (address, arrival) :: rest =>
      let answered := l.call build address arrival
      let later := run build answered.2 rest
      ((address, arrival, answered.1) :: later.1, later.2)

end RateLimiter

/-- The requests of one address. -/
def bucketMachine (build : Build) (maxTokens refillRate : Nat) :
    Machine (Option (Bucket K)) (Arrival K) (Arrival K × Option Bool) where
  next entry arrival := some (consult build maxTokens refillRate entry arrival).2
  answer entry arrival := [(arrival, (consult build maxTokens refillRate entry arrival).1)]

/-- The limiter is a bucket for each address. -/
theorem run_eq [DecidableEq A] (build : Build) (l : RateLimiter A K)
    (visits : List (A × Arrival K)) :
    l.run build visits =
      ((bucketMachine build l.maxTokens l.refillRate).perKey.answers l.buckets visits,
        { l with
          buckets := (bucketMachine build l.maxTokens l.refillRate).perKey.after l.buckets
            visits }) := by
  induction visits generalizing l with
  | nil => rfl
  | cons visit rest ih =>
      rcases visit with ⟨address, arrival⟩
      show (_ :: (((l.call build address arrival).2).run build rest).1, _) = _
      rw [ih]
      rfl

/-!
## One address
-/

/-- The requests that did not panic. -/
def answeredOf (answers : List (Arrival K × Option Bool)) : List (K × Bool) :=
  answers.filterMap (fun r => r.2.map (fun allowed => (r.1.now, allowed)))

variable {build : Build} {maxTokens refillRate : Nat}

theorem answers_cons (entry : Option (Bucket K)) (arrival : Arrival K) (rest : List (Arrival K)) :
    (bucketMachine build maxTokens refillRate).answers entry (arrival :: rest) =
      (arrival, (consult build maxTokens refillRate entry arrival).1) ::
        (bucketMachine build maxTokens refillRate).answers
          (some (consult build maxTokens refillRate entry arrival).2) rest := rfl

theorem after_cons (entry : Option (Bucket K)) (arrival : Arrival K) (rest : List (Arrival K)) :
    (bucketMachine build maxTokens refillRate).after entry (arrival :: rest) =
      (bucketMachine build maxTokens refillRate).after
        (some (consult build maxTokens refillRate entry arrival).2) rest := rfl

theorem consult_of_eq_none {b : Bucket K} {arrival : Arrival K}
    (h : b.tryConsume build arrival.now = none) :
    consult build maxTokens refillRate (some b) arrival = (none, b) := by
  simp only [consult, Option.getD_some, h]

theorem consult_of_eq_some {b left : Bucket K} {arrival : Arrival K} {allowed : Bool}
    (h : b.tryConsume build arrival.now = some (allowed, left)) :
    consult build maxTokens refillRate (some b) arrival = (some allowed, left) := by
  simp only [consult, Option.getD_some, h]

/-- A bucket serves the requests that do not panic as if there were no others. -/
theorem serve_answeredOf (b : Bucket K) (arrivals : List (Arrival K)) :
    exists last, (bucketMachine build maxTokens refillRate).after (some b) arrivals = some last ∧
      b.serve build ((answeredOf
        ((bucketMachine build maxTokens refillRate).answers (some b) arrivals)).map Prod.fst) =
      some (answeredOf ((bucketMachine build maxTokens refillRate).answers (some b) arrivals),
        last) := by
  induction arrivals generalizing b with
  | nil => exact ⟨b, rfl, rfl⟩
  | cons arrival rest ih =>
      rw [answers_cons, after_cons]
      cases hstep : b.tryConsume build arrival.now with
      | none =>
          rw [consult_of_eq_none hstep]
          exact ih b
      | some r =>
          rcases r with ⟨allowed, left⟩
          rw [consult_of_eq_some hstep]
          rcases ih left with ⟨last, hafter, hserve⟩
          refine ⟨last, hafter, ?_⟩
          show (b.tryConsume build arrival.now).bind _ = _
          rw [hstep, Option.bind_some]
          exact Option.map_eq_some_iff.mpr ⟨_, hserve, rfl⟩

/-- The first request of an address finds a full bucket. -/
theorem answers_first (arrival : Arrival K) (rest : List (Arrival K)) :
    (bucketMachine build maxTokens refillRate).answers none (arrival :: rest) =
      (bucketMachine build maxTokens refillRate).answers
        (some (Bucket.new maxTokens refillRate arrival.opened)) (arrival :: rest) := rfl

theorem after_first (arrival : Arrival K) (rest : List (Arrival K)) :
    (bucketMachine build maxTokens refillRate).after none (arrival :: rest) =
      (bucketMachine build maxTokens refillRate).after
        (some (Bucket.new maxTokens refillRate arrival.opened)) (arrival :: rest) := rfl

end Limiter

/-!
## The clock
-/

/-- What the clock reads, request after request. -/
def readings (arrivals : List (Arrival K)) : List K :=
  arrivals.flatMap (fun arrival => [arrival.opened, arrival.now])

theorem ofKey_sublist [DecidableEq A] {β : Type} (a : A) (pairs : List (A × β)) :
    (Machine.ofKey a pairs).Sublist (pairs.map Prod.snd) := by
  induction pairs with
  | nil => exact List.Sublist.slnil
  | cons p rest ih =>
      rcases p with ⟨b, x⟩
      by_cases h : b = a
      · rw [h, Machine.ofKey_cons_self]
        exact ih.cons_cons x
      · rw [Machine.ofKey_cons_of_ne h]
        exact ih.cons x

theorem now_sublist_readings (arrivals : List (Arrival K)) :
    (arrivals.map Arrival.now).Sublist (readings arrivals) := by
  induction arrivals with
  | nil => exact List.Sublist.slnil
  | cons arrival rest ih => exact (ih.cons_cons arrival.now).cons arrival.opened

section Order

variable [LinearOrder K] {start : K} {past : List (Arrival K)} {arrival : Arrival K}

theorem clock_concat (h : (start :: readings (past ++ [arrival])).Pairwise (fun s t => s <= t)) :
    (start :: readings past).Pairwise (fun s t => s <= t) ∧ start <= arrival.opened ∧
      arrival.opened <= arrival.now ∧ forall earlier, earlier ∈ past ->
        earlier.now <= arrival.now := by
  have hsplit : start :: readings (past ++ [arrival]) =
      (start :: readings past) ++ [arrival.opened, arrival.now] := by
    unfold readings
    rw [List.flatMap_append]
    rfl
  rw [hsplit] at h
  rcases List.pairwise_append.mp h with ⟨hpast, hlast, hcross⟩
  refine ⟨hpast, hcross start List.mem_cons_self _ List.mem_cons_self,
    List.rel_of_pairwise_cons hlast List.mem_cons_self, ?_⟩
  intro earlier hearlier
  refine hcross earlier.now (List.mem_cons_of_mem start ?_) arrival.now
    (List.mem_cons_of_mem _ List.mem_cons_self)
  exact (now_sublist_readings past).subset (List.mem_map_of_mem hearlier)

end Order

section Bounds

variable [Field K] [LinearOrder K] [FloorSemiring K]
variable {build : Build} {maxTokens refillRate : Nat}

theorem times_sublist (entry : Option (Bucket K)) (arrivals : List (Arrival K)) :
    ((answeredOf ((bucketMachine build maxTokens refillRate).answers entry arrivals)).map
      Prod.fst).Sublist (arrivals.map Arrival.now) := by
  induction arrivals generalizing entry with
  | nil => exact List.Sublist.slnil
  | cons arrival rest ih =>
      rw [answers_cons]
      have hrest := ih (some (consult build maxTokens refillRate entry arrival).2)
      cases (consult build maxTokens refillRate entry arrival).1 with
      | none => exact hrest.cons arrival.now
      | some allowed => exact hrest.cons_cons arrival.now

variable [IsStrictOrderedRing K]

variable (build maxTokens refillRate) in
theorem bounded_of_clock {arrivals : List (Arrival K)}
    (hclock : (readings arrivals).Pairwise (fun s t => s <= t)) :
    (forall from_ to_, admittedIn from_ to_
        (answeredOf ((bucketMachine build maxTokens refillRate).answers none arrivals)) <=
      maxTokens + Nat.ceil ((to_ - from_) * (refillRate : K))) ∧
    forall b, (bucketMachine build maxTokens refillRate).after none arrivals = some b ->
      b.tokens <= maxTokens := by
  cases arrivals with
  | nil => exact ⟨fun _ _ => Nat.zero_le _, nofun⟩
  | cons arrival rest =>
      rw [answers_first, after_first]
      rcases serve_answeredOf (Bucket.new maxTokens refillRate arrival.opened)
        (arrival :: rest) with ⟨last, hafter, hserve⟩
      have htimes : (arrival.opened :: (answeredOf ((bucketMachine build maxTokens
          refillRate).answers (some (Bucket.new maxTokens refillRate arrival.opened))
            (arrival :: rest))).map Prod.fst).Sublist (readings (arrival :: rest)) :=
        ((times_sublist _ (arrival :: rest)).trans
          ((now_sublist_readings rest).cons_cons arrival.now)).cons_cons arrival.opened
      have hsorted := hclock.sublist htimes
      refine ⟨fun from_ to_ => ?_, ?_⟩
      · exact Bucket.admittedIn_le hserve hsorted (Nat.le_refl maxTokens) from_ to_
      · intro b hb
        rw [hafter] at hb
        cases hb
        exact (Bucket.serve_tokens_le hserve hsorted (Nat.le_refl maxTokens)).1

/-!
## Patience
-/

/-- A bucket as a request finds it. -/
structure Found (maxTokens refillRate : Nat) (start now : K) (b : Bucket K) : Prop where
  tokens : b.tokens <= maxTokens
  max : b.maxTokens = maxTokens
  rate : b.refillRate = refillRate
  late : start <= b.lastRefill
  early : b.lastRefill <= now

variable {start : K}

theorem Found.consult {now : K} {b left : Bucket K} {allowed : Bool}
    (hb : Found maxTokens refillRate start now b)
    (h : b.tryConsume build now = some (allowed, left)) :
    Found maxTokens refillRate start now left := by
  rcases Bucket.tryConsume_cases h hb.early with ⟨⟨hmax, hrate⟩, hcases⟩
  have hlimit := hb.max
  rcases hcases with ⟨hlast, hfits, -⟩ | ⟨hlast, hkept, -⟩
  · refine ⟨by omega, hmax.trans hb.max, hrate.trans hb.rate, ?_, le_of_eq hlast⟩
    rw [hlast]
    exact hb.late.trans hb.early
  · have htokens := hb.tokens
    refine ⟨by omega, hmax.trans hb.max, hrate.trans hb.rate, ?_, ?_⟩
    · rw [hlast]
      exact hb.late
    · rw [hlast]
      exact hb.early

/-- A request leaves its bucket as it was at some request. -/
theorem found_after {arrivals : List (Arrival K)}
    (hclock : (start :: readings arrivals).Pairwise (fun s t => s <= t)) {b : Bucket K}
    (h : (bucketMachine build maxTokens refillRate).after none arrivals = some b) :
    exists earlier, earlier ∈ arrivals ∧ Found maxTokens refillRate start earlier.now b := by
  induction arrivals using List.reverseRecOn generalizing b with
  | nil => cases h
  | append_singleton past arrival ih =>
      rcases clock_concat hclock with ⟨hpast, hstart, hopened, hlater⟩
      refine ⟨arrival, List.mem_append_right past List.mem_cons_self, ?_⟩
      have hentry : Found maxTokens refillRate start arrival.now
          (((bucketMachine build maxTokens refillRate).after none past).getD
            (Bucket.new maxTokens refillRate arrival.opened)) := by
        cases hafter : (bucketMachine build maxTokens refillRate).after none past with
        | none => exact ⟨Nat.le_refl maxTokens, rfl, rfl, hstart, hopened⟩
        | some b' =>
            rcases ih hpast hafter with ⟨earlier, hearlier, hfound⟩
            exact { hfound with early := hfound.early.trans (hlater earlier hearlier) }
      rw [Machine.after_concat] at h
      have hleft : (consult build maxTokens refillRate
          ((bucketMachine build maxTokens refillRate).after none past) arrival).2 = b :=
        Option.some.inj h
      rw [← hleft]
      simp only [Server.consult]
      split
      · rename_i allowed left hstep
        exact hentry.consult hstep
      · exact hentry

/-- A bucket that is not empty or gains a token lets a request pass. -/
theorem Found.passes {now : K} {b : Bucket K} (hb : Found maxTokens refillRate start now b)
    (hcapacity : 0 < maxTokens)
    (hroom : (maxTokens : K) + (now - start) * (refillRate : K) < 2 ^ 32)
    (hready : 0 < b.tokens ∨ 1 <= (now - b.lastRefill) * (refillRate : K)) :
    exists left, b.tryConsume build now = some (true, left) := by
  have hrefill := Bucket.refillAt_le hb.early
  rw [hb.rate] at hrefill
  have htokens : (b.tokens : K) <= (maxTokens : K) := by exact_mod_cast hb.tokens
  have hlonger : (now - b.lastRefill) * (refillRate : K) <= (now - start) * (refillRate : K) :=
    mul_le_mul_of_nonneg_right (by linarith [hb.late]) (Nat.cast_nonneg _)
  have hfits : b.tokens + b.refillAt now < 2 ^ 32 := by
    have hsum : ((b.tokens + b.refillAt now : Nat) : K) < ((2 ^ 32 : Nat) : K) := by
      push_cast
      linarith
    exact_mod_cast hsum
  unfold Bucket.tryConsume Bucket.refill
  split
  · rename_i hgains
    rw [build.addU32_of_lt hfits]
    refine ⟨_, congrArg some (if_pos ?_)⟩
    show 0 < min (b.tokens + b.refillAt now) b.maxTokens
    rw [hb.max]
    omega
  · rename_i hnone
    have hzero : b.refillAt now = 0 := Nat.eq_zero_of_not_pos hnone
    unfold Bucket.refillAt at hzero
    rw [max_eq_left (sub_nonneg.mpr hb.early), hb.rate] at hzero
    have hshort := Bucket.lt_one_of_castU32_eq_zero hzero
    rcases hready with hpos | hlong
    · exact ⟨_, congrArg some (if_pos hpos)⟩
    · exact absurd hlong (not_le.mpr hshort)

variable (build) in
/-- Who waits for a token gets it. -/
theorem admitted_of_patience {past : List (Arrival K)} {arrival : Arrival K}
    (hclock : (start :: readings (past ++ [arrival])).Pairwise (fun s t => s <= t))
    (hcapacity : 0 < maxTokens)
    (hroom : (maxTokens : K) + (arrival.now - start) * (refillRate : K) < 2 ^ 32)
    (hpatient : forall earlier, earlier ∈ past ->
      1 <= (arrival.now - earlier.now) * (refillRate : K)) :
    (consult build maxTokens refillRate
      ((bucketMachine build maxTokens refillRate).after none past) arrival).1 = some true := by
  rcases clock_concat hclock with ⟨hpast, hstart, hopened, hlater⟩
  have hpasses : exists left,
      (((bucketMachine build maxTokens refillRate).after none past).getD
        (Bucket.new maxTokens refillRate arrival.opened)).tryConsume build arrival.now =
          some (true, left) := by
    cases hafter : (bucketMachine build maxTokens refillRate).after none past with
    | none =>
        have hfull : Found maxTokens refillRate start arrival.now
            (Bucket.new maxTokens refillRate arrival.opened) :=
          ⟨Nat.le_refl maxTokens, rfl, rfl, hstart, hopened⟩
        exact hfull.passes hcapacity hroom (Or.inl hcapacity)
    | some b =>
        rcases found_after hpast hafter with ⟨earlier, hearlier, hfound⟩
        have hnow : Found maxTokens refillRate start arrival.now b :=
          { hfound with early := hfound.early.trans (hlater earlier hearlier) }
        refine hnow.passes hcapacity hroom (Or.inr ?_)
        refine (hpatient earlier hearlier).trans ?_
        exact mul_le_mul_of_nonneg_right (by linarith [hfound.early]) (Nat.cast_nonneg _)
  rcases hpasses with ⟨left, hstep⟩
  simp only [Server.consult, hstep]

omit [IsStrictOrderedRing K] in
theorem after_ne_none_iff {arrivals : List (Arrival K)} :
    (bucketMachine build maxTokens refillRate).after none arrivals ≠ none <-> arrivals ≠ [] := by
  induction arrivals using List.reverseRecOn with
  | nil => exact ⟨fun h => absurd rfl h, fun h => absurd rfl h⟩
  | append_singleton past arrival ih =>
      rw [Machine.after_concat]
      exact ⟨fun _ => List.concat_ne_nil arrival past, fun _ => nofun⟩

/-- However the requests of many clients are interleaved: the answers to an address are those of
one bucket with its own requests; in no interval more of them are admitted than a full bucket and
the tokens of its length; the limiter has buckets for exactly those who came, none with more
tokens than it may hold; and a request is admitted if one token's time has passed since all
earlier requests of its address, whatever the other clients did. -/
theorem clients_are_limited_apart [DecidableEq A] (build : Build) (maxTokens refillRate : Nat)
    (start : K) (visits : List (A × Arrival K))
    (hclock : (start :: readings (visits.map Prod.snd)).Pairwise (fun s t => s <= t))
    (address : A) :
    let ended := (RateLimiter.new maxTokens refillRate : RateLimiter A K).run build visits
    Machine.ofKey address ended.1 =
        (bucketMachine build maxTokens refillRate).answers none
          (Machine.ofKey address visits) ∧
      (forall from_ to_, admittedIn from_ to_ (answeredOf (Machine.ofKey address ended.1)) <=
        maxTokens + Nat.ceil ((to_ - from_) * (refillRate : K))) ∧
      (forall b, ended.2.buckets address = some b -> b.tokens <= maxTokens) ∧
      (ended.2.buckets address ≠ none <-> exists arrival, (address, arrival) ∈ visits) ∧
      forall past arrival, visits = past ++ [(address, arrival)] -> 0 < maxTokens ->
        (maxTokens : K) + (arrival.now - start) * (refillRate : K) < 2 ^ 32 ->
        (forall earlier, (address, earlier) ∈ past ->
          1 <= (arrival.now - earlier.now) * (refillRate : K)) ->
        exists others, ended.1 = others ++ [(address, arrival, some true)] := by
  intro ended
  have hended : ended = _ := run_eq build _ visits
  have hanswers : Machine.ofKey address ended.1 =
      (bucketMachine build maxTokens refillRate).answers none (Machine.ofKey address visits) := by
    rw [hended]
    exact Machine.answers_perKey _ _ visits address
  have hbucket : ended.2.buckets address =
      (bucketMachine build maxTokens refillRate).after none (Machine.ofKey address visits) := by
    rw [hended]
    exact Machine.after_perKey _ _ visits address
  have hown : (start :: readings (Machine.ofKey address visits)).Pairwise (fun s t => s <= t) :=
    hclock.sublist (((ofKey_sublist address visits).flatMap _).cons_cons start)
  have hbounds := bounded_of_clock build maxTokens refillRate (List.pairwise_cons.mp hown).2
  rw [hanswers, hbucket]
  refine ⟨rfl, hbounds.1, hbounds.2, ?_, ?_⟩
  · rw [after_ne_none_iff]
    constructor
    · intro hcame
      rcases List.exists_mem_of_ne_nil _ hcame with ⟨arrival, harrival⟩
      exact ⟨arrival, Machine.mem_ofKey.mp harrival⟩
    · rintro ⟨arrival, harrival⟩
      exact List.ne_nil_of_mem (Machine.mem_ofKey.mpr harrival)
  · intro past arrival hvisits hcapacity hroom hpatient
    have hsplit : Machine.ofKey address visits = Machine.ofKey address past ++ [arrival] := by
      rw [hvisits, Machine.ofKey_append, Machine.ofKey_cons_self]
      rfl
    rw [hsplit] at hown
    have hadmitted := admitted_of_patience build hown hcapacity hroom
      (fun earlier hearlier => hpatient earlier (Machine.mem_ofKey.mp hearlier))
    rw [← Machine.after_perKey _ (fun _ => none) past address] at hadmitted
    refine ⟨(bucketMachine build maxTokens refillRate).perKey.answers (fun _ => none) past, ?_⟩
    rw [hended, hvisits]
    show (bucketMachine build maxTokens refillRate).perKey.answers (fun _ => none)
      (past ++ [(address, arrival)]) = _
    rw [Machine.answers_concat]
    refine congrArg (fun l => _ ++ l) ?_
    show [(address, arrival, (consult build maxTokens refillRate _ arrival).1)] = _
    rw [hadmitted]

end Bounds

/-- One client uses its only token, and another one comes. -/
def firstVisits : List (Nat × Arrival Rat) := [(7, ⟨0, 0⟩), (9, ⟨1 / 2, 1 / 2⟩)]

/-- The first client comes again after a second. -/
def lastVisit : Arrival Rat := ⟨1, 1⟩

theorem clients_are_limited_apart_two : exists others,
    ((RateLimiter.new 1 1 : RateLimiter Nat Rat).run Build.checked
      (firstVisits ++ [(7, lastVisit)])).1 = others ++ [(7, lastVisit, some true)] := by
  have hclock : ((0 : Rat) :: readings ((firstVisits ++ [(7, lastVisit)]).map Prod.snd)).Pairwise
      (fun s t => s <= t) := by
    decide +kernel
  have hpatient : forall earlier, (7, earlier) ∈ firstVisits ->
      1 <= ((1 : Rat) - earlier.now) * ((1 : Nat) : Rat) := by
    intro earlier hearlier
    simp only [firstVisits, List.mem_cons, Prod.mk.injEq, List.not_mem_nil, or_false] at hearlier
    rcases hearlier with ⟨-, heq⟩ | ⟨hother, -⟩
    · rw [heq]
      norm_num
    · cases hother
  exact (clients_are_limited_apart Build.checked 1 1 0 _ hclock 7).2.2.2.2 firstVisits lastVisit
    rfl Nat.one_pos (by norm_num [lastVisit]) hpatient

end Server
end MenteDb
