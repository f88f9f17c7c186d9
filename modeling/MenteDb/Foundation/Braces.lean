import MenteDb.Foundation.Overflow
import Mathlib.Data.List.Basic

/-!
# Braces outside quoted strings

A text is read from left to right: inside a quoted string braces do not count, and a
backslash there hides the character after it.  The level of a text is the number of braces
it opens less the number it closes.  A counter of 32 bits that follows the level comes to
one of two events: it returns to zero at a closing brace, or it overflows.
-/

namespace Foundation
namespace Braces

/-!
## The first event along a text
-/

section FirstEvent

variable {α β : Type}

/-- The shortest initial part, longer than what was seen, at which something happens. -/
def firstAt (event : List α -> Option β) : List α -> List α -> Option (List α × β)
  | _, [] => none
  | seen, c :: rest =>
      match event (seen ++ [c]) with
      | some b => some (seen ++ [c], b)
      | none => firstAt event (seen ++ [c]) rest

/-- Nothing happened before. -/
def Quiet (event : List α -> Option β) (u : List α) : Prop :=
  forall v, v ≠ [] -> v <+: u -> v ≠ u -> event v = none

theorem Quiet.nil (event : List α -> Option β) : Quiet event [] := by
  intro v hv hinit
  exact absurd (List.prefix_nil.mp hinit) hv

theorem Quiet.snoc {event : List α -> Option β} {seen : List α} (h : Quiet event seen)
    (hseen : seen = [] ∨ event seen = none) (c : α) : Quiet event (seen ++ [c]) := by
  intro v hv hinit hne
  rcases List.prefix_concat_iff.mp hinit with heq | hshort
  · exact absurd heq hne
  · by_cases heq : v = seen
    · rcases hseen with hnil | hnone
      · exact absurd (heq.trans hnil) hv
      · rw [heq]
        exact hnone
    · exact h v hv hshort heq

theorem firstAt_some {event : List α -> Option β} {seen rest u : List α} {b : β}
    (hquiet : Quiet event seen) (hseen : seen = [] ∨ event seen = none)
    (h : firstAt event seen rest = some (u, b)) :
    u ≠ [] ∧ u <+: seen ++ rest ∧ event u = some b ∧ Quiet event u := by
  induction rest generalizing seen with
  | nil => cases h
  | cons c rest ih =>
      have hnext := hquiet.snoc hseen c
      unfold firstAt at h
      rw [List.append_cons]
      cases hc : event (seen ++ [c]) with
      | none =>
          rw [hc] at h
          exact ih hnext (Or.inr hc) h
      | some b' =>
          rw [hc] at h
          cases h
          exact ⟨by simp, List.prefix_append _ _, hc, hnext⟩

theorem firstAt_none {event : List α -> Option β} {seen rest : List α}
    (h : firstAt event seen rest = none) {w : List α} (hw : w ≠ []) (hinit : w <+: rest) :
    event (seen ++ w) = none := by
  induction rest generalizing seen w with
  | nil => exact absurd (List.prefix_nil.mp hinit) hw
  | cons c rest ih =>
      unfold firstAt at h
      rcases List.prefix_cons_iff.mp hinit with hnil | ⟨t, ht, hrest⟩
      · exact absurd hnil hw
      · rw [ht]
        cases hc : event (seen ++ [c]) with
        | some b =>
            rw [hc] at h
            cases h
        | none =>
            rw [hc] at h
            by_cases hnil : t = []
            · rw [hnil]
              exact hc
            · rw [List.append_cons]
              exact ih h hnil hrest

theorem firstAt_eq_none_iff {event : List α -> Option β} {text : List α} :
    firstAt event [] text = none <-> forall u, u ≠ [] -> u <+: text -> event u = none := by
  constructor
  · intro h u hu hinit
    exact firstAt_none h hu hinit
  · intro h
    cases hfirst : firstAt event [] text with
    | none => rfl
    | some found =>
        have hspec := firstAt_some (Quiet.nil event) (Or.inl rfl) hfirst
        rw [h found.1 hspec.1 hspec.2.1] at hspec
        cases hspec.2.2.1

theorem firstAt_eq_some_iff {event : List α -> Option β} {text u : List α} {b : β} :
    firstAt event [] text = some (u, b) <->
      u ≠ [] ∧ u <+: text ∧ event u = some b ∧ Quiet event u := by
  constructor
  · intro h
    exact firstAt_some (Quiet.nil event) (Or.inl rfl) h
  · intro h
    rcases h with ⟨hu, hinit, hevent, hquiet⟩
    cases hfirst : firstAt event [] text with
    | none =>
        rw [firstAt_eq_none_iff.mp hfirst u hu hinit] at hevent
        cases hevent
    | some found =>
        rcases found with ⟨w, b'⟩
        rcases firstAt_some (Quiet.nil event) (Or.inl rfl) hfirst with
          ⟨hw, hwprefix, hwevent, hwquiet⟩
        -- of two first events neither is before the other
        have heq : w = u := by
          by_contra hne
          rcases List.prefix_or_prefix_of_prefix hwprefix hinit with hwu | huw
          · rw [hquiet w hw hwu hne] at hwevent
            cases hwevent
          · rw [hwquiet u hu huw (Ne.symm hne)] at hevent
            cases hevent
        rw [heq] at hwevent ⊢
        rw [hevent] at hwevent
        cases hwevent
        rfl

end FirstEvent

/-!
## Levels
-/

inductive Lex where
  | plain
  | quoted
  | escaped
deriving DecidableEq, Repr

namespace Lex

def next : Lex -> Char -> Lex
  | plain, c => if c = '"' then quoted else plain
  | quoted, c => if c = '\\' then escaped else if c = '"' then plain else quoted
  | escaped, _ => quoted

def weight : Lex -> Char -> Int
  | plain, c => if c = '{' then 1 else if c = '}' then -1 else 0
  | quoted, _ => 0
  | escaped, _ => 0

end Lex

theorem next_quoted {c : Char} (hquote : c ≠ '"') (hescape : c ≠ '\\') :
    Lex.quoted.next c = Lex.quoted := by
  show (if c = '\\' then _ else if c = '"' then _ else _) = _
  rw [if_neg hescape, if_neg hquote]

def endLex (m : Lex) (u : List Char) : Lex := u.foldl Lex.next m

def level : Lex -> List Char -> Int
  | _, [] => 0
  | m, c :: rest => m.weight c + level (m.next c) rest

@[simp] theorem endLex_nil (m : Lex) : endLex m [] = m := rfl

@[simp] theorem endLex_cons (m : Lex) (c : Char) (u : List Char) :
    endLex m (c :: u) = endLex (m.next c) u := rfl

@[simp] theorem endLex_append (m : Lex) (u v : List Char) :
    endLex m (u ++ v) = endLex (endLex m u) v := List.foldl_append

@[simp] theorem level_nil (m : Lex) : level m [] = 0 := rfl

@[simp] theorem level_cons (m : Lex) (c : Char) (u : List Char) :
    level m (c :: u) = m.weight c + level (m.next c) u := rfl

@[simp] theorem level_append (m : Lex) (u v : List Char) :
    level m (u ++ v) = level m u + level (endLex m u) v := by
  induction u generalizing m with
  | nil => rw [List.nil_append, level_nil, endLex_nil, Int.zero_add]
  | cons c u ih => rw [List.cons_append, level_cons, level_cons, endLex_cons, ih, Int.add_assoc]

theorem weight_plain (c : Char) :
    Lex.plain.weight c = if c = '{' then 1 else if c = '}' then -1 else 0 := rfl

@[simp] theorem weight_quoted (c : Char) : Lex.quoted.weight c = 0 := rfl

@[simp] theorem weight_escaped (c : Char) : Lex.escaped.weight c = 0 := rfl

theorem weight_ge (m : Lex) (c : Char) : -1 <= m.weight c := by
  cases m with
  | plain =>
      rw [weight_plain]
      split
      · omega
      · split <;> omega
  | quoted =>
      rw [weight_quoted]
      omega
  | escaped =>
      rw [weight_escaped]
      omega

/-- Only a closing brace outside strings lowers the level. -/
theorem falls {m : Lex} {c : Char} (h : m.weight c < 0) : m = Lex.plain ∧ c = '}' := by
  cases m with
  | plain =>
      rw [weight_plain] at h
      split at h
      · cases h
      · split at h
        · rename_i hc
          exact ⟨rfl, hc⟩
        · cases h
  | quoted => cases h
  | escaped => cases h

/-- A level below the highest is passed on the way down, at a closing brace. -/
theorem exists_fall {m : Lex} {d k : Int} {u : List Char} (hstart : k < d)
    (hend : d + level m u <= k) :
    exists v r, u = v ++ '}' :: r ∧ endLex m v = Lex.plain ∧ d + level m v = k + 1 := by
  induction u generalizing m d with
  | nil =>
      rw [level_nil] at hend
      omega
  | cons c u ih =>
      rw [level_cons] at hend
      by_cases hnext : k < d + m.weight c
      · rcases ih (m := m.next c) hnext (by omega) with ⟨v, r, hu, hlex, hlevel⟩
        refine ⟨c :: v, r, by rw [hu]; rfl, hlex, ?_⟩
        rw [level_cons, ← hlevel]
        omega
      · have hweight := weight_ge m c
        have hfall := falls (m := m) (c := c) (by omega)
        refine ⟨[], u, by rw [hfall.2]; rfl, hfall.1, ?_⟩
        rw [level_nil]
        have : m.weight c = -1 := by omega
        omega

/-!
## Events of a counter
-/

inductive Event where
  | closing
  | overflow
deriving DecidableEq, Repr

/-- What a counter of 32 bits meets at the end of a text. -/
def event (build : Build) (u : List Char) : Option Event :=
  match build.i32 (level Lex.plain u) with
  | none => some Event.overflow
  | some depth =>
      if depth = 0 ∧ endLex Lex.plain u.dropLast = Lex.plain ∧ u.getLast? = some '}' then
        some Event.closing
      else none

theorem event_eq_overflow_iff {build : Build} {u : List Char} :
    event build u = some Event.overflow <-> build.i32 (level Lex.plain u) = none := by
  unfold event
  cases build.i32 (level Lex.plain u) with
  | none => exact iff_of_true rfl rfl
  | some depth =>
      dsimp only
      split <;> simp

theorem event_eq_closing_iff {build : Build} {u : List Char} :
    event build u = some Event.closing <->
      build.i32 (level Lex.plain u) = some 0 ∧
        exists v, u = v ++ ['}'] ∧ endLex Lex.plain v = Lex.plain := by
  have hlast : (endLex Lex.plain u.dropLast = Lex.plain ∧ u.getLast? = some '}') <->
      exists v, u = v ++ ['}'] ∧ endLex Lex.plain v = Lex.plain := by
    constructor
    · intro h
      exact ⟨u.dropLast, (List.dropLast_append_getLast? _ h.2).symm, h.1⟩
    · intro h
      rcases h with ⟨v, hu, hlex⟩
      rw [hu, List.dropLast_concat, List.getLast?_concat]
      exact ⟨hlex, rfl⟩
  unfold event
  cases build.i32 (level Lex.plain u) with
  | none => simp
  | some depth =>
      dsimp only
      rw [← hlast]
      split
      · rename_i h
        exact iff_of_true rfl ⟨congrArg some h.1, h.2⟩
      · rename_i h
        refine iff_of_false (by simp) (fun hclose => h ⟨?_, hclose.2⟩)
        exact Option.some.inj hclose.1

/-- The event at the next character, from the counter and the reading so far. -/
theorem event_snoc {build : Build} {seen : List Char} {depth : Int}
    (hdepth : build.i32 (level Lex.plain seen) = some depth) (c : Char) :
    event build (seen ++ [c]) =
      match build.i32 (depth + (endLex Lex.plain seen).weight c) with
      | none => some Event.overflow
      | some next =>
          if next = 0 ∧ endLex Lex.plain seen = Lex.plain ∧ c = '}' then some Event.closing
          else none := by
  have hlevel : level Lex.plain (seen ++ [c]) =
      level Lex.plain seen + (endLex Lex.plain seen).weight c := by
    rw [level_append, level_cons, level_nil, Int.add_zero]
  unfold event
  rw [Build.i32_add hdepth, ← hlevel, List.dropLast_concat, List.getLast?_concat]
  simp only [Option.some.injEq]

/-- The counter after one more character without overflow. -/
theorem i32_level_snoc {build : Build} {seen : List Char} {depth : Int}
    (hdepth : build.i32 (level Lex.plain seen) = some depth) (c : Char) :
    build.i32 (level Lex.plain (seen ++ [c])) =
      build.i32 (depth + (endLex Lex.plain seen).weight c) := by
  rw [Build.i32_add hdepth, level_append, level_cons, level_nil, Int.add_zero]

/-!
## Balanced texts
-/

/-- The level stays between zero and the nesting, and comes back to zero outside strings. -/
structure Balanced (nesting : Nat) (t : List Char) : Prop where
  closed : endLex Lex.plain t = Lex.plain
  level_zero : level Lex.plain t = 0
  bounds : forall u, u <+: t -> 0 <= level Lex.plain u ∧ level Lex.plain u <= nesting
  reached : exists u, u <+: t ∧ level Lex.plain u = nesting

theorem prefix_append_cases {u s t : List Char} (h : u <+: s ++ t) :
    u <+: s ∨ exists w, u = s ++ w ∧ w <+: t := by
  rcases List.prefix_or_prefix_of_prefix h (List.prefix_append s t) with hu | ⟨w, hw⟩
  · exact Or.inl hu
  · rw [← hw] at h ⊢
    exact Or.inr ⟨w, rfl, (List.prefix_append_right_inj s).mp h⟩

theorem Balanced.nil : Balanced 0 [] := by
  refine ⟨rfl, rfl, ?_, ⟨[], List.prefix_rfl, rfl⟩⟩
  intro u hu
  rw [List.prefix_nil.mp hu]
  exact ⟨Int.le_refl 0, Int.le_refl 0⟩

theorem Balanced.append {n k : Nat} {s t : List Char} (hs : Balanced n s) (ht : Balanced k t) :
    Balanced (max n k) (s ++ t) := by
  refine ⟨?_, ?_, ?_, ?_⟩
  · rw [endLex_append, hs.closed, ht.closed]
  · rw [level_append, hs.closed, hs.level_zero, ht.level_zero, Int.add_zero]
  · intro u hu
    rcases prefix_append_cases hu with hleft | ⟨w, hw, hright⟩
    · have hbounds := hs.bounds u hleft
      omega
    · rw [hw, level_append, hs.closed, hs.level_zero, Int.zero_add]
      have hbounds := ht.bounds w hright
      omega
  · by_cases hle : k <= n
    · rcases hs.reached with ⟨u, hu, hlevel⟩
      exact ⟨u, hu.trans (List.prefix_append s t), by rw [hlevel, Nat.max_eq_left hle]⟩
    · rcases ht.reached with ⟨u, hu, hlevel⟩
      refine ⟨s ++ u, (List.prefix_append_right_inj s).mpr hu, ?_⟩
      rw [level_append, hs.closed, hs.level_zero, hlevel, Nat.max_eq_right (by omega),
        Int.zero_add]

/-- A character that is neither a quote nor a brace. -/
theorem Balanced.char {c : Char} (hquote : c ≠ '"') (hopen : c ≠ '{') (hclose : c ≠ '}') :
    Balanced 0 [c] := by
  have hweight : Lex.plain.weight c = 0 := by
    rw [weight_plain, if_neg hopen, if_neg hclose]
  have hnext : Lex.plain.next c = Lex.plain := if_neg hquote
  have hlevel : level Lex.plain [c] = 0 := by
    rw [level_cons, level_nil, hweight, Int.add_zero]
  refine ⟨hnext, hlevel, ?_, ⟨[], List.nil_prefix, rfl⟩⟩
  intro u hu
  rcases List.prefix_cons_iff.mp hu with hnil | ⟨v, hv, hrest⟩
  · rw [hnil]
    exact ⟨Int.le_refl 0, Int.le_refl 0⟩
  · rw [hv, List.prefix_nil.mp hrest, hlevel]
    exact ⟨Int.le_refl 0, Int.le_refl 0⟩

theorem Balanced.of_chars {t : List Char}
    (h : forall c, c ∈ t -> c ≠ '"' ∧ c ≠ '{' ∧ c ≠ '}') : Balanced 0 t := by
  induction t with
  | nil => exact Balanced.nil
  | cons c t ih =>
      have hc := h c List.mem_cons_self
      exact (Balanced.char hc.1 hc.2.1 hc.2.2).append
        (ih (fun d hd => h d (List.mem_cons_of_mem c hd)))

/-- The inside of a quoted string: no quote of its own, and a backslash always with the
character after it. -/
inductive Quoted : List Char -> Prop where
  | nil : Quoted []
  | char {c : Char} {t : List Char} : c ≠ '"' -> c ≠ '\\' -> Quoted t -> Quoted (c :: t)
  | escape {c : Char} {t : List Char} : Quoted t -> Quoted ('\\' :: c :: t)

theorem Quoted.endLex {t : List Char} (h : Quoted t) : endLex Lex.quoted t = Lex.quoted := by
  induction h with
  | nil => rfl
  | char hquote hescape ht ih =>
      rw [endLex_cons, next_quoted hquote hescape]
      exact ih
  | escape ht ih => exact ih

theorem Quoted.level {t u : List Char} (h : Quoted t) (hu : u <+: t) :
    level Lex.quoted u = 0 := by
  induction h generalizing u with
  | nil =>
      rw [List.prefix_nil.mp hu]
      rfl
  | @char c t hquote hescape ht ih =>
      rcases List.prefix_cons_iff.mp hu with hnil | ⟨v, hv, hrest⟩
      · rw [hnil]
        rfl
      · rw [hv, level_cons, next_quoted hquote hescape, weight_quoted, ih hrest, Int.add_zero]
  | @escape c t ht ih =>
      rcases List.prefix_cons_iff.mp hu with hnil | ⟨v, hv, hrest⟩
      · rw [hnil]
        rfl
      · rcases List.prefix_cons_iff.mp hrest with hnil | ⟨w, hw, hrest⟩
        · rw [hv, hnil]
          rfl
        · have hlevel := ih hrest
          rw [hv, hw, level_cons, level_cons]
          exact (Int.zero_add _).trans ((Int.zero_add _).trans hlevel)

/-- Braces in a quoted string do not count. -/
theorem Balanced.quoted {t : List Char} (h : Quoted t) : Balanced 0 ('"' :: (t ++ ['"'])) := by
  have hzero : forall u, u <+: t ++ ['"'] -> Braces.level Lex.quoted u = 0 := by
    intro u hu
    rcases List.prefix_concat_iff.mp hu with hall | hinside
    · rw [hall, level_append, h.level List.prefix_rfl, h.endLex]
      rfl
    · exact h.level hinside
  have hopen : forall u, Braces.level Lex.plain ('"' :: u) = Braces.level Lex.quoted u := by
    intro u
    exact Int.zero_add _
  refine ⟨?_, ?_, ?_, ⟨[], List.nil_prefix, rfl⟩⟩
  · show Braces.endLex Lex.quoted (t ++ ['"']) = Lex.plain
    rw [endLex_append, h.endLex]
    rfl
  · rw [hopen]
    exact hzero _ List.prefix_rfl
  · intro u hu
    rcases List.prefix_cons_iff.mp hu with hnil | ⟨v, hv, hrest⟩
    · rw [hnil]
      exact ⟨Int.le_refl 0, Int.le_refl 0⟩
    · rw [hv, hopen, hzero v hrest]
      exact ⟨Int.le_refl 0, Int.le_refl 0⟩

/-- Between its braces a balanced text is one level higher. -/
theorem Balanced.inside {n : Nat} {t : List Char} (h : Balanced n t) {u : List Char}
    (hu : u ≠ []) (hinit : u <+: '{' :: (t ++ ['}'])) (hne : u ≠ '{' :: (t ++ ['}'])) :
    1 <= level Lex.plain u ∧ level Lex.plain u <= n + 1 := by
  rcases List.prefix_cons_iff.mp hinit with hnil | ⟨v, hv, hrest⟩
  · exact absurd hnil hu
  · rcases List.prefix_concat_iff.mp hrest with hall | hinside
    · exact absurd (hv.trans (congrArg _ hall)) hne
    · have hbounds := h.bounds v hinside
      have hlevel : level Lex.plain u = 1 + level Lex.plain v := by
        rw [hv]
        rfl
      omega

theorem Balanced.enclose {n : Nat} {t : List Char} (h : Balanced n t) :
    Balanced (n + 1) ('{' :: (t ++ ['}'])) := by
  have hclosed : endLex Lex.plain ('{' :: (t ++ ['}'])) = Lex.plain := by
    show endLex Lex.plain (t ++ ['}']) = Lex.plain
    rw [endLex_append, h.closed]
    rfl
  have hzero : level Lex.plain ('{' :: (t ++ ['}'])) = 0 := by
    show 1 + level Lex.plain (t ++ ['}']) = 0
    rw [level_append, h.level_zero, h.closed]
    rfl
  refine ⟨hclosed, hzero, ?_, ?_⟩
  · intro u hu
    by_cases hnil : u = []
    · rw [hnil, level_nil]
      omega
    · by_cases hall : u = '{' :: (t ++ ['}'])
      · rw [hall, hzero]
        omega
      · have hinside := h.inside hnil hu hall
        omega
  · rcases h.reached with ⟨u, hu, hlevel⟩
    refine ⟨'{' :: u, (List.prefix_cons_inj _).mpr (hu.trans (List.prefix_append _ _)), ?_⟩
    show 1 + level Lex.plain u = _
    rw [hlevel]
    omega

/-!
## The brace that closes a text
-/

/-- The highest level that a counter of 32 bits follows down to the closing brace. -/
def highest : Build -> Nat
  | Build.checked => 2 ^ 31 - 1
  | Build.wrapping => 2 ^ 32

theorem event_eq_none {build : Build} {u : List Char}
    (hfits : build.i32 (level Lex.plain u) ≠ none)
    (hopen : build.i32 (level Lex.plain u) = some 0 ->
      forall v, u = v ++ ['}'] -> endLex Lex.plain v ≠ Lex.plain) : event build u = none := by
  cases hevent : event build u with
  | none => rfl
  | some e =>
      cases e with
      | overflow => exact absurd (event_eq_overflow_iff.mp hevent) hfits
      | closing =>
          rcases event_eq_closing_iff.mp hevent with ⟨hzero, v, hv, hlex⟩
          exact absurd hlex (hopen hzero v hv)

variable {n : Nat} {t : List Char}

theorem Balanced.quiet (h : Balanced n t) {build : Build} (hn : n + 1 <= highest build) :
    Quiet (event build) ('{' :: (t ++ ['}'])) := by
  intro u hu hinit hne
  have hinside := h.inside hu hinit hne
  cases build with
  | checked =>
      have hlow : n + 1 <= 2 ^ 31 - 1 := hn
      have hfits := Build.i32_of_mem Build.checked (z := level Lex.plain u) (by omega) (by omega)
      apply event_eq_none
      · rw [hfits]
        simp
      · intro hzero
        rw [hfits] at hzero
        have := Option.some.inj hzero
        omega
  | wrapping =>
      have hlow : n + 1 <= 2 ^ 32 := hn
      apply event_eq_none
      · rw [Build.i32_wrapping]
        simp
      · intro hzero v hv hlex
        rw [Build.i32_wrapping] at hzero
        have hdvd := Int.dvd_of_bmod_eq_zero (Option.some.inj hzero)
        have hfull : level Lex.plain u = 2 ^ 32 := by omega
        -- before its last brace the text would be one level higher still
        have hbefore : level Lex.plain u = level Lex.plain v - 1 := by
          rw [hv, level_append, hlex]
          rfl
        have hlong : v <+: u := by
          rw [hv]
          exact List.prefix_append v _
        have hvinside := h.inside (u := v) (by
          intro hnil
          rw [hnil, level_nil] at hbefore
          omega) (hlong.trans hinit) (by
          intro hall
          rw [hall, h.enclose.level_zero] at hbefore
          omega)
        omega

theorem Balanced.closes (h : Balanced n t) (build : Build) :
    event build ('{' :: (t ++ ['}'])) = some Event.closing := by
  apply event_eq_closing_iff.mpr
  rw [h.enclose.level_zero]
  refine ⟨Build.i32_of_mem build (by omega) (by omega), '{' :: t, rfl, ?_⟩
  exact h.closed

/-- Too high a level is not followed down. -/
theorem Balanced.not_quiet (h : Balanced n t) {build : Build} (hn : highest build < n + 1) :
    ¬ Quiet (event build) ('{' :: (t ++ ['}'])) := by
  intro hquiet
  have hall := h.enclose
  rcases hall.reached with ⟨u, ⟨w, hw⟩, hlevel⟩
  cases build with
  | checked =>
      have hhigh : 2 ^ 31 - 1 < n + 1 := hn
      have hoverflow : event Build.checked u = some Event.overflow := by
        apply event_eq_overflow_iff.mpr
        apply Build.i32_checked_of_le
        omega
      rw [hquiet u] at hoverflow
      · cases hoverflow
      · intro hnil
        rw [hnil, level_nil] at hlevel
        omega
      · exact ⟨w, hw⟩
      · intro heq
        rw [heq, hall.level_zero] at hlevel
        omega
  | wrapping =>
      have hhigh : 2 ^ 32 < n + 1 := hn
      have hend : level Lex.plain u + level (endLex Lex.plain u) w = 0 := by
        rw [← level_append, hw, hall.level_zero]
      have hstart : (2 ^ 32 : Int) < level Lex.plain u := by omega
      have hstop : level Lex.plain u + level (endLex Lex.plain u) w <= 2 ^ 32 := by omega
      rcases exists_fall hstart hstop with ⟨v, r, hfall, hlex, hdown⟩
      have hbrace : level Lex.plain (u ++ v ++ ['}']) = 2 ^ 32 := by
        rw [level_append, level_append, endLex_append, hlex]
        show _ + -1 = _
        omega
      have hclose : event Build.wrapping (u ++ v ++ ['}']) = some Event.closing := by
        apply event_eq_closing_iff.mpr
        rw [hbrace]
        refine ⟨rfl, u ++ v, rfl, ?_⟩
        rw [endLex_append]
        exact hlex
      rw [hquiet (u ++ v ++ ['}'])] at hclose
      · cases hclose
      · simp
      · refine ⟨r, ?_⟩
        rw [← hw, hfall]
        simp
      · intro heq
        rw [heq, hall.level_zero] at hbrace
        omega

/-- The counter comes back to zero at the brace that closes the text, if it ever does. -/
theorem Balanced.firstAt_iff (h : Balanced n t) (build : Build) (r : List Char) :
    firstAt (event build) [] ('{' :: (t ++ ['}']) ++ r) =
        some ('{' :: (t ++ ['}']), Event.closing) <-> n + 1 <= highest build := by
  rw [firstAt_eq_some_iff]
  constructor
  · intro hfirst
    by_contra hn
    exact h.not_quiet (Nat.lt_of_not_le hn) hfirst.2.2.2
  · intro hn
    exact ⟨List.cons_ne_nil _ _, List.prefix_append _ r, h.closes build, h.quiet hn⟩

end Braces
end Foundation
