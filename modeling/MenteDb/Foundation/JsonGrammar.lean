import MenteDb.Foundation.Braces

/-!
# The grammar of JSON

The texts of JSON, each with how deep objects are nested in it.  Whatever a string holds,
the braces of such a text are balanced.
-/

namespace Foundation
namespace Json

def Blank (t : List Char) : Prop :=
  forall c, c ∈ t -> c = ' ' ∨ c = '\t' ∨ c = '\n' ∨ c = '\r'

def IsDigit (c : Char) : Prop := 48 <= c.toNat ∧ c.toNat <= 57

def Digits (t : List Char) : Prop := t ≠ [] ∧ forall c, c ∈ t -> IsDigit c

/-- An integer part has no leading zero. -/
def IntPart (t : List Char) : Prop := Digits t ∧ (t.head? = some '0' -> t = ['0'])

def FracPart (t : List Char) : Prop := t = [] ∨ exists ds, t = '.' :: ds ∧ Digits ds

def ExpPart (t : List Char) : Prop :=
  t = [] ∨ exists e sign ds, t = e :: (sign ++ ds) ∧ (e = 'e' ∨ e = 'E') ∧
    (sign = [] ∨ sign = ['+'] ∨ sign = ['-']) ∧ Digits ds

def IsNumber (t : List Char) : Prop :=
  exists sign ip frac exp, t = sign ++ (ip ++ (frac ++ exp)) ∧ (sign = [] ∨ sign = ['-']) ∧
    IntPart ip ∧ FracPart frac ∧ ExpPart exp

def IsHex (c : Char) : Prop :=
  IsDigit c ∨ (65 <= c.toNat ∧ c.toNat <= 70) ∨ (97 <= c.toNat ∧ c.toNat <= 102)

/-- The characters of a string between its quotes. -/
inductive StringBody : List Char -> Prop where
  | nil : StringBody []
  | char {c : Char} {t : List Char} :
      32 <= c.toNat -> c ≠ '"' -> c ≠ '\\' -> StringBody t -> StringBody (c :: t)
  | escape {c : Char} {t : List Char} :
      c ∈ ['"', '\\', '/', 'b', 'f', 'n', 'r', 't'] -> StringBody t -> StringBody ('\\' :: c :: t)
  | unicode {a b c d : Char} {t : List Char} :
      IsHex a -> IsHex b -> IsHex c -> IsHex d -> StringBody t ->
        StringBody ('\\' :: 'u' :: a :: b :: c :: d :: t)

def IsString (t : List Char) : Prop := exists body, StringBody body ∧ t = '"' :: (body ++ ['"'])

inductive Kind where
  | value
  | element
  | elements
  | member
  | members
  | object
deriving DecidableEq, Repr

/-- A text of the kind, with objects nested that deep. -/
inductive Derives : Kind -> Nat -> List Char -> Prop where
  | null : Derives Kind.value 0 ['n', 'u', 'l', 'l']
  | true : Derives Kind.value 0 ['t', 'r', 'u', 'e']
  | false : Derives Kind.value 0 ['f', 'a', 'l', 's', 'e']
  | number {t : List Char} : IsNumber t -> Derives Kind.value 0 t
  | string {t : List Char} : IsString t -> Derives Kind.value 0 t
  | emptyArray {b : List Char} : Blank b -> Derives Kind.value 0 ('[' :: (b ++ [']']))
  | array {n : Nat} {t : List Char} :
      Derives Kind.elements n t -> Derives Kind.value n ('[' :: (t ++ [']']))
  | ofObject {n : Nat} {t : List Char} : Derives Kind.object n t -> Derives Kind.value n t
  | element {n : Nat} {a t b : List Char} :
      Blank a -> Derives Kind.value n t -> Blank b -> Derives Kind.element n (a ++ (t ++ b))
  | lastElement {n : Nat} {t : List Char} :
      Derives Kind.element n t -> Derives Kind.elements n t
  | moreElements {n k : Nat} {t s : List Char} :
      Derives Kind.element n t -> Derives Kind.elements k s ->
        Derives Kind.elements (max n k) (t ++ ',' :: s)
  | member {n : Nat} {a key b t : List Char} :
      Blank a -> IsString key -> Blank b -> Derives Kind.element n t ->
        Derives Kind.member n (a ++ (key ++ (b ++ ':' :: t)))
  | lastMember {n : Nat} {t : List Char} : Derives Kind.member n t -> Derives Kind.members n t
  | moreMembers {n k : Nat} {t s : List Char} :
      Derives Kind.member n t -> Derives Kind.members k s ->
        Derives Kind.members (max n k) (t ++ ',' :: s)
  | emptyObject {b : List Char} : Blank b -> Derives Kind.object 1 ('{' :: (b ++ ['}']))
  | object {n : Nat} {t : List Char} :
      Derives Kind.members n t -> Derives Kind.object (n + 1) ('{' :: (t ++ ['}']))

/-!
## Balance
-/

open Braces

theorem Blank.balanced {t : List Char} (h : Blank t) : Balanced 0 t := by
  apply Balanced.of_chars
  intro c hc
  rcases h c hc with rfl | rfl | rfl | rfl <;> decide

theorem balanced_literal {t : List Char}
    (h : t.all (fun c => c != '"' && c != '{' && c != '}') = true) : Balanced 0 t := by
  apply Balanced.of_chars
  intro c hc
  have hneutral := List.all_eq_true.mp h c hc
  rw [Bool.and_eq_true, Bool.and_eq_true, bne_iff_ne, bne_iff_ne, bne_iff_ne] at hneutral
  exact ⟨hneutral.1.1, hneutral.1.2, hneutral.2⟩

theorem IsDigit.neutral {c : Char} (h : IsDigit c) : c ≠ '"' ∧ c ≠ '{' ∧ c ≠ '}' := by
  refine ⟨?_, ?_, ?_⟩
  · rintro rfl
    exact absurd h.1 (by decide)
  · rintro rfl
    exact absurd h.2 (by decide)
  · rintro rfl
    exact absurd h.2 (by decide)

theorem Digits.balanced {t : List Char} (h : Digits t) : Balanced 0 t :=
  Balanced.of_chars (fun c hc => (h.2 c hc).neutral)

theorem FracPart.balanced {t : List Char} (h : FracPart t) : Balanced 0 t := by
  rcases h with h | ⟨ds, h, hds⟩
  · rw [h]
    exact Balanced.nil
  · rw [h]
    exact (Balanced.char (c := '.') (by decide) (by decide) (by decide)).append hds.balanced

theorem ExpPart.balanced {t : List Char} (h : ExpPart t) : Balanced 0 t := by
  rcases h with h | ⟨e, sign, ds, h, he, hsign, hds⟩
  · rw [h]
    exact Balanced.nil
  · have hletter : Balanced 0 [e] := by
      rcases he with rfl | rfl
      · exact Balanced.char (by decide) (by decide) (by decide)
      · exact Balanced.char (by decide) (by decide) (by decide)
    have hplus : Balanced 0 sign := by
      rcases hsign with rfl | rfl | rfl
      · exact Balanced.nil
      · exact Balanced.char (by decide) (by decide) (by decide)
      · exact Balanced.char (by decide) (by decide) (by decide)
    rw [h]
    exact hletter.append (hplus.append hds.balanced)

theorem IsNumber.balanced {t : List Char} (h : IsNumber t) : Balanced 0 t := by
  rcases h with ⟨sign, ip, frac, exp, h, hsign, hint, hfrac, hexp⟩
  have hminus : Balanced 0 sign := by
    rcases hsign with rfl | rfl
    · exact Balanced.nil
    · exact Balanced.char (by decide) (by decide) (by decide)
  rw [h]
  exact hminus.append (hint.1.balanced.append (hfrac.balanced.append hexp.balanced))

theorem IsHex.plain {c : Char} (h : IsHex c) : c ≠ '"' ∧ c ≠ '\\' := by
  unfold IsHex IsDigit at h
  constructor
  · rintro rfl
    revert h
    decide
  · rintro rfl
    revert h
    decide

theorem StringBody.quoted {t : List Char} (h : StringBody t) : Quoted t := by
  induction h with
  | nil => exact Quoted.nil
  | char hprintable hquote hescape ht ih => exact Quoted.char hquote hescape ih
  | escape hc ht ih => exact Quoted.escape ih
  | unicode ha hb hc hd ht ih =>
      apply Quoted.escape
      apply Quoted.char ha.plain.1 ha.plain.2
      apply Quoted.char hb.plain.1 hb.plain.2
      apply Quoted.char hc.plain.1 hc.plain.2
      exact Quoted.char hd.plain.1 hd.plain.2 ih

theorem IsString.balanced {t : List Char} (h : IsString t) : Balanced 0 t := by
  rcases h with ⟨body, hbody, h⟩
  rw [h]
  exact Balanced.quoted hbody.quoted

/-- In front of a balanced text, and after it, nothing changes the nesting. -/
theorem balanced_between {n : Nat} {a t b : List Char} (ha : Balanced 0 a) (ht : Balanced n t)
    (hb : Balanced 0 b) : Balanced n (a ++ (t ++ b)) := by
  have hall := ha.append (ht.append hb)
  rw [Nat.max_zero, Nat.zero_max] at hall
  exact hall

theorem Derives.balanced {kind : Kind} {n : Nat} {t : List Char} (h : Derives kind n t) :
    Balanced n t := by
  have hcomma : Balanced 0 [','] := Balanced.char (by decide) (by decide) (by decide)
  have hcolon : Balanced 0 [':'] := Balanced.char (by decide) (by decide) (by decide)
  have hopen : Balanced 0 ['['] := Balanced.char (by decide) (by decide) (by decide)
  have hclose : Balanced 0 [']'] := Balanced.char (by decide) (by decide) (by decide)
  induction h with
  | null => exact balanced_literal rfl
  | true => exact balanced_literal rfl
  | false => exact balanced_literal rfl
  | number h => exact h.balanced
  | string h => exact h.balanced
  | emptyArray hb => exact balanced_between hopen hb.balanced hclose
  | array ht ih => exact balanced_between hopen ih hclose
  | ofObject ht ih => exact ih
  | element ha ht hb ih => exact balanced_between ha.balanced ih hb.balanced
  | lastElement ht ih => exact ih
  | moreElements ht hs iht ihs =>
      have hrest := hcomma.append ihs
      rw [Nat.zero_max] at hrest
      exact iht.append hrest
  | member ha hkey hb ht ih =>
      have hall := ha.balanced.append (hkey.balanced.append (hb.balanced.append (hcolon.append ih)))
      rw [Nat.zero_max, Nat.zero_max, Nat.zero_max, Nat.zero_max] at hall
      exact hall
  | lastMember ht ih => exact ih
  | moreMembers ht hs iht ihs =>
      have hrest := hcomma.append ihs
      rw [Nat.zero_max] at hrest
      exact iht.append hrest
  | emptyObject hb => exact hb.balanced.enclose
  | object ht ih => exact ih.enclose

/-- An object stands between braces, and its inside is nested one level less. -/
theorem Derives.object_form {n : Nat} {j : List Char} (h : Derives Kind.object n j) :
    exists k t, n = k + 1 ∧ j = '{' :: (t ++ ['}']) ∧ Balanced k t := by
  cases h with
  | emptyObject hb => exact ⟨0, _, rfl, rfl, hb.balanced⟩
  | object ht => exact ⟨_, _, rfl, rfl, ht.balanced⟩

/-- A counter of 32 bits finds the end of an object nested no deeper than it can count. -/
theorem Derives.firstAt_iff {n : Nat} {j : List Char} (h : Derives Kind.object n j)
    (build : Build) (r : List Char) :
    firstAt (event build) [] (j ++ r) = some (j, Event.closing) <-> n <= highest build := by
  rcases h.object_form with ⟨k, t, hn, hj, ht⟩
  rw [hn, hj]
  exact ht.firstAt_iff build r

/-!
## Deep objects
-/

/-- An object in an object, and so on. -/
def nested : Nat -> List Char
  | 0 => ['{', '}']
  | n + 1 => '{' :: ('"' :: '"' :: ':' :: nested n ++ ['}'])

theorem nested_derives (n : Nat) : Derives Kind.object (n + 1) (nested n) := by
  have hblank : Blank [] := fun c hc => absurd hc List.not_mem_nil
  induction n with
  | zero => exact Derives.emptyObject hblank
  | succ n ih =>
      have hvalue := Derives.element hblank (Derives.ofObject ih) hblank
      have hkey : IsString ['"', '"'] := ⟨[], StringBody.nil, rfl⟩
      have hmember := Derives.member hblank hkey hblank hvalue
      rw [List.append_nil] at hmember
      exact Derives.object (Derives.lastMember hmember)

end Json
end Foundation
