import MenteDb.Extraction.Objects

/-!
# Any response

A response is handled unless a counter overflows on the way to the end of its object, or the
object cannot be parsed, errors are logged, and the beginning that is logged would end inside
a character.
-/

namespace MenteDb
namespace Extraction

open Foundation
open Utf8
open Braces
open Cognitive
open Facade

variable {F V : Type}

/-!
## The object of a text
-/

/-- The text up to the brace that closes it, or the whole text when nothing closes it. -/
def ObjectText (build : Build) (text j : List Char) : Prop :=
  (j <+: text ∧ event build j = some Event.closing ∧ Quiet (event build) j) ∨
    (j = text ∧ forall u, u ≠ [] -> u <+: text -> event build u = none)

/-- A counter overflows before the text is closed. -/
def Overruns (build : Build) (text : List Char) : Prop :=
  exists u, u <+: text ∧ event build u = some Event.overflow ∧ Quiet (event build) u

theorem event_nil (build : Build) : event build [] = none := by
  apply event_eq_none
  · rw [level_nil, Build.i32_of_mem build (by decide) (by decide)]
    simp
  · intro hzero v hv
    simp at hv

theorem firstAt_event_iff {build : Build} {text u : List Char} {e : Event} :
    firstAt (event build) [] text = some (u, e) <->
      u <+: text ∧ event build u = some e ∧ Quiet (event build) u := by
  rw [firstAt_eq_some_iff]
  constructor
  · intro h
    exact h.2
  · intro h
    refine ⟨?_, h⟩
    intro hnil
    have hevent := h.2.1
    rw [hnil, event_nil] at hevent
    cases hevent

section

variable {build : Build} {p rest : List Char}

theorem jsonObject_eq_some_iff (hp : '{' ∉ p) {j : List Char} :
    jsonObject build (p ++ '{' :: rest) = some (some j) <-> ObjectText build ('{' :: rest) j := by
  unfold ObjectText
  rw [jsonObject_eq hp, ← firstAt_event_iff, ← firstAt_eq_none_iff]
  cases firstAt (event build) [] ('{' :: rest) with
  | none => simp [eq_comm]
  | some found =>
      rcases found with ⟨u, e⟩
      cases e with
      | overflow => simp
      | closing => simp

theorem jsonObject_eq_none_iff (hp : '{' ∉ p) :
    jsonObject build (p ++ '{' :: rest) = none <-> Overruns build ('{' :: rest) := by
  unfold Overruns
  simp only [← firstAt_event_iff]
  rw [jsonObject_eq hp]
  cases firstAt (event build) [] ('{' :: rest) with
  | none => simp
  | some found =>
      rcases found with ⟨u, e⟩
      cases e with
      | overflow => simp
      | closing => simp

end

/-!
## What is logged
-/

theorem logParseFailure_isSome_iff {level : LevelFilter} {j : List Char} :
    (logParseFailure level j).isSome = true <->
      (level ≠ LevelFilter.off -> size j <= 200 ∨ IsBoundary j 200) := by
  by_cases hoff : level = LevelFilter.off
  · rw [hoff]
    exact iff_of_true rfl (fun h => absurd rfl h)
  · have hlogged : logParseFailure level j =
        (takeBytes j (min (size j) 200)).map (fun _ => ()) := by
      cases level with
      | off => exact absurd rfl hoff
      | error => rfl
      | warn => rfl
      | info => rfl
      | debug => rfl
      | trace => rfl
    rw [hlogged, Option.isSome_map, takeBytes_isSome_iff]
    by_cases hshort : size j <= 200
    · rw [Nat.min_eq_left hshort]
      exact iff_of_true ⟨j, [], (List.append_nil j).symm, rfl⟩ (fun _ => Or.inl hshort)
    · rw [Nat.min_eq_right (by omega)]
      exact ⟨fun h _ => Or.inr h, fun h => (h hoff).resolve_left hshort⟩

/-!
## Handled responses
-/

def unfenced (raw : List Char) : List Char := stripFences (Strings.trimMatches isWhitespace raw)

/-- The counter does not overflow, and the beginning of an object that is not parsed ends at a
character if it is logged. -/
def Handled (build : Build) (level : LevelFilter) (serde : Serde F V) (raw : List Char) : Prop :=
  forall p rest, unfenced raw = p ++ '{' :: rest -> '{' ∉ p ->
    ¬ Overruns build ('{' :: rest) ∧
      forall j e, ObjectText build ('{' :: rest) j -> serde.fromStr j = Except.error e ->
        level ≠ LevelFilter.off -> size j <= 200 ∨ IsBoundary j 200

/-- The part of a response before its first object is the same however it is found. -/
theorem first_brace_unique {p p' rest rest' : List Char} (hp : '{' ∉ p) (hp' : '{' ∉ p')
    (h : p ++ '{' :: rest = p' ++ '{' :: rest') : p = p' ∧ rest = rest' := by
  have hother : forall s : List Char, '{' ∉ s -> forall c, c ∈ s -> (c == '{') = false := by
    intro s hs c hc
    rw [beq_eq_false_iff_ne]
    intro heq
    exact hs (heq ▸ hc)
  exact Strings.append_cons_cancel (p := fun c => c == '{') rfl (hother p hp) (hother p' hp') h

theorem parse_isSome_iff_object {build : Build} {level : LevelFilter} {serde : Serde F V}
    {raw : List Char} :
    (parseExtractionResponse build level serde raw).isSome = true <->
      exists found, jsonObject build (unfenced raw) = some found ∧
        forall j e, found = some j -> serde.fromStr j = Except.error e ->
          (logParseFailure level j).isSome = true := by
  unfold parseExtractionResponse unfenced
  dsimp only
  by_cases hempty : (Strings.trimMatches isWhitespace raw).isEmpty = true
  · rw [if_pos hempty, List.isEmpty_iff.mp hempty]
    exact iff_of_true rfl ⟨none, rfl, fun j e h => nomatch h⟩
  · rw [if_neg hempty]
    cases jsonObject build (stripFences (Strings.trimMatches isWhitespace raw)) with
    | none => simp
    | some found =>
        rw [Option.bind_some]
        cases found with
        | none => simp
        | some j =>
            dsimp only
            cases hparse : serde.fromStr j with
            | error e =>
                dsimp only
                rw [Option.isSome_map]
                constructor
                · intro h
                  exact ⟨some j, rfl, fun j' e' heq _ => Option.some.inj heq ▸ h⟩
                · intro h
                  rcases h with ⟨found, hfound, hlogged⟩
                  exact hlogged j e (Option.some.inj hfound).symm hparse
            | ok value =>
                have hvacuous : forall j' e, some j = some j' ->
                    serde.fromStr j' = Except.error e ->
                      (logParseFailure level j').isSome = true := by
                  intro j' e heq herror
                  rw [← Option.some.inj heq, hparse] at herror
                  cases herror
                dsimp only
                cases serde.fromValue value with
                | error e => exact iff_of_true rfl ⟨some j, rfl, hvacuous⟩
                | ok result => exact iff_of_true rfl ⟨some j, rfl, hvacuous⟩

/-- A response is handled, and never panics, exactly under these conditions. -/
theorem response_handled_iff (build : Build) (level : LevelFilter) (serde : Serde F V)
    (raw : List Char) :
    (parseExtractionResponse build level serde raw).isSome = true <->
      Handled build level serde raw := by
  rw [parse_isSome_iff_object]
  rcases first_place '{' (unfenced raw) with habsent | ⟨p, rest, htext, hp⟩
  · constructor
    · intro _ p rest htext _
      rw [htext] at habsent
      simp at habsent
    · intro _
      exact ⟨none, jsonObject_of_not_mem habsent, fun j e h => nomatch h⟩
  · rw [htext]
    constructor
    · intro h p' rest' htext' hp'
      rcases h with ⟨found, hfound, hlogged⟩
      rw [htext] at htext'
      rcases first_brace_unique hp hp' htext' with ⟨-, hrest⟩
      rw [← hrest]
      constructor
      · intro hover
        rw [(jsonObject_eq_none_iff hp).mpr hover] at hfound
        cases hfound
      · intro j e hobject hparse
        rw [(jsonObject_eq_some_iff hp).mpr hobject] at hfound
        cases hfound
        exact logParseFailure_isSome_iff.mp (hlogged j e rfl hparse)
    · intro h
      rcases h p rest htext hp with ⟨hover, hlogged⟩
      cases hfound : jsonObject build (p ++ '{' :: rest) with
      | none => exact absurd ((jsonObject_eq_none_iff hp).mp hfound) hover
      | some found =>
          refine ⟨found, rfl, ?_⟩
          intro j e hj hparse
          rw [hj] at hfound
          exact logParseFailure_isSome_iff.mpr
            (hlogged j e ((jsonObject_eq_some_iff hp).mp hfound) hparse)

/-- A parser that accepts no object without a key in quotes. -/
def keyExpected : Serde Rat Unit where
  fromStr := fun _ => Except.error "key must be a string at line 1 column 2"
  fromValue := fun _ => Except.error "missing field `memories`"

/-- Two hundred bytes end inside the last character of an object that is not parsed. -/
theorem preview_cuts_a_character :
    (parseExtractionResponse Build.wrapping LevelFilter.error keyExpected
      ('{' :: (List.replicate 198 'a' ++ ['é']))).isSome = false := by
  decide +kernel

end Extraction
end MenteDb
