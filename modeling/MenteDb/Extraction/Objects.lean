import MenteDb.Cognitive.Responses
import MenteDb.Extraction.Response
import MenteDb.Foundation.JsonGrammar

/-!
# Where an object ends

Two scanners look for the end of the first object of a text.  They always agree, and both find
it, whatever stands in the strings of the object, as long as objects are nested no deeper than
a counter of 32 bits can follow.
-/

namespace MenteDb
namespace Extraction

open Foundation
open Utf8
open Braces
open Json
open Cognitive

/-!
## Agreement
-/

/-- The positions differ by one: a brace, and the byte after it. -/
theorem matchingBraceFrom_eq (build : Build) (start i : Nat) (depth : Int)
    (inString escapeNext : Bool) (rest : List Char) :
    (matchingBraceFrom build start i depth inString escapeNext rest).map
        (Option.map (fun brace => brace + 1)) =
      (objectEnd build i depth inString escapeNext rest).map
        (Option.map (fun stop => start + stop)) := by
  induction rest generalizing i depth inString escapeNext with
  | nil => rfl
  | cons ch rest ih =>
      cases escapeNext with
      | true => exact ih (i + ch.utf8Size) depth inString false
      | false =>
          unfold matchingBraceFrom objectEnd
          dsimp only
          rw [if_neg Bool.false_ne_true, if_neg Bool.false_ne_true]
          cases inString with
          | true =>
              rw [if_pos (rfl : true = true)]
              by_cases hescape : ch = '\\'
              · rw [if_pos ⟨hescape, rfl⟩, if_pos hescape]
                exact ih (i + ch.utf8Size) depth true true
              · rw [if_neg (fun h => hescape h.1), if_neg hescape]
                by_cases hquote : ch = '"'
                · rw [if_pos hquote, if_pos hquote]
                  exact ih (i + ch.utf8Size) depth false false
                · rw [if_neg hquote, if_neg hquote, if_neg (fun h => h.2 rfl),
                    if_neg (fun h => h.2 rfl)]
                  exact ih (i + ch.utf8Size) depth true false
          | false =>
              rw [if_neg Bool.false_ne_true, if_neg (fun h => Bool.false_ne_true h.2)]
              by_cases hquote : ch = '"'
              · rw [if_pos hquote, if_pos hquote]
                exact ih (i + ch.utf8Size) depth true false
              · rw [if_neg hquote, if_neg hquote]
                by_cases hopen : ch = '{'
                · rw [if_pos ⟨hopen, Bool.false_ne_true⟩, if_pos hopen]
                  cases build.i32 (depth + 1) with
                  | none => rfl
                  | some next => exact ih (i + ch.utf8Size) next false false
                · rw [if_neg (fun h => hopen h.1), if_neg hopen]
                  by_cases hclose : ch = '}'
                  · rw [if_pos ⟨hclose, Bool.false_ne_true⟩, if_pos hclose]
                    cases build.i32 (depth - 1) with
                    | none => rfl
                    | some next =>
                        rw [Option.bind_some, Option.bind_some]
                        by_cases hzero : next = 0
                        · rw [if_pos hzero, if_pos hzero]
                          rfl
                        · rw [if_neg hzero, if_neg hzero]
                          exact ih (i + ch.utf8Size) next false false
                  · rw [if_neg (fun h => hclose h.1), if_neg hclose]
                    exact ih (i + ch.utf8Size) depth false false

theorem rfindMatchingBrace_eq (build : Build) (p rest : List Char) :
    (rfindMatchingBrace build (p ++ rest) (size p)).map (Option.map (fun brace => brace + 1)) =
      (objectEnd build 0 0 false false rest).map (Option.map (fun stop => size p + stop)) := by
  unfold rfindMatchingBrace
  rw [dropBytes_append, Option.bind_some]
  exact matchingBraceFrom_eq build (size p) 0 0 false false rest

/-!
## The selected objects
-/

section Selection

variable {build : Build} {p rest : List Char}

theorem jsonObject_of_not_mem (hp : '{' ∉ p) : jsonObject build p = some none := by
  unfold jsonObject
  rw [find_eq_none hp]

theorem jsonObject_eq (hp : '{' ∉ p) :
    jsonObject build (p ++ '{' :: rest) =
      match firstAt (event build) [] ('{' :: rest) with
      | none => some (some ('{' :: rest))
      | some (u, Event.closing) => some (some u)
      | some (_, Event.overflow) => none := by
  unfold jsonObject
  rw [find_append hp]
  dsimp only
  rw [dropBytes_append, Option.bind_some, objectEnd_eq]
  cases hfirst : firstAt (event build) [] ('{' :: rest) with
  | none =>
      show (takeBytes _ (size _)).map some = _
      rw [takeBytes_eq_some.mpr ⟨rfl, [], (List.append_nil _).symm⟩]
      rfl
  | some found =>
      rcases found with ⟨u, e⟩
      rcases (firstAt_eq_some_iff.mp hfirst).2.1 with ⟨v, hv⟩
      cases e with
      | overflow => rfl
      | closing =>
          show (takeBytes _ (size u)).map some = _
          rw [takeBytes_eq_some.mpr ⟨rfl, v, hv.symm⟩]
          rfl

theorem candidateObject_eq (hp : '{' ∉ p) :
    candidateObject build (p ++ '{' :: rest) =
      match firstAt (event build) [] ('{' :: rest) with
      | none => some none
      | some (u, Event.closing) => some (some u)
      | some (_, Event.overflow) => none := by
  have hagree := rfindMatchingBrace_eq build p ('{' :: rest)
  rw [objectEnd_eq] at hagree
  unfold candidateObject
  rw [find_append hp]
  dsimp only
  cases hfirst : firstAt (event build) [] ('{' :: rest) with
  | none =>
      rw [hfirst] at hagree
      rcases Option.map_eq_some_iff.mp hagree with ⟨brace, hbrace, hnone⟩
      rw [hbrace, Option.map_eq_none_iff.mp hnone]
      rfl
  | some found =>
      rcases found with ⟨u, e⟩
      rw [hfirst] at hagree
      rcases (firstAt_eq_some_iff.mp hfirst).2.1 with ⟨v, hv⟩
      cases e with
      | overflow =>
          rw [Option.map_eq_none_iff.mp hagree]
          rfl
      | closing =>
          rcases Option.map_eq_some_iff.mp hagree with ⟨brace, hbrace, hsome⟩
          rcases Option.map_eq_some_iff.mp hsome with ⟨at_, hat, hstop⟩
          have hslice : slice (p ++ '{' :: rest) (size p) (at_ + 1) = some u := by
            rw [← hv]
            exact slice_eq_some.mpr ⟨p, v, rfl, rfl, hstop.symm⟩
          rw [hbrace, hat, Option.bind_some]
          dsimp only
          rw [hslice]
          rfl

variable {n : Nat} {j r : List Char}

/-- What stands before the first object of a text, and the object. -/
theorem object_opens (hj : Derives Kind.object n j) :
    exists rest, forall p r : List Char, p ++ j ++ r = p ++ '{' :: (rest ++ r) ∧
      j ++ r = '{' :: (rest ++ r) := by
  rcases hj.object_form with ⟨k, t, -, hform, -⟩
  refine ⟨t ++ ['}'], fun p r => ⟨?_, ?_⟩⟩
  · rw [hform, List.append_assoc]
    rfl
  · rw [hform]
    rfl

theorem jsonObject_selects_iff (hp : '{' ∉ p) (hj : Derives Kind.object n j) :
    jsonObject build (p ++ j ++ r) = some (some j) <-> n <= highest build := by
  rcases object_opens hj with ⟨rest, hrest⟩
  rw [← hj.firstAt_iff build r, (hrest p r).1, jsonObject_eq hp, ← (hrest p r).2]
  cases hfirst : firstAt (event build) [] (j ++ r) with
  | none =>
      -- a text that is never closed does not begin with an object
      rcases hj.object_form with ⟨k, t, -, hform, hbalanced⟩
      have hnone := firstAt_eq_none_iff.mp hfirst j (by rw [hform]; simp) (List.prefix_append j r)
      rw [hform, hbalanced.closes build] at hnone
      cases hnone
  | some found =>
      rcases found with ⟨u, e⟩
      cases e with
      | overflow => simp
      | closing => simp

theorem candidateObject_selects_iff (hp : '{' ∉ p) (hj : Derives Kind.object n j) :
    candidateObject build (p ++ j ++ r) = some (some j) <-> n <= highest build := by
  rcases object_opens hj with ⟨rest, hrest⟩
  rw [← hj.firstAt_iff build r, (hrest p r).1, candidateObject_eq hp, ← (hrest p r).2]
  cases hfirst : firstAt (event build) [] (j ++ r) with
  | none => simp
  | some found =>
      rcases found with ⟨u, e⟩
      cases e with
      | overflow => simp
      | closing => simp

end Selection

/-- The scanners agree on every text from every character on, and they select an object
exactly when it is not nested too deep for their counters. -/
theorem scanners_select_iff (build : Build) :
    (forall p rest,
      (rfindMatchingBrace build (p ++ rest) (size p)).map (Option.map (fun brace => brace + 1)) =
        (objectEnd build 0 0 false false rest).map (Option.map (fun stop => size p + stop))) ∧
    forall p j r n, '{' ∉ p -> Derives Kind.object n j ->
      ((jsonObject build (p ++ j ++ r) = some (some j) ∧
        candidateObject build (p ++ j ++ r) = some (some j)) <-> n <= highest build) := by
  refine ⟨rfindMatchingBrace_eq build, ?_⟩
  intro p j r n hp hj
  rw [jsonObject_selects_iff hp hj, candidateObject_selects_iff hp hj, and_self_iff]

theorem scanners_select_iff_nested :
    jsonObject Build.checked ("see ".toList ++ nested 1 ++ [' ', '}']) = some (some (nested 1)) ∧
      candidateObject Build.checked ("see ".toList ++ nested 1 ++ [' ', '}']) =
        some (some (nested 1)) :=
  ((scanners_select_iff Build.checked).2 "see ".toList (nested 1) [' ', '}'] 2 (by decide)
    (nested_derives 1)).mpr (by decide)

/-- Objects nested deeper than the counters go are well formed and selected by neither. -/
theorem deep_objects_are_missed :
    Derives Kind.object 2147483648 (nested 2147483647) ∧
      jsonObject Build.checked (nested 2147483647) ≠ some (some (nested 2147483647)) ∧
      candidateObject Build.checked (nested 2147483647) ≠ some (some (nested 2147483647)) ∧
    Derives Kind.object 4294967297 (nested 4294967296) ∧
      jsonObject Build.wrapping (nested 4294967296) ≠ some (some (nested 4294967296)) ∧
      candidateObject Build.wrapping (nested 4294967296) ≠ some (some (nested 4294967296)) := by
  have hmissed : forall (build : Build) (n : Nat), highest build < n + 1 ->
      jsonObject build (nested n) ≠ some (some (nested n)) ∧
        candidateObject build (nested n) ≠ some (some (nested n)) := by
    intro build n hn
    have hwhole : [] ++ nested n ++ [] = nested n := by
      rw [List.nil_append, List.append_nil]
    have hjson : jsonObject build ([] ++ nested n ++ []) = some (some (nested n)) <-> _ :=
      jsonObject_selects_iff List.not_mem_nil (nested_derives n)
    have hcandidate : candidateObject build ([] ++ nested n ++ []) = some (some (nested n)) <-> _ :=
      candidateObject_selects_iff List.not_mem_nil (nested_derives n)
    rw [hwhole] at hjson hcandidate
    exact ⟨fun h => absurd (hjson.mp h) (Nat.not_le.mpr hn),
      fun h => absurd (hcandidate.mp h) (Nat.not_le.mpr hn)⟩
  have hchecked := hmissed Build.checked 2147483647 (by decide)
  have hwrapping := hmissed Build.wrapping 4294967296 (by decide)
  exact ⟨nested_derives 2147483647, hchecked.1, hchecked.2, nested_derives 4294967296,
    hwrapping.1, hwrapping.2⟩

end Extraction
end MenteDb
