import MenteDb.Cognitive.Text
import MenteDb.Facade.ExtractionJobs
import MenteDb.Foundation.Braces
import MenteDb.Foundation.Utf8

/-!
# Responses to an extraction

The response of the model is cut down to the first object in it, which is parsed.  When that
fails, the beginning of the object is logged.  The parser of JSON is a parameter.
-/

namespace MenteDb
namespace Extraction

open Foundation
open Utf8
open Cognitive
open Facade

variable {F V : Type}

inductive ExtractionError where
  | providerError (message : String)
  | authError (message : String)
  | modelNotFound (message : String)
  | parseError (message : String)
  | configError (message : String)
  | httpError (message : String)
  | embeddingError (message : String)
  | rateLimitExceeded (attempts : Nat)
deriving DecidableEq, Repr

/-- Which events are logged. -/
inductive LevelFilter where
  | off
  | error
  | warn
  | info
  | debug
  | trace
deriving DecidableEq, Repr

/-- Texts to values of JSON, and those to results. -/
structure Serde (F V : Type) where
  fromStr : List Char -> Except String V
  fromValue : V -> Except String (Schema.ExtractionResult F)

/-!
## The object
-/

def trimEndFences (s : List Char) : List Char :=
  (Strings.trimStartMatches "```".toList.reverse s.reverse).reverse

/-- Without the fences of a code block. -/
def stripFences (trimmed : List Char) : List Char :=
  if "```".toList.isPrefixOf trimmed then
    let withoutPrefix := Strings.trimStartMatches "```".toList
      (Strings.trimStartMatches "```json".toList trimmed)
    Strings.trimMatches isWhitespace (trimEndFences withoutPrefix)
  else trimmed

/-- The loop over the characters and their bytes: the byte after the object, if it is closed;
none stands for a panic. -/
def objectEnd (build : Build) : Nat -> Int -> Bool -> Bool -> List Char -> Option (Option Nat)
  | _, _, _, _, [] => some none
  | i, depth, inString, escapeNext, ch :: rest =>
      let next := i + ch.utf8Size
      if escapeNext then objectEnd build next depth inString false rest
      else if inString then
        if ch = '\\' then objectEnd build next depth inString true rest
        else if ch = '"' then objectEnd build next depth false escapeNext rest
        else objectEnd build next depth inString escapeNext rest
      else if ch = '"' then objectEnd build next depth true escapeNext rest
      else if ch = '{' then
        (build.i32 (depth + 1)).bind (fun depth =>
          objectEnd build next depth inString escapeNext rest)
      else if ch = '}' then
        (build.i32 (depth - 1)).bind (fun depth =>
          if depth = 0 then some (some (i + 1))
          else objectEnd build next depth inString escapeNext rest)
      else objectEnd build next depth inString escapeNext rest

/-- The object, or all that follows its first brace. -/
def jsonObject (build : Build) (stripped : List Char) : Option (Option (List Char)) :=
  match find '{' stripped with
  | none => some none
  | some start =>
      (dropBytes stripped start).bind (fun candidate =>
        (objectEnd build 0 0 false false candidate).bind (fun stop =>
          (takeBytes candidate (stop.getD (size candidate))).map some))

/-!
## The result
-/

def ExtractionResult.empty : Schema.ExtractionResult F where
  memories := []
  entities := []
  relationships := []

/-- What the log shows of an object that could not be parsed, when it shows errors. -/
def logParseFailure (level : LevelFilter) (jsonStr : List Char) : Option Unit :=
  match level with
  | LevelFilter.off => some ()
  | _ => (takeBytes jsonStr (min (size jsonStr) 200)).map (fun _ => ())

def parseFailure (e : String) : ExtractionError :=
  ExtractionError.parseError ("Failed to parse extraction JSON: " ++ e)

def parseExtractionResponse (build : Build) (level : LevelFilter) (serde : Serde F V)
    (raw : List Char) : Option (Except ExtractionError (Schema.ExtractionResult F)) :=
  let trimmed := Strings.trimMatches isWhitespace raw
  if trimmed.isEmpty then some (Except.ok ExtractionResult.empty)
  else
    (jsonObject build (stripFences trimmed)).bind (fun found =>
      match found with
      | none => some (Except.ok ExtractionResult.empty)
      | some jsonStr =>
          match serde.fromStr jsonStr with
          | Except.error e =>
              (logParseFailure level jsonStr).map (fun _ => Except.error (parseFailure e))
          | Except.ok value =>
              match serde.fromValue value with
              | Except.error e => some (Except.error (parseFailure e))
              | Except.ok result => some (Except.ok result))

/-!
## Where the object ends
-/

section Scanning

open Braces

def inStringOf (m : Lex) : Bool := decide (m ≠ Lex.plain)

def escapeOf (m : Lex) : Bool := decide (m = Lex.escaped)

/-- The byte after the first event, if it is a closing brace. -/
def closingAt : Option (List Char × Event) -> Option (Option Nat)
  | none => some none
  | some (u, Event.closing) => some (some (size u))
  | some (_, Event.overflow) => none

theorem objectEnd_quoted (build : Build) (i : Nat) (depth : Int) (ch : Char)
    (rest : List Char) :
    objectEnd build i depth true false (ch :: rest) =
      objectEnd build (i + ch.utf8Size) depth (inStringOf (Lex.quoted.next ch))
        (escapeOf (Lex.quoted.next ch)) rest := by
  by_cases hescape : ch = '\\'
  · rw [hescape]
    rfl
  · by_cases hquote : ch = '"'
    · rw [hquote]
      rfl
    · rw [next_quoted hquote hescape]
      show (if ch = '\\' then _ else if ch = '"' then _ else _) = _
      rw [if_neg hescape, if_neg hquote]
      rfl

theorem objectEnd_plain {build : Build} {depth : Int} (hfits : build.i32 depth = some depth)
    (i : Nat) (ch : Char) (rest : List Char) :
    objectEnd build i depth false false (ch :: rest) =
      (build.i32 (depth + Lex.plain.weight ch)).bind (fun next =>
        if next = 0 ∧ ch = '}' then some (some (i + 1))
        else objectEnd build (i + ch.utf8Size) next (inStringOf (Lex.plain.next ch))
          (escapeOf (Lex.plain.next ch)) rest) := by
  show (if ch = '"' then _ else if ch = '{' then _ else if ch = '}' then _ else _) = _
  by_cases hquote : ch = '"'
  · rw [if_pos hquote, hquote]
    show _ = (build.i32 (depth + 0)).bind _
    rw [Int.add_zero, hfits]
    simp only [show ¬ ('"' : Char) = '}' from by decide, and_false, if_false]
    rfl
  · have hnext : Lex.plain.next ch = Lex.plain := if_neg hquote
    rw [if_neg hquote, hnext]
    by_cases hopen : ch = '{'
    · rw [if_pos hopen, hopen]
      simp only [show ¬ ('{' : Char) = '}' from by decide, and_false, if_false]
      rfl
    · rw [if_neg hopen, weight_plain, if_neg hopen]
      by_cases hclose : ch = '}'
      · rw [if_pos hclose, if_pos hclose]
        simp only [hclose, and_true]
        rfl
      · rw [if_neg hclose, if_neg hclose, Int.add_zero, hfits]
        simp only [hclose, and_false, if_false]
        rfl

/-- One character: the counter goes on with its weight, and stops at the closing brace. -/
theorem objectEnd_cons {build : Build} {depth : Int} (hfits : build.i32 depth = some depth)
    (m : Lex) (i : Nat) (ch : Char) (rest : List Char) :
    objectEnd build i depth (inStringOf m) (escapeOf m) (ch :: rest) =
      (build.i32 (depth + m.weight ch)).bind (fun next =>
        if next = 0 ∧ m = Lex.plain ∧ ch = '}' then some (some (i + 1))
        else objectEnd build (i + ch.utf8Size) next (inStringOf (m.next ch))
          (escapeOf (m.next ch)) rest) := by
  cases m with
  | plain =>
      simp only [true_and]
      exact objectEnd_plain hfits i ch rest
  | quoted =>
      rw [weight_quoted, Int.add_zero, hfits]
      simp only [reduceCtorEq, false_and, and_false, if_false, Option.bind_some]
      exact objectEnd_quoted build i depth ch rest
  | escaped =>
      rw [weight_escaped, Int.add_zero, hfits]
      simp only [reduceCtorEq, false_and, and_false, if_false, Option.bind_some]
      rfl

theorem objectEnd_eq_closingAt {build : Build} {seen rest : List Char} {depth : Int}
    (hdepth : build.i32 (level Lex.plain seen) = some depth) :
    objectEnd build (size seen) depth (inStringOf (endLex Lex.plain seen))
        (escapeOf (endLex Lex.plain seen)) rest =
      closingAt (firstAt (event build) seen rest) := by
  induction rest generalizing seen depth with
  | nil => rfl
  | cons ch rest ih =>
      have hfits : build.i32 depth = some depth := by
        rw [← Int.add_zero depth, Build.i32_add hdepth, Int.add_zero, Int.add_zero, hdepth]
      have hsnoc := i32_level_snoc hdepth ch
      have hlex : endLex Lex.plain (seen ++ [ch]) = (endLex Lex.plain seen).next ch := by
        rw [endLex_append]
        rfl
      have hsize : size (seen ++ [ch]) = size seen + ch.utf8Size := by
        rw [size_append, size_cons, size_nil, Nat.add_zero]
      rw [objectEnd_cons hfits]
      unfold firstAt
      rw [event_snoc hdepth]
      cases hi32 : build.i32 (depth + (endLex Lex.plain seen).weight ch) with
      | none => rfl
      | some next =>
          rw [hi32] at hsnoc
          rw [Option.bind_some]
          dsimp only
          split
          · rename_i hclose
            show some (some (size seen + 1)) = some (some (size (seen ++ [ch])))
            rw [hsize, hclose.2.2]
            rfl
          · rw [← ih hsnoc, hlex, hsize]

/-- From the start, the object ends at the first event. -/
theorem objectEnd_eq (build : Build) (candidate : List Char) :
    objectEnd build 0 0 false false candidate =
      closingAt (firstAt (event build) [] candidate) := by
  have hzero : build.i32 (level Lex.plain []) = some 0 :=
    Build.i32_of_mem build (by decide) (by decide)
  exact objectEnd_eq_closingAt hzero

end Scanning

end Extraction
end MenteDb
