import MenteDb.Cognitive.Text
import MenteDb.Foundation.Overflow
import MenteDb.Foundation.Utf8

/-!
# Answers of a language model

An answer is read as JSON: as it stands, without the fence of a code block around it, or from
the first object in it.  The parser of JSON is a parameter.
-/

namespace MenteDb
namespace Cognitive

open Foundation
open Utf8

inductive LlmJudgeError where
  | providerError (message : String)
  | parseError (message : String)
  | unexpectedVerdict (message : String)
deriving DecidableEq, Repr

def stripSuffix (pattern s : List Char) : Option (List Char) :=
  (Strings.stripPrefix pattern.reverse s.reverse).map List.reverse

/-- The loop over the characters and their bytes; none stands for a panic. -/
def matchingBraceFrom (build : Build) (start : Nat) :
    Nat -> Int -> Bool -> Bool -> List Char -> Option (Option Nat)
  | _, _, _, _, [] => some none
  | i, depth, inString, escapeNext, ch :: rest =>
      let next := i + ch.utf8Size
      if escapeNext then matchingBraceFrom build start next depth inString false rest
      else if ch = '\\' ∧ inString then
        matchingBraceFrom build start next depth inString true rest
      else if ch = '"' then matchingBraceFrom build start next depth (!inString) escapeNext rest
      else if ch = '{' ∧ ¬ inString then
        (build.i32 (depth + 1)).bind (fun depth =>
          matchingBraceFrom build start next depth inString escapeNext rest)
      else if ch = '}' ∧ ¬ inString then
        (build.i32 (depth - 1)).bind (fun depth =>
          if depth = 0 then some (some (start + i))
          else matchingBraceFrom build start next depth inString escapeNext rest)
      else matchingBraceFrom build start next depth inString escapeNext rest

def rfindMatchingBrace (build : Build) (s : List Char) (start : Nat) : Option (Option Nat) :=
  (dropBytes s start).bind (matchingBraceFrom build start 0 0 false false)

/-- The first object of a text that is closed in it. -/
def candidateObject (build : Build) (stripped : List Char) : Option (Option (List Char)) :=
  match find '{' stripped with
  | none => some none
  | some start =>
      (rfindMatchingBrace build stripped start).bind (fun found =>
        match found with
        | none => some none
        | some stop => (slice stripped start (stop + 1)).map some)

def stripCodeBlock (trimmed : List Char) : List Char :=
  let unwrap (fence : List Char) :=
    Strings.trimMatches isWhitespace
      (((Strings.stripPrefix fence trimmed).bind (stripSuffix "```".toList)).getD trimmed)
  if "```json".toList.isPrefixOf trimmed then unwrap "```json".toList
  else if "```".toList.isPrefixOf trimmed then unwrap "```".toList
  else trimmed

def parseJsonResponse {T : Type} (fromStr : List Char -> Option T) (build : Build)
    (raw : List Char) : Option (Except LlmJudgeError T) :=
  match fromStr raw with
  | some v => some (Except.ok v)
  | none =>
      let stripped := stripCodeBlock (Strings.trimMatches isWhitespace raw)
      match fromStr stripped with
      | some v => some (Except.ok v)
      | none =>
          (candidateObject build stripped).map (fun candidate =>
            match candidate.bind fromStr with
            | some v => Except.ok v
            | none => Except.error (LlmJudgeError.parseError
                ("could not parse LLM response as expected type. Raw response: "
                  ++ String.ofList raw)))

end Cognitive
end MenteDb
