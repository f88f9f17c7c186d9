import MenteDb.Core.Types
import MenteDb.Foundation.Outcome
import MenteDb.Foundation.Utf8

/-!
# The lexer

The lexer walks over the bytes of a query and cuts the query into slices.  A slice
that does not begin and end with a character is a panic, so it is an outcome of its
own beside the errors the lexer reports.
-/

namespace MenteDb
namespace Query

open Foundation
open Utf8

/-!
## Tokens
-/

inductive TokenKind where
  | recallKw | relate | forget | consolidate | traverse
  | whereKw | and | or | not | near | within | limit | orderBy | asKw | fromKw | to | withKw
  | agent | space | type | tag | salience | confidence | created | accessed | depth | hops
  | memories | byKw | edgeType
  | eq | neq | gt | lt | gte | lte | similarTo | arrow
  | lParen | rParen | lBracket | rBracket | comma | dot | colon | semicolon
  | stringLit | integerLit | floatLit | identifier | uuidLit
  | eof
deriving DecidableEq, Repr

structure Token where
  kind : TokenKind
  lexeme : String
  position : Nat
deriving DecidableEq, Repr

/-- A computation of the query front end. -/
abbrev Checked (α : Type) := Except (Stop MenteError) α

def queryError {α : Type} (message : String) : Checked α :=
  Except.error (Stop.error (MenteError.query message))

/-- The slice of a text between two bytes. -/
def sliceOf (text : List Char) (start stop : Nat) : Checked (List Char) :=
  match slice text start stop with
  | some w => Except.ok w
  | none => Except.error Stop.panic

/-!
## Bytes
-/

def isAsciiWhitespace (b : UInt8) : Bool :=
  b == ' '.toUInt8 || b == '\t'.toUInt8 || b == '\n'.toUInt8 || b == 12 || b == '\r'.toUInt8

def isAsciiDigit (b : UInt8) : Bool := '0'.toUInt8 <= b && b <= '9'.toUInt8

def isAsciiHexdigit (b : UInt8) : Bool :=
  isAsciiDigit b || ('a'.toUInt8 <= b && b <= 'f'.toUInt8) || ('A'.toUInt8 <= b && b <= 'F'.toUInt8)

def isAsciiAlphanumeric (b : UInt8) : Bool :=
  isAsciiDigit b || ('a'.toUInt8 <= b && b <= 'z'.toUInt8) || ('A'.toUInt8 <= b && b <= 'Z'.toUInt8)

/-- The bytes that begin a word. -/
def beginsWord (b : UInt8) : Bool := isAsciiAlphanumeric b || b == '_'.toUInt8

/-- The bytes that continue a word. -/
def continuesWord (b : UInt8) : Bool := beginsWord b || b == '-'.toUInt8

/-- The loop that moves on while the byte passes the test. -/
def advanceWhile (p : UInt8 -> Bool) (bytes : List UInt8) (pos : Nat) : Nat :=
  pos + ((bytes.drop pos).takeWhile p).length

/-!
## Operators and words
-/

def twoCharKind (two : List Char) : Option TokenKind :=
  if two = ['!', '='] then some TokenKind.neq
  else if two = ['>', '='] then some TokenKind.gte
  else if two = ['<', '='] then some TokenKind.lte
  else if two = ['~', '>'] then some TokenKind.similarTo
  else if two = ['-', '>'] then some TokenKind.arrow
  else none

def singleKinds : List (UInt8 × TokenKind) :=
  [('='.toUInt8, TokenKind.eq), ('>'.toUInt8, TokenKind.gt), ('<'.toUInt8, TokenKind.lt),
    ('('.toUInt8, TokenKind.lParen), (')'.toUInt8, TokenKind.rParen),
    ('['.toUInt8, TokenKind.lBracket), (']'.toUInt8, TokenKind.rBracket),
    (','.toUInt8, TokenKind.comma), ('.'.toUInt8, TokenKind.dot), (':'.toUInt8, TokenKind.colon),
    (';'.toUInt8, TokenKind.semicolon)]

def singleKind (b : UInt8) : Option TokenKind := singleKinds.lookup b

/-- Lower case as far as the names of the language can tell: the lower case of a letter
outside of ASCII is in none of them. -/
def lowercase (name : List Char) : String := String.ofList (name.map Char.toLower)

def keywords : List (String × TokenKind) :=
  [("recall", TokenKind.recallKw), ("relate", TokenKind.relate), ("forget", TokenKind.forget),
    ("consolidate", TokenKind.consolidate), ("traverse", TokenKind.traverse),
    ("where", TokenKind.whereKw), ("and", TokenKind.and), ("or", TokenKind.or),
    ("not", TokenKind.not), ("near", TokenKind.near), ("within", TokenKind.within),
    ("limit", TokenKind.limit), ("order", TokenKind.orderBy), ("as", TokenKind.asKw),
    ("from", TokenKind.fromKw), ("to", TokenKind.to), ("with", TokenKind.withKw),
    ("agent", TokenKind.agent), ("space", TokenKind.space), ("type", TokenKind.type),
    ("tag", TokenKind.tag), ("salience", TokenKind.salience),
    ("confidence", TokenKind.confidence), ("created", TokenKind.created),
    ("accessed", TokenKind.accessed), ("depth", TokenKind.depth), ("hops", TokenKind.hops),
    ("memories", TokenKind.memories), ("by", TokenKind.byKw), ("edge_type", TokenKind.edgeType)]

def wordKind (word : List Char) : TokenKind :=
  (keywords.lookup (lowercase word)).getD TokenKind.identifier

/-- Hexadecimal digits in groups of 8, 4, 4, 4 and 12 between hyphens. -/
def isUuidLike (s : List Char) : Bool :=
  if size s ≠ 36 then false
  else
    let parts := s.splitOn '-'
    if parts.length ≠ 5 then false
    else (parts.zip [8, 4, 4, 4, 12]).all (fun p =>
      decide (size p.1 = p.2) && p.1.all (onChar isAsciiHexdigit))

/-!
## One turn of the loop

Each reader is one block of the loop body: it reads a token at the position, or says
that there is none of its kind and the next block is tried.
-/

/-- Where the closing quote stands, or a position behind the end. -/
def stringEnd : List UInt8 -> Nat -> Nat
  | [], pos => pos
  | b :: rest, pos =>
      if b = '"'.toUInt8 then pos
      else if b = '\\'.toUInt8 then
        match rest with
        | [] => pos + 2
        | _ :: rest => stringEnd rest (pos + 2)
      else stringEnd rest (pos + 1)

def readString (text : List Char) (pos : Nat) : Checked (Token × Nat) :=
  let bytes := encode text
  let stop := stringEnd (bytes.drop (pos + 1)) (pos + 1)
  if bytes.length <= stop then queryError "unterminated string literal"
  else do
    let lexeme <- sliceOf text pos (stop + 1)
    return (⟨TokenKind.stringLit, String.ofList lexeme, pos⟩, stop + 1)

def readTwoChar (text : List Char) (pos : Nat) : Checked (Option (Token × Nat)) :=
  if pos + 1 < (encode text).length then do
    let two <- sliceOf text pos (pos + 2)
    return (twoCharKind two).map (fun kind => (⟨kind, String.ofList two, pos⟩, pos + 2))
  else return none

def readSingle (text : List Char) (pos : Nat) (b : UInt8) : Checked (Option (Token × Nat)) :=
  match singleKind b with
  | some kind => do
      let lexeme <- sliceOf text pos (pos + 1)
      return some (⟨kind, String.ofList lexeme, pos⟩, pos + 1)
  | none => return none

def readUuid (text : List Char) (pos : Nat) (b : UInt8) : Checked (Option (Token × Nat)) :=
  if isAsciiHexdigit b then do
    let stop := advanceWhile continuesWord (encode text) pos
    let candidate <- sliceOf text pos stop
    if isUuidLike candidate then
      return some (⟨TokenKind.uuidLit, String.ofList candidate, pos⟩, stop)
    else return none
  else return none

def digitAt (bytes : List UInt8) (pos : Nat) : Bool := (bytes[pos]?).any isAsciiDigit

/-- Where a number ends, and whether it has a fraction. -/
def numberEnd (bytes : List UInt8) (pos : Nat) : Nat × Bool :=
  let first := if bytes[pos]? = some '-'.toUInt8 then pos + 1 else pos
  let whole := advanceWhile isAsciiDigit bytes first
  if bytes[whole]? = some '.'.toUInt8 && digitAt bytes (whole + 1) then
    (advanceWhile isAsciiDigit bytes (whole + 1), true)
  else (whole, false)

def readNumber (text : List Char) (pos : Nat) (b : UInt8) : Checked (Option (Token × Nat)) :=
  if isAsciiDigit b || (b == '-'.toUInt8 && digitAt (encode text) (pos + 1)) then do
    let found := numberEnd (encode text) pos
    let lexeme <- sliceOf text pos found.1
    let kind := if found.2 then TokenKind.floatLit else TokenKind.integerLit
    return some (⟨kind, String.ofList lexeme, pos⟩, found.1)
  else return none

def readWord (text : List Char) (pos : Nat) (b : UInt8) : Checked (Option (Token × Nat)) :=
  if beginsWord b then do
    let stop := advanceWhile continuesWord (encode text) pos
    let lexeme <- sliceOf text pos stop
    return some (⟨wordKind lexeme, String.ofList lexeme, pos⟩, stop)
  else return none

/-- The first reader that finds a token. -/
def firstOf : List (Checked (Option (Token × Nat))) -> Checked (Option (Token × Nat))
  | [] => return none
  | reader :: readers => do
      match <- reader with
      | some found => return some found
      | none => firstOf readers

def unexpectedCharacter (b : UInt8) (pos : Nat) : String :=
  "unexpected character '" ++ String.singleton (Char.ofNat b.toNat) ++ "' at position "
    ++ toString pos

/-- The token that was read, if it was no white space, and the position after it. -/
def lexerTurn (text : List Char) (pos : Nat) : Checked (Option Token × Nat) :=
  match (encode text).drop pos with
  | [] => Except.error Stop.panic
  | b :: _ =>
      if isAsciiWhitespace b then return (none, pos + 1)
      else if b = '"'.toUInt8 then do
        let found <- readString text pos
        return (some found.1, found.2)
      else do
        match <- firstOf [readTwoChar text pos, readSingle text pos b, readUuid text pos b,
            readNumber text pos b, readWord text pos b] with
        | some found => return (some found.1, found.2)
        | none => queryError (unexpectedCharacter b pos)

/-- The loop; every turn moves on, so there are at most as many turns as bytes. -/
def tokenizeLoop (text : List Char) : Nat -> Nat -> List Token -> Checked (List Token)
  | fuel, pos, tokens =>
      if pos < (encode text).length then
        match fuel with
        | 0 => Except.error Stop.timeout
        | fuel + 1 => do
            let turn <- lexerTurn text pos
            tokenizeLoop text fuel turn.2 (tokens ++ turn.1.toList)
      else return tokens ++ [⟨TokenKind.eof, "", pos⟩]

def tokenize (input : String) : Checked (List Token) :=
  tokenizeLoop input.toList (encode input.toList).length 0 []

end Query
end MenteDb
