import MenteDb.Foundation.Scan
import MenteDb.Query.Lexer
import MenteDb.Query.Literals

/-!
# The parser

A recursive descent over the tokens.  Looking at a token that is not there, taking a
slice of a lexeme that does not exist and moving back from the first position are
panics; the two loops have as much fuel as there are tokens.
-/

namespace MenteDb
namespace Query

open Foundation
open Utf8

variable {F : Type}

abbrev Parser (α : Type) := Scan MenteError α

def parseError {α : Type} (message : String) : Parser α :=
  Scan.stop (Stop.error (MenteError.query message))

def orError {α : Type} (found : Option α) (message : String) : Parser α :=
  match found with
  | some a => return a
  | none => parseError message

/-- The debug form of a kind. -/
def TokenKind.debug : TokenKind -> String
  | TokenKind.recallKw => "Recall" | TokenKind.relate => "Relate"
  | TokenKind.forget => "Forget" | TokenKind.consolidate => "Consolidate"
  | TokenKind.traverse => "Traverse" | TokenKind.whereKw => "Where"
  | TokenKind.and => "And" | TokenKind.or => "Or" | TokenKind.not => "Not"
  | TokenKind.near => "Near" | TokenKind.within => "Within" | TokenKind.limit => "Limit"
  | TokenKind.orderBy => "OrderBy" | TokenKind.asKw => "As" | TokenKind.fromKw => "From"
  | TokenKind.to => "To" | TokenKind.withKw => "With" | TokenKind.agent => "Agent"
  | TokenKind.space => "Space" | TokenKind.type => "Type" | TokenKind.tag => "Tag"
  | TokenKind.salience => "Salience" | TokenKind.confidence => "Confidence"
  | TokenKind.created => "Created" | TokenKind.accessed => "Accessed"
  | TokenKind.depth => "Depth" | TokenKind.hops => "Hops" | TokenKind.memories => "Memories"
  | TokenKind.byKw => "By" | TokenKind.edgeType => "EdgeType" | TokenKind.eq => "Eq"
  | TokenKind.neq => "Neq" | TokenKind.gt => "Gt" | TokenKind.lt => "Lt"
  | TokenKind.gte => "Gte" | TokenKind.lte => "Lte" | TokenKind.similarTo => "SimilarTo"
  | TokenKind.arrow => "Arrow" | TokenKind.lParen => "LParen" | TokenKind.rParen => "RParen"
  | TokenKind.lBracket => "LBracket" | TokenKind.rBracket => "RBracket"
  | TokenKind.comma => "Comma" | TokenKind.dot => "Dot" | TokenKind.colon => "Colon"
  | TokenKind.semicolon => "Semicolon" | TokenKind.stringLit => "StringLit"
  | TokenKind.integerLit => "IntegerLit" | TokenKind.floatLit => "FloatLit"
  | TokenKind.identifier => "Identifier" | TokenKind.uuidLit => "UuidLit"
  | TokenKind.eof => "Eof"

section Parsing

variable (ops : LiteralOps F) (tokens : List Token)

/-!
## Looking and moving
-/

/-- Behind the end the last token is seen. -/
def peek : Parser Token := do
  let pos <- Scan.position
  match tokens[min pos (tokens.length - 1)]? with
  | some tok => return tok
  | none => Scan.stop Stop.panic

def advance : Parser Token := do
  let tok <- peek tokens
  let pos <- Scan.position
  if pos < tokens.length then Scan.moveTo (pos + 1)
  return tok

def expect (kind : TokenKind) : Parser Token := do
  let tok <- peek tokens
  if tok.kind ≠ kind then
    parseError ("expected " ++ kind.debug ++ ", found " ++ tok.kind.debug ++ " ('" ++ tok.lexeme
      ++ "') at position " ++ toString tok.position)
  else advance tokens

def atKind (kind : TokenKind) : Parser Bool := do
  let tok <- peek tokens
  return decide (tok.kind = kind)

/-- One token back; the position is unsigned. -/
def putBack : Parser Unit := do
  let pos <- Scan.position
  if pos = 0 then Scan.stop Stop.panic else Scan.moveTo (pos - 1)

/-- The loop that reads further items as long as a separator comes. -/
def parseMore {α : Type} (separator : TokenKind) (item : Parser α) :
    Nat -> List α -> Parser (List α)
  | fuel, items => do
      if <- atKind tokens separator then
        match fuel with
        | 0 => Scan.stop Stop.timeout
        | fuel + 1 => do
            let _ <- advance tokens
            let next <- item
            parseMore separator item fuel (items ++ [next])
      else return items

/-- A lexeme without its first and last byte. -/
def stripQuotes (tok : Token) : Parser String := do
  let inner <- Scan.lift (sliceOf tok.lexeme.toList 1 (size tok.lexeme.toList - 1))
  return String.ofList inner

/-!
## Fields, operators and names
-/

def foundAt (expected : String) (tok : Token) : String :=
  "expected " ++ expected ++ ", found '" ++ tok.lexeme ++ "' at position " ++ toString tok.position

def fieldOf (tok : Token) : Option Field :=
  match tok.kind with
  | TokenKind.identifier =>
      if lowercase tok.lexeme.toList = "content" then some Field.content else none
  | TokenKind.type => some Field.type
  | TokenKind.tag => some Field.tag
  | TokenKind.agent => some Field.agent
  | TokenKind.space => some Field.space
  | TokenKind.salience => some Field.salience
  | TokenKind.confidence => some Field.confidence
  | TokenKind.created => some Field.created
  | TokenKind.accessed => some Field.accessed
  | _ => none

def parseField : Parser Field := do
  let tok <- advance tokens
  orError (fieldOf tok) (foundAt "field name" tok)

def operatorOf (tok : Token) : Option Operator :=
  match tok.kind with
  | TokenKind.eq => some Operator.eq
  | TokenKind.neq => some Operator.neq
  | TokenKind.gt => some Operator.gt
  | TokenKind.lt => some Operator.lt
  | TokenKind.gte => some Operator.gte
  | TokenKind.lte => some Operator.lte
  | TokenKind.similarTo => some Operator.similarTo
  | _ => none

def parseOperator : Parser Operator := do
  let tok <- advance tokens
  orError (operatorOf tok) (foundAt "operator" tok)

/-- A name, bare or in quotes. -/
def parseName (expected : String) : Parser String := do
  let tok <- advance tokens
  if tok.kind = TokenKind.identifier then return tok.lexeme
  else if tok.kind = TokenKind.stringLit then stripQuotes tok
  else parseError (foundAt expected tok)

def memoryTypeNamed (lower : String) : Option MemoryType :=
  match lower with
  | "episodic" => some MemoryType.episodic
  | "semantic" => some MemoryType.semantic
  | "procedural" => some MemoryType.procedural
  | "antipattern" => some MemoryType.antiPattern
  | "anti_pattern" => some MemoryType.antiPattern
  | "reasoning" => some MemoryType.reasoning
  | "correction" => some MemoryType.correction
  | _ => none

def parseMemoryTypeValue : Parser (Value F) := do
  let name <- parseName tokens "memory type"
  let memoryType <- orError (memoryTypeNamed (lowercase name.toList))
    ("unknown memory type: " ++ name)
  return Value.memoryType memoryType

def edgeTypeNamed (lower : String) : Option EdgeType :=
  match lower with
  | "caused" => some EdgeType.caused
  | "before" => some EdgeType.before
  | "related" => some EdgeType.related
  | "contradicts" => some EdgeType.contradicts
  | "supports" => some EdgeType.supports
  | "supersedes" => some EdgeType.supersedes
  | "derived" => some EdgeType.derived
  | "partof" => some EdgeType.partOf
  | "part_of" => some EdgeType.partOf
  | _ => none

def parseEdgeType : Parser EdgeType := do
  let name <- parseName tokens "edge type"
  orError (edgeTypeNamed (lowercase name.toList)) ("unknown edge type: " ++ name)

def parseUuid : Parser MemoryId := do
  let tok <- advance tokens
  if tok.kind = TokenKind.uuidLit then
    orError ((ops.parseUuid tok.lexeme).map MemoryId.mk) ("invalid UUID: " ++ tok.lexeme)
  else if tok.kind = TokenKind.stringLit then do
    let inner <- stripQuotes tok
    orError ((ops.parseUuid inner).map MemoryId.mk) ("invalid UUID in string: " ++ tok.lexeme)
  else parseError (foundAt "UUID" tok)

/-!
## Vectors and values
-/

/-- A token of any kind whose lexeme is a number. -/
def parseEntry (what : String) : Parser F := do
  let tok <- advance tokens
  orError (ops.parseF32 tok.lexeme) (what ++ tok.lexeme)

def parseVector : Parser (List F) := do
  let _ <- expect tokens TokenKind.lBracket
  let values <- (do
    if <- atKind tokens TokenKind.rBracket then return []
    else do
      let x <- parseEntry ops tokens "invalid float in vector: "
      parseMore tokens TokenKind.comma (parseEntry ops tokens "invalid float in vector: ")
        tokens.length [x])
  let _ <- expect tokens TokenKind.rBracket
  return values

/-- The text of a string, or the identifier it spells. -/
def textValue (text : String) : Value F :=
  match ops.parseUuid text with
  | some uuid => Value.uuid uuid
  | none => Value.text text

def wordValue (word : String) : Value F :=
  match lowercase word.toList with
  | "true" => Value.bool true
  | "false" => Value.bool false
  | _ => Value.text word

/-- The value that begins with a token; a vector is read from that token on. -/
def valueFrom (tok : Token) : Parser (Value F) :=
  match tok.kind with
  | TokenKind.stringLit => do
      let inner <- stripQuotes tok
      return textValue ops inner
  | TokenKind.integerLit =>
      orError ((parseI64 tok.lexeme.toList).map Value.integer) ("invalid integer: " ++ tok.lexeme)
  | TokenKind.floatLit =>
      orError ((ops.parseF64 tok.lexeme).map Value.number) ("invalid float: " ++ tok.lexeme)
  | TokenKind.uuidLit =>
      orError ((ops.parseUuid tok.lexeme).map Value.uuid) ("invalid UUID: " ++ tok.lexeme)
  | TokenKind.identifier => return wordValue tok.lexeme
  | TokenKind.lBracket => do
      putBack
      let v <- parseVector ops tokens
      return Value.vector v
  | _ => parseError (foundAt "value" tok)

def parseValue (field : Field) : Parser (Value F) :=
  if field = Field.type then parseMemoryTypeValue tokens
  else do
    let tok <- advance tokens
    valueFrom ops tokens tok

/-!
## Filters
-/

def parseFilter : Parser (Filter F) := do
  let field <- parseField tokens
  let op <- parseOperator tokens
  let value <- parseValue ops tokens field
  return ⟨field, op, value⟩

def parseFilters : Parser (List (Filter F)) := do
  let filter <- parseFilter ops tokens
  parseMore tokens TokenKind.and (parseFilter ops tokens) tokens.length [filter]

/-!
## Statements
-/

/-- A clause that begins with its keyword, if it is there. -/
def parseClause {α : Type} (keyword : TokenKind) (body : Parser α) : Parser (Option α) := do
  if <- atKind tokens keyword then do
    let _ <- advance tokens
    let found <- body
    return some found
  else return none

/-- A word that may stand there. -/
def skipWord (keyword : TokenKind) : Parser Unit := do
  if <- atKind tokens keyword then do
    let _ <- advance tokens
    return ()
  else return ()

/-- A token whose lexeme is an unsigned number. -/
def parseCount (what : String) : Parser Nat := do
  let tok <- advance tokens
  orError (parseUsize tok.lexeme.toList) (what ++ tok.lexeme)

def parseOrderBy : Parser OrderBy := do
  skipWord tokens TokenKind.byKw
  let field <- parseField tokens
  return ⟨field, false⟩

def parseRecall : Parser (Statement F) := do
  let _ <- advance tokens
  skipWord tokens TokenKind.memories
  let near <- parseClause tokens TokenKind.near (parseVector ops tokens)
  let filters <- parseClause tokens TokenKind.whereKw (parseFilters ops tokens)
  let orderBy <- parseClause tokens TokenKind.orderBy (parseOrderBy tokens)
  let limit <- parseClause tokens TokenKind.limit (parseCount tokens "invalid limit value: ")
  return Statement.recall ⟨filters.getD [], near, limit, orderBy⟩

/-- The name of the weight is not looked at. -/
def parseWeight : Parser F := do
  let _ <- expect tokens TokenKind.identifier
  let _ <- expect tokens TokenKind.eq
  parseEntry ops tokens "invalid weight value: "

def parseRelate : Parser (Statement F) := do
  let _ <- advance tokens
  let source <- parseUuid ops tokens
  let _ <- expect tokens TokenKind.arrow
  let target <- parseUuid ops tokens
  let _ <- expect tokens TokenKind.asKw
  let edgeType <- parseEdgeType tokens
  let weight <- parseClause tokens TokenKind.withKw (parseWeight ops tokens)
  return Statement.relate ⟨source, target, edgeType, weight⟩

def parseForget : Parser (Statement F) := do
  let _ <- advance tokens
  let target <- parseUuid ops tokens
  return Statement.forget ⟨target⟩

def parseConsolidate : Parser (Statement F) := do
  let _ <- advance tokens
  let filters <- parseClause tokens TokenKind.whereKw (parseFilters ops tokens)
  return Statement.consolidate ⟨filters.getD []⟩

def parseEdgeFilter : Parser (List EdgeType) := do
  let _ <- expect tokens TokenKind.edgeType
  let _ <- expect tokens TokenKind.eq
  let edgeType <- parseEdgeType tokens
  return [edgeType]

def parseTraverse : Parser (Statement F) := do
  let _ <- advance tokens
  let start <- parseUuid ops tokens
  let _ <- expect tokens TokenKind.depth
  let depth <- parseCount tokens "invalid depth value: "
  let edgeFilter <- parseClause tokens TokenKind.whereKw (parseEdgeFilter tokens)
  return Statement.traverse ⟨start, depth, edgeFilter⟩

/-- The statement that begins with a token, which is not passed over yet. -/
def statementFrom (tok : Token) : Parser (Statement F) :=
  match tok.kind with
  | TokenKind.recallKw => parseRecall ops tokens
  | TokenKind.relate => parseRelate ops tokens
  | TokenKind.forget => parseForget ops tokens
  | TokenKind.consolidate => parseConsolidate ops tokens
  | TokenKind.traverse => parseTraverse ops tokens
  | _ => parseError ("expected statement keyword, found " ++ tok.kind.debug ++ " at position "
      ++ toString tok.position)

def parseStatement : Parser (Statement F) := do
  let tok <- peek tokens
  statementFrom ops tokens tok

/-- The run of the parser from the first token on. -/
def parseRun : ScanRun MenteError (Statement F) := parseStatement ops tokens 0

def parse : Checked (Statement F) := (parseRun ops tokens).outcome.map Prod.fst

end Parsing

end Query
end MenteDb
