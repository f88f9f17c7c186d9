import MenteDb.Query.Parser
import MenteDb.Query.Tokenizing

/-!
# The grammar

The sentences of the query language as lists of tokens, with the statements they
stand for.  Which tokens may stand for the numbers of a vector and for a weight is a
parameter: the language has number tokens there, the parser takes every token whose
lexeme is a number.
-/

namespace MenteDb
namespace Query

open Foundation
open Utf8

variable {F : Type}

/-!
## Single tokens
-/

/-- What stands between the quotes. -/
def unquoted (tok : Token) : String := String.ofList tok.lexeme.toList.tail.dropLast

def nameOf (tok : Token) : Option String :=
  if tok.kind = TokenKind.identifier then some tok.lexeme
  else if tok.kind = TokenKind.stringLit then some (unquoted tok)
  else none

def memoryTypeOf (tok : Token) : Option MemoryType :=
  (nameOf tok).bind (fun name => memoryTypeNamed (lowercase name.toList))

def edgeTypeOf (tok : Token) : Option EdgeType :=
  (nameOf tok).bind (fun name => edgeTypeNamed (lowercase name.toList))

def uuidOf (ops : LiteralOps F) (tok : Token) : Option MemoryId :=
  if tok.kind = TokenKind.uuidLit then (ops.parseUuid tok.lexeme).map MemoryId.mk
  else if tok.kind = TokenKind.stringLit then (ops.parseUuid (unquoted tok)).map MemoryId.mk
  else none

/-- A value that is one token. -/
def valueOf (ops : LiteralOps F) (field : Field) (tok : Token) : Option (Value F) :=
  if field = Field.type then (memoryTypeOf tok).map Value.memoryType
  else
    match tok.kind with
    | TokenKind.stringLit => some (textValue ops (unquoted tok))
    | TokenKind.integerLit => (parseI64 tok.lexeme.toList).map Value.integer
    | TokenKind.floatLit => (ops.parseF64 tok.lexeme).map Value.number
    | TokenKind.uuidLit => (ops.parseUuid tok.lexeme).map Value.uuid
    | TokenKind.identifier => some (wordValue tok.lexeme)
    | _ => none

def countOf (tok : Token) : Option Nat := parseUsize tok.lexeme.toList

/-!
## Sentences
-/

def IsNumber (tok : Token) : Prop :=
  tok.kind = TokenKind.integerLit ∨ tok.kind = TokenKind.floatLit

/-- What the parser tries as a number: everything but the end of a vector. -/
def TriedAsNumber (tok : Token) : Prop := tok.kind ≠ TokenKind.rBracket

/-- Items with separators between them. -/
inductive Separated {α : Type} (separator : TokenKind) (item : List Token -> α -> Prop) :
    List Token -> List α -> Prop where
  | last {t : List Token} {a : α} : item t a -> Separated separator item t [a]
  | cons {t rest : List Token} {sep : Token} {a : α} {items : List α} : item t a ->
      sep.kind = separator -> Separated separator item rest items ->
        Separated separator item (t ++ sep :: rest) (a :: items)

section Sentences

variable (ops : LiteralOps F) (number : Token -> Prop)

/-- A token that stands for a number. -/
inductive EntryOf : List Token -> F -> Prop where
  | entry {tok : Token} {x : F} : number tok -> ops.parseF32 tok.lexeme = some x ->
      EntryOf [tok] x

inductive VectorOf : List Token -> List F -> Prop where
  | empty {l r : Token} : l.kind = TokenKind.lBracket -> r.kind = TokenKind.rBracket ->
      VectorOf [l, r] []
  | entries {l r : Token} {es : List Token} {xs : List F} : l.kind = TokenKind.lBracket ->
      Separated TokenKind.comma (EntryOf ops number) es xs -> r.kind = TokenKind.rBracket ->
        VectorOf (l :: (es ++ [r])) xs

inductive ValueOf (field : Field) : List Token -> Value F -> Prop where
  | single {tok : Token} {value : Value F} : valueOf ops field tok = some value ->
      ValueOf field [tok] value
  | vector {t : List Token} {xs : List F} : field ≠ Field.type -> VectorOf ops number t xs ->
      ValueOf field t (Value.vector xs)

inductive FilterOf : List Token -> Filter F -> Prop where
  | filter {f o : Token} {t : List Token} {field : Field} {op : Operator} {value : Value F} :
      fieldOf f = some field -> operatorOf o = some op -> ValueOf ops number field t value ->
        FilterOf (f :: o :: t) ⟨field, op, value⟩

def FiltersOf : List Token -> List (Filter F) -> Prop :=
  Separated TokenKind.and (FilterOf ops number)

/-- A word that may be left out. -/
inductive OptionalWord (keyword : TokenKind) : List Token -> Prop where
  | absent : OptionalWord keyword []
  | present {tok : Token} : tok.kind = keyword -> OptionalWord keyword [tok]

/-- A clause that may be left out. -/
inductive Clause {α : Type} (keyword : TokenKind) (body : List Token -> α -> Prop) :
    List Token -> Option α -> Prop where
  | absent : Clause keyword body [] none
  | present {tok : Token} {t : List Token} {a : α} : tok.kind = keyword -> body t a ->
      Clause keyword body (tok :: t) (some a)

inductive OrderByOf : List Token -> OrderBy -> Prop where
  | order {b : List Token} {f : Token} {field : Field} : OptionalWord TokenKind.byKw b ->
      fieldOf f = some field -> OrderByOf (b ++ [f]) ⟨field, false⟩

inductive CountOf : List Token -> Nat -> Prop where
  | count {tok : Token} {n : Nat} : countOf tok = some n -> CountOf [tok] n

inductive WeightOf : List Token -> F -> Prop where
  | weight {name eq : Token} {t : List Token} {x : F} : name.kind = TokenKind.identifier ->
      eq.kind = TokenKind.eq -> EntryOf ops number t x -> WeightOf (name :: eq :: t) x

inductive EdgeFilterOf : List Token -> List EdgeType -> Prop where
  | edgeType {word eq tok : Token} {edgeType : EdgeType} : word.kind = TokenKind.edgeType ->
      eq.kind = TokenKind.eq -> edgeTypeOf tok = some edgeType ->
        EdgeFilterOf [word, eq, tok] [edgeType]

/-- The tokens are a sentence for the statement. -/
inductive Derives : List Token -> Statement F -> Prop where
  | «recall» {k : Token} {m n w o l : List Token} {near : Option (List F)}
      {filters : Option (List (Filter F))} {orderBy : Option OrderBy} {limit : Option Nat} :
      k.kind = TokenKind.recallKw -> OptionalWord TokenKind.memories m ->
      Clause TokenKind.near (VectorOf ops number) n near ->
      Clause TokenKind.whereKw (FiltersOf ops number) w filters ->
      Clause TokenKind.orderBy OrderByOf o orderBy ->
      Clause TokenKind.limit CountOf l limit ->
        Derives (k :: (m ++ (n ++ (w ++ (o ++ l)))))
          (Statement.recall ⟨filters.getD [], near, limit, orderBy⟩)
  | relate {k s arrow t as_ e : Token} {w : List Token} {source target : MemoryId}
      {edgeType : EdgeType} {weight : Option F} :
      k.kind = TokenKind.relate -> uuidOf ops s = some source -> arrow.kind = TokenKind.arrow ->
      uuidOf ops t = some target -> as_.kind = TokenKind.asKw -> edgeTypeOf e = some edgeType ->
      Clause TokenKind.withKw (WeightOf ops number) w weight ->
        Derives (k :: s :: arrow :: t :: as_ :: e :: w)
          (Statement.relate ⟨source, target, edgeType, weight⟩)
  | forget {k t : Token} {target : MemoryId} :
      k.kind = TokenKind.forget -> uuidOf ops t = some target ->
        Derives [k, t] (Statement.forget ⟨target⟩)
  | consolidate {k : Token} {w : List Token} {filters : Option (List (Filter F))} :
      k.kind = TokenKind.consolidate -> Clause TokenKind.whereKw (FiltersOf ops number) w filters ->
        Derives (k :: w) (Statement.consolidate ⟨filters.getD []⟩)
  | traverse {k s d n : Token} {w : List Token} {start : MemoryId} {depth : Nat}
      {edgeFilter : Option (List EdgeType)} :
      k.kind = TokenKind.traverse -> uuidOf ops s = some start -> d.kind = TokenKind.depth ->
      countOf n = some depth -> Clause TokenKind.whereKw EdgeFilterOf w edgeFilter ->
        Derives (k :: s :: d :: n :: w) (Statement.traverse ⟨start, depth, edgeFilter⟩)

end Sentences

/-!
## Token lists of the lexer
-/

/-- The only end token is the last one, strings have their quotes, and a closing bracket
is one. -/
structure Shaped (tokens : List Token) : Prop where
  ends : exists t last, tokens = t ++ [last] ∧ last.kind = TokenKind.eof ∧ last.lexeme = "" ∧
    forall tok, tok ∈ t -> tok.kind ≠ TokenKind.eof
  spelled : forall tok, tok ∈ tokens -> Spelled tok.kind tok.lexeme.toList

theorem shaped_of_tokenize {input : String} {tokens : List Token}
    (h : tokenize input = Except.ok tokens) : Shaped tokens := by
  rcases readSoFar_of_tokenize h with ⟨words, hread, htokens⟩
  refine ⟨⟨words, _, htokens, rfl, rfl, hread.no_eof⟩, ?_⟩
  intro tok htok
  rw [htokens] at htok
  rcases List.mem_append.mp htok with htok | htok
  · exact hread.spelled tok htok
  · rw [List.mem_singleton.mp htok]
    constructor
    · intro hkind
      cases hkind
    · intro hkind
      cases hkind

end Query
end MenteDb
