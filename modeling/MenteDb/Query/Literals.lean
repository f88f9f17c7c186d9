import MenteDb.Query.Planner

/-!
# Statements and literals

The statements of the query language with their plans, and what the lexemes of
literals are worth.
-/

namespace MenteDb
namespace Query

variable {F : Type}

/-!
## Statements
-/

structure RelateStatement (F : Type) where
  source : MemoryId
  target : MemoryId
  edgeType : EdgeType
  weight : Option F

structure ForgetStatement where
  target : MemoryId

structure ConsolidateStatement (F : Type) where
  filters : List (Filter F)

structure TraverseStatement where
  start : MemoryId
  depth : Nat
  edgeFilter : Option (List EdgeType)

inductive Statement (F : Type) where
  | «recall» (statement : RecallStatement F)
  | relate (statement : RelateStatement F)
  | forget (statement : ForgetStatement)
  | consolidate (statement : ConsolidateStatement F)
  | traverse (statement : TraverseStatement)

def plan [Scalar F] (statement : Statement F) : Except MenteError (QueryPlan F) :=
  match statement with
  | Statement.recall statement => planRecall statement
  | Statement.relate statement =>
      Except.ok (QueryPlan.edgeInsert statement.source statement.target statement.edgeType
        (statement.weight.getD 1))
  | Statement.forget statement => Except.ok (QueryPlan.delete statement.target)
  | Statement.consolidate statement => Except.ok (QueryPlan.consolidate statement.filters)
  | Statement.traverse statement =>
      Except.ok (QueryPlan.graphTraversal statement.start statement.depth
        (statement.edgeFilter.getD []))

/-!
## Numbers
-/

def digitsValue (s : List Char) : Option Nat :=
  if s.isEmpty || !s.all Char.isDigit then none
  else some (s.foldl (fun n c => 10 * n + (c.toNat - '0'.toNat)) 0)

/-- An unsigned number of 64 bits; a plus sign is allowed. -/
def parseUsize (s : List Char) : Option Nat :=
  let digits := if s.head? = some '+' then s.tail else s
  (digitsValue digits).bind (fun n => if n < 2 ^ 64 then some n else none)

/-- A signed number of 64 bits. -/
def parseI64 (s : List Char) : Option Int64 :=
  let negative := decide (s.head? = some '-')
  let digits := if negative || decide (s.head? = some '+') then s.tail else s
  (digitsValue digits).bind (fun n =>
    if negative then
      if n <= 2 ^ 63 then some (Int64.ofInt (-n)) else none
    else if n < 2 ^ 63 then some (Int64.ofInt n) else none)

/-- What a floating-point literal says, before it is rounded. -/
inductive Decimal where
  | finite (negative : Bool) (mantissa : Nat) (exponent : Int)
  | infinity (negative : Bool)
  | nan (negative : Bool)
deriving DecidableEq, Repr

/-- The digits behind the letter of an exponent. -/
def parseExponent (s : List Char) : Option Int :=
  let negative := decide (s.head? = some '-')
  let digits := if negative || decide (s.head? = some '+') then s.tail else s
  (digitsValue digits).map (fun n => if negative then -(n : Int) else n)

def parseMantissa (negative : Bool) (s : List Char) (exponent : Int) : Option Decimal :=
  let whole := s.takeWhile (fun c => decide (c ≠ '.'))
  let fraction := (s.dropWhile (fun c => decide (c ≠ '.'))).tail
  (digitsValue (whole ++ fraction)).map (fun n =>
    Decimal.finite negative n (exponent - fraction.length))

/-- The number syntax of the target: an optional sign, then {lit}`inf`, {lit}`infinity`,
{lit}`nan` in any case, or digits with at most one dot and an optional exponent. -/
def parseDecimal (s : List Char) : Option Decimal :=
  let negative := decide (s.head? = some '-')
  let body := if negative || decide (s.head? = some '+') then s.tail else s
  let lower := body.map Char.toLower
  if lower = ['i', 'n', 'f'] ∨ lower = ['i', 'n', 'f', 'i', 'n', 'i', 't', 'y'] then
    some (Decimal.infinity negative)
  else if lower = ['n', 'a', 'n'] then some (Decimal.nan negative)
  else
    let mantissa := body.takeWhile (fun c => decide (c.toLower ≠ 'e'))
    match body.dropWhile (fun c => decide (c.toLower ≠ 'e')) with
    | [] => parseMantissa negative mantissa 0
    | _ :: digits => (parseExponent digits).bind (parseMantissa negative mantissa)

/-- Reading identifiers and rounding numbers is up to the libraries of the target. -/
structure LiteralOps (F : Type) where
  /-- The identifier a text spells, in one of the forms of the library. -/
  parseUuid : String -> Option (BitVec 128)
  /-- The nearest single. -/
  single : Decimal -> F
  /-- The nearest double. -/
  double : Decimal -> F

def LiteralOps.parseF32 (ops : LiteralOps F) (s : String) : Option F :=
  (parseDecimal s.toList).map ops.single

def LiteralOps.parseF64 (ops : LiteralOps F) (s : String) : Option F :=
  (parseDecimal s.toList).map ops.double

end Query
end MenteDb
