import Mathlib.Algebra.Field.Rat
import Mathlib.Algebra.Order.Ring.Rat
import Mathlib.Algebra.Order.Field.Basic
import Mathlib.Data.Rat.Sqrt

/-!
# Core types

Identifiers, timestamps, memory nodes and edges as the core crate declares them.
Floating-point scores are elements of a linearly ordered field {lit}`F`, so score arithmetic
is exact, except where a result speaks of any arithmetic.
-/

namespace MenteDb

/-- Exact scores: the carrier of embeddings, salience, confidence and weights.
The transcendental functions of the target are arbitrary functions here; a
result that needs one of their laws assumes it. -/
class Scalar (F : Type) extends Field F, LinearOrder F, IsStrictOrderedRing F where
  sqrt : F -> F
  exp2 : F -> F
  ln : F -> F

/-- Scores with operations of which nothing is assumed, so that they may round. -/
class Arith (F : Type) where
  order : LinearOrder F
  zero : Zero F
  one : One F
  add : Add F
  mul : Mul F
  div : Div F
  natCast : NatCast F
  sqrt : F -> F

section Operations

variable {F : Type} [Arith F]

-- exact scores take their operations from the field instead
instance (priority := low) Arith.toLinearOrder : LinearOrder F := Arith.order
instance (priority := low) Arith.toZero : Zero F := Arith.zero
instance (priority := low) Arith.toOne : One F := Arith.one
instance (priority := low) Arith.toAdd : Add F := Arith.add
instance (priority := low) Arith.toMul : Mul F := Arith.mul
instance (priority := low) Arith.toDiv : Div F := Arith.div
instance (priority := low) Arith.toNatCast : NatCast F := Arith.natCast

end Operations

instance {F : Type} [Scalar F] : Arith F where
  order := inferInstance
  zero := inferInstance
  one := inferInstance
  add := inferInstance
  mul := inferInstance
  div := inferInstance
  natCast := inferInstance
  sqrt := Scalar.sqrt

/-- Rational scores for concrete runs: exact at squares, at integers and at one. -/
instance : Scalar Rat where
  sqrt := Rat.sqrt
  exp2 x := 2 ^ x.floor
  ln x := x - 1

/-- A decimal constant. -/
def ratio {F : Type} [NatCast F] [Div F] (p q : Nat) : F := (p : F) / (q : F)

/-!
## Identifiers

Identifiers are 128-bit UUIDs.  {lit}`Uuid::new_v4` is a source of fresh values,
so no constructor is modelled here.
-/

structure MemoryId where
  uuid : BitVec 128
deriving DecidableEq, Repr

structure AgentId where
  uuid : BitVec 128
deriving DecidableEq, Repr

structure SpaceId where
  uuid : BitVec 128
deriving DecidableEq, Repr

/-- The hyphenated form of a UUID. -/
def uuidText (uuid : BitVec 128) : String :=
  let digits := (List.range 32).map (fun i => Nat.digitChar (uuid.toNat / 16 ^ (31 - i) % 16))
  let part := fun (start length : Nat) => String.ofList ((digits.drop start).take length)
  "-".intercalate [part 0 8, part 8 4, part 12 4, part 16 4, part 20 12]

def MemoryId.nil : MemoryId := ⟨0⟩
def AgentId.nil : AgentId := ⟨0⟩
def SpaceId.nil : SpaceId := ⟨0⟩

/-- Microseconds since the epoch. -/
abbrev Timestamp := UInt64

/-!
## Errors
-/

inductive MenteError where
  | memoryNotFound (id : MemoryId)
  | storage (message : String)
  | index (message : String)
  | query (message : String)
  | serialization (message : String)
  | invalidInput (message : String)
  | capacityExceeded (message : String)
  | embeddingDimensionMismatch (got expected : Nat)
  | permissionDenied (agentId : AgentId) (spaceId : SpaceId)
  | resourceExhausted (message : String)
  | io (message : String)
deriving DecidableEq, Repr

/-!
## Validity intervals

Memories, edges, claims and relationships share one notion of temporal validity:
an optional inclusive start and an optional exclusive end.
-/

def isValidAt (validFrom validUntil : Option Timestamp) (at_ : Timestamp) : Bool :=
  match validUntil with
  | some until_ => decide (validFrom.getD 0 <= at_) && decide (at_ < until_)
  | none => decide (validFrom.getD 0 <= at_)

theorem isValidAt_some_iff {from_ : Option Timestamp} {until_ at_ : Timestamp} :
    isValidAt from_ (some until_) at_ = true <->
      from_.getD 0 <= at_ ∧ at_ < until_ := by
  simp [isValidAt]

/-- Nothing is valid at or after its end. -/
theorem isValidAt_of_until_le {from_ : Option Timestamp} {until_ at_ : Timestamp}
    (h : until_ <= at_) : isValidAt from_ (some until_) at_ = false := by
  rw [Bool.eq_false_iff]
  intro hvalid
  exact absurd (isValidAt_some_iff.mp hvalid).2 (UInt64.not_lt.mpr h)

/-!
## Memories
-/

inductive MemoryType where
  | episodic
  | semantic
  | procedural
  | antiPattern
  | reasoning
  | correction
deriving DecidableEq, Repr

inductive AttributeValue (F : Type) where
  | string (value : String)
  | integer (value : Int)
  | float (value : F)
  | boolean (value : Bool)
  | bytes (value : List UInt8)
deriving DecidableEq, Repr

structure MemoryNode (F : Type) where
  id : MemoryId
  agentId : AgentId
  memoryType : MemoryType
  embedding : List F
  content : String
  createdAt : Timestamp
  accessedAt : Timestamp
  accessCount : UInt32
  salience : F
  confidence : F
  spaceId : SpaceId
  attributes : List (String × AttributeValue F)
  tags : List String
  validFrom : Option Timestamp
  validUntil : Option Timestamp
deriving DecidableEq, Repr

namespace MemoryNode

variable {F : Type}

/-- A new node; the caller supplies the fresh id and the clock reading. -/
def new [Scalar F] (id : MemoryId) (now : Timestamp) (agentId : AgentId)
    (memoryType : MemoryType) (content : String) (embedding : List F) :
    MemoryNode F where
  id := id
  agentId := agentId
  memoryType := memoryType
  embedding := embedding
  content := content
  createdAt := now
  accessedAt := now
  accessCount := 0
  salience := 1
  confidence := 1
  spaceId := SpaceId.nil
  attributes := []
  tags := []
  validFrom := none
  validUntil := none

def isValidAt (m : MemoryNode F) (at_ : Timestamp) : Bool :=
  MenteDb.isValidAt m.validFrom m.validUntil at_

def invalidate (m : MemoryNode F) (at_ : Timestamp) : MemoryNode F :=
  { m with validUntil := some at_ }

def isInvalidated (m : MemoryNode F) : Bool := m.validUntil.isSome

end MemoryNode

/-!
## Edges
-/

inductive EdgeType where
  | caused
  | before
  | related
  | contradicts
  | supports
  | supersedes
  | derived
  | partOf
deriving DecidableEq, Repr

structure MemoryEdge (F : Type) where
  source : MemoryId
  target : MemoryId
  edgeType : EdgeType
  weight : F
  createdAt : Timestamp
  validFrom : Option Timestamp
  validUntil : Option Timestamp
  label : Option String
deriving DecidableEq, Repr

def MemoryEdge.isInvalidated {F : Type} (e : MemoryEdge F) : Bool := e.validUntil.isSome

end MenteDb
