import MenteDb.Core.Types

/-!
# Query plans

What the planner makes of a statement of the query language.
-/

namespace MenteDb
namespace Query

inductive Field where
  | content
  | type
  | tag
  | agent
  | space
  | salience
  | confidence
  | created
  | accessed
deriving DecidableEq, Repr

inductive Operator where
  | eq
  | neq
  | gt
  | lt
  | gte
  | lte
  | similarTo
deriving DecidableEq, Repr

inductive Value (F : Type) where
  | text (value : String)
  | number (value : F)
  | integer (value : Int64)
  | bool (value : Bool)
  | uuid (value : BitVec 128)
  | vector (value : List F)
  | memoryType (value : MemoryType)
  | edgeType (value : EdgeType)
deriving DecidableEq

structure Filter (F : Type) where
  field : Field
  op : Operator
  value : Value F
deriving DecidableEq

inductive QueryPlan (F : Type) where
  | vectorSearch (query : List F) (k : Nat) (filters : List (Filter F))
  | tagScan (tags : List String) (filters : List (Filter F)) (limit : Option Nat)
  | temporalScan (start stop : Timestamp) (filters : List (Filter F))
  | graphTraversal (start : MemoryId) (depth : Nat) (edgeTypes : List EdgeType)
  | pointLookup (id : MemoryId)
  | edgeInsert (source target : MemoryId) (edgeType : EdgeType) (weight : F)
  | delete (id : MemoryId)
  | consolidate (filters : List (Filter F))
deriving DecidableEq

end Query
end MenteDb
