import MenteDb.Core.Types
import MenteDb.Foundation.Assoc
import Mathlib.Data.List.MinMax

/-!
# Tables of the SQLite backend

Every relation with a primary key is an association table from its key columns
to its other columns.  {lit}`edges` has no key and is a list of rows, and
{lit}`memory_vec` only exists once a vector dimension is known.  The audit
relations (operations, lifecycle events, policy runs and actions, retrieval
traces) are written by the same transactions and read by none of the functions
modelled here.

An {lit}`INTEGER` column keeps the bit pattern of a timestamp.  Reading it back
is the identity; only comparisons made by SQL itself see a signed number.
-/

namespace MenteDb
namespace Sqlite

open Foundation

/-!
## Column encodings
-/

/-- Comparison of two {lit}`INTEGER` columns inside a SQL expression. -/
def sqlLe (a b : Timestamp) : Bool := decide (a.toInt64 <= b.toInt64)

def memoryTypeStr : MemoryType -> String
  | MemoryType.episodic => "Episodic"
  | MemoryType.semantic => "Semantic"
  | MemoryType.procedural => "Procedural"
  | MemoryType.antiPattern => "AntiPattern"
  | MemoryType.reasoning => "Reasoning"
  | MemoryType.correction => "Correction"

def parseMemoryType (s : String) : MemoryType :=
  if s = "Semantic" then MemoryType.semantic
  else if s = "Procedural" then MemoryType.procedural
  else if s = "AntiPattern" then MemoryType.antiPattern
  else if s = "Reasoning" then MemoryType.reasoning
  else if s = "Correction" then MemoryType.correction
  else MemoryType.episodic

@[simp] theorem parseMemoryType_memoryTypeStr (t : MemoryType) :
    parseMemoryType (memoryTypeStr t) = t := by
  cases t <;> decide

def edgeTypeStr : EdgeType -> String
  | EdgeType.caused => "Caused"
  | EdgeType.before => "Before"
  | EdgeType.related => "Related"
  | EdgeType.contradicts => "Contradicts"
  | EdgeType.supports => "Supports"
  | EdgeType.supersedes => "Supersedes"
  | EdgeType.derived => "Derived"
  | EdgeType.partOf => "PartOf"

def parseEdgeType (s : String) : EdgeType :=
  if s = "Caused" then EdgeType.caused
  else if s = "Before" then EdgeType.before
  else if s = "Related" then EdgeType.related
  else if s = "Contradicts" then EdgeType.contradicts
  else if s = "Supports" then EdgeType.supports
  else if s = "Supersedes" then EdgeType.supersedes
  else if s = "Derived" then EdgeType.derived
  else if s = "PartOf" then EdgeType.partOf
  else EdgeType.related

@[simp] theorem parseEdgeType_edgeTypeStr (t : EdgeType) :
    parseEdgeType (edgeTypeStr t) = t := by
  cases t <;> decide

/-!
## Rows
-/

/-- {lit}`memories`, keyed by {lit}`id`; {lit}`rowid` is the implicit key. -/
structure MemoryRow (F : Type) where
  rowid : Nat
  agentId : AgentId
  spaceId : SpaceId
  memoryType : String
  content : String
  embedding : Option (List F)
  createdAt : Timestamp
  accessedAt : Timestamp
  accessCount : UInt32
  salience : F
  confidence : F
  attributes : List (String × AttributeValue F)
  validFrom : Option Timestamp
  validUntil : Option Timestamp
deriving DecidableEq

structure EdgeRow (F : Type) where
  source : MemoryId
  target : MemoryId
  edgeType : String
  weight : F
  createdAt : Timestamp
  validFrom : Option Timestamp
  validUntil : Option Timestamp
  label : Option String
deriving DecidableEq

/-- The vector table: a fixed dimension and one vector per {lit}`rowid`. -/
structure Vec0 (F : Type) where
  dim : Nat
  rows : List (Nat × List F)
deriving DecidableEq

/-- {lit}`memory_sources`, keyed by {lit}`source_id`. -/
structure MemorySourceRow where
  memoryId : MemoryId
  sourceType : String
  conversationId : Option String
  turnId : Option String
  actorId : Option String
  observedAt : Option Timestamp
  extractor : Option String
  extractorHash : Option String
  promptHash : Option String
  payloadJson : String
  createdAt : Timestamp
deriving DecidableEq

/-- {lit}`conversations`, keyed by {lit}`conversation_id`. -/
structure ConversationRow where
  title : Option String
  metadataJson : String
  createdAt : Timestamp
  updatedAt : Timestamp
deriving DecidableEq

/-- {lit}`extraction_runs`, keyed by {lit}`run_id`. -/
structure ExtractionRunRow where
  sourceMemoryId : Option MemoryId
  conversationId : Option String
  extractor : String
  extractorVersion : String
  model : Option String
  promptHash : Option String
  configHash : Option String
  status : String
  error : Option String
  outputJson : String
  startedAt : Timestamp
  completedAt : Option Timestamp
deriving DecidableEq

/-- {lit}`entities`, keyed by {lit}`entity_id`. -/
structure EntityRow (F : Type) where
  entityType : String
  canonical : String
  attributesJson : String
  confidence : F
  createdAt : Timestamp
  updatedAt : Timestamp
deriving DecidableEq

/-- {lit}`entity_aliases`, keyed by {lit}`(entity_id, alias)`. -/
structure EntityAliasRow (F : Type) where
  source : Option String
  confidence : F
deriving DecidableEq

/-- {lit}`memory_entities`, keyed by {lit}`(memory_id, entity_id, role)`. -/
structure MemoryEntityRow (F : Type) where
  confidence : F
  evidence : Option String
deriving DecidableEq

/-- {lit}`claims`, keyed by {lit}`claim_id`. -/
structure ClaimRow (F : Type) where
  claimText : String
  claimType : String
  subjectEntityId : Option String
  predicate : Option String
  objectEntityId : Option String
  confidence : F
  status : String
  validFrom : Option Timestamp
  validUntil : Option Timestamp
  attributesJson : String
  sourceRunId : Option String
  createdAt : Timestamp
  updatedAt : Timestamp
deriving DecidableEq

/-- {lit}`entity_relationships`, keyed by {lit}`relationship_id`. -/
structure RelationshipRow (F : Type) where
  sourceEntityId : String
  targetEntityId : String
  relationType : String
  confidence : F
  status : String
  validFrom : Option Timestamp
  validUntil : Option Timestamp
  attributesJson : String
  sourceRunId : Option String
  createdAt : Timestamp
  updatedAt : Timestamp
deriving DecidableEq

/-- {lit}`claim_evidence` and {lit}`relationship_evidence`, keyed by
{lit}`evidence_id`; {lit}`ownerId` is the claim or relationship. -/
structure EvidenceRow (F : Type) where
  ownerId : String
  memoryId : MemoryId
  sourceId : Option String
  evidenceText : Option String
  spanStart : Option Int
  spanEnd : Option Int
  confidence : F
  createdAt : Timestamp
deriving DecidableEq

/-!
## Memories and their full-text mirror

{lit}`memories_fts` is an external-content table that three triggers keep in
step with {lit}`memories`.  The pair is one unit: rowids identify memories and
the mirror holds the rowid and the content of every stored memory, nothing else.
-/

structure MemoryTable (F : Type) where
  rows : Assoc MemoryId (MemoryRow F)
  fts : List (Nat × String)
  rowid_inj : forall i j ri rj, rows.find? i = some ri -> rows.find? j = some rj ->
    ri.rowid = rj.rowid -> i = j
  fts_mirror : forall r c, (r, c) ∈ fts <->
    exists id row, rows.find? id = some row ∧ row.rowid = r ∧ row.content = c

namespace MemoryTable

variable {F : Type}

def empty : MemoryTable F where
  rows := Assoc.empty
  fts := []
  rowid_inj := by
    intro i j ri rj hi
    cases hi
  fts_mirror := by
    intro r c
    constructor
    · intro h
      cases h
    · intro h
      rcases h with ⟨id, row, hrow, _⟩
      cases hrow

def find? (m : MemoryTable F) (id : MemoryId) : Option (MemoryRow F) := m.rows.find? id

def contains (m : MemoryTable F) (id : MemoryId) : Bool := m.rows.contains id

def ids (m : MemoryTable F) : List MemoryId := m.rows.keys

/-- Rowid of a stored memory. -/
def rowidOf (m : MemoryTable F) (id : MemoryId) : Option Nat :=
  (m.find? id).map MemoryRow.rowid

/-- The memory stored under a rowid. -/
def idOfRowid (m : MemoryTable F) (rowid : Nat) : Option MemoryId :=
  (m.rows.entries.find? (fun e => decide (e.2.rowid = rowid))).map Prod.fst

/-- A fresh rowid is one more than the largest in use. -/
def nextRowid (m : MemoryTable F) : Nat :=
  (m.rows.entries.map (fun e => e.2.rowid)).foldr max 0 + 1

theorem rowid_lt_nextRowid {m : MemoryTable F} {id : MemoryId} {row : MemoryRow F}
    (h : m.rows.find? id = some row) : row.rowid < m.nextRowid := by
  have hmem := Assoc.find?_eq_some_iff.mp h
  exact Nat.lt_succ_of_le (List.le_max_of_le' 0 (List.mem_map_of_mem hmem) (Nat.le_refl _))

theorem rowid_inj_insert (m : MemoryTable F) (id : MemoryId) (row : MemoryRow F) :
    forall i j ri rj,
      (m.rows.insert id { row with rowid := m.nextRowid }).find? i = some ri ->
      (m.rows.insert id { row with rowid := m.nextRowid }).find? j = some rj ->
      ri.rowid = rj.rowid -> i = j := by
  intro i j ri rj hi hj hrow
  rw [Assoc.find?_insert] at hi hj
  split at hi
  · rename_i hik
    split at hj
    · rename_i hjk
      rw [hik, hjk]
    · cases hi
      exact absurd hrow (Nat.ne_of_gt (rowid_lt_nextRowid hj))
  · split at hj
    · cases hj
      exact absurd hrow (Nat.ne_of_lt (rowid_lt_nextRowid hi))
    · exact m.rowid_inj i j ri rj hi hj hrow

/-- {lit}`INSERT`: the insert trigger adds the mirror row. -/
def insert (m : MemoryTable F) (id : MemoryId) (row : MemoryRow F)
    (hfresh : m.rows.find? id = none) : MemoryTable F where
  rows := m.rows.insert id { row with rowid := m.nextRowid }
  fts := m.fts ++ [(m.nextRowid, row.content)]
  rowid_inj := m.rowid_inj_insert id row
  fts_mirror := by
    intro r c
    rw [List.mem_append, m.fts_mirror r c]
    constructor
    · intro h
      rcases h with ⟨k, old, hold, hr, hc⟩ | hnew
      · refine ⟨k, old, ?_, hr, hc⟩
        have hne : k ≠ id := by
          intro heq
          rw [heq, hfresh] at hold
          cases hold
        rw [Assoc.find?_insert, if_neg hne]
        exact hold
      · have hpair : r = m.nextRowid ∧ c = row.content := by simpa using hnew
        refine ⟨id, { row with rowid := m.nextRowid }, ?_, hpair.1.symm, hpair.2.symm⟩
        rw [Assoc.find?_insert, if_pos rfl]
    · intro h
      rcases h with ⟨k, old, hold, hr, hc⟩
      rw [Assoc.find?_insert] at hold
      split at hold
      · cases hold
        right
        simp only at hr hc
        simp [← hr, ← hc]
      · exact Or.inl ⟨k, old, hold, hr, hc⟩

/-- {lit}`UPDATE` of one row: the update trigger replaces the mirror row.  The
rowid is not a column and stays. -/
def modify (m : MemoryTable F) (id : MemoryId) (f : MemoryRow F -> MemoryRow F) :
    MemoryTable F where
  rows := m.rows.update (fun k _ => decide (k = id))
    (fun _ row => { f row with rowid := row.rowid })
  fts :=
    match m.rows.find? id with
    | none => m.fts
    | some old =>
        m.fts.filter (fun r => decide (r ≠ (old.rowid, old.content)))
          ++ [(old.rowid, (f old).content)]
  rowid_inj := by
    intro i j ri rj hi hj hrow
    rw [Assoc.find?_update] at hi hj
    rcases Option.map_eq_some_iff.mp hi with ⟨oi, hoi, heqi⟩
    rcases Option.map_eq_some_iff.mp hj with ⟨oj, hoj, heqj⟩
    have hri : ri.rowid = oi.rowid := by
      rw [← heqi]
      split <;> rfl
    have hrj : rj.rowid = oj.rowid := by
      rw [← heqj]
      split <;> rfl
    exact m.rowid_inj i j oi oj hoi hoj (by rw [← hri, ← hrj, hrow])
  fts_mirror := by
    intro r c
    simp only [Assoc.find?_update]
    cases hid : m.rows.find? id with
    | none =>
        simp only
        rw [m.fts_mirror r c]
        constructor
        · intro h
          rcases h with ⟨k, old, hold, hr, hc⟩
          have hne : k ≠ id := by
            intro heq
            rw [heq, hid] at hold
            cases hold
          exact ⟨k, old, by simp [hold, hne], hr, hc⟩
        · intro h
          rcases h with ⟨k, new, hnew, hr, hc⟩
          have hne : k ≠ id := by
            intro heq
            rw [heq, hid] at hnew
            cases hnew
          exact ⟨k, new, by simpa [hne] using hnew, hr, hc⟩
    | some old =>
        simp only [List.mem_append, List.mem_filter, m.fts_mirror r c]
        constructor
        · intro h
          rcases h with ⟨⟨k, row, hrow, hr, hc⟩, hne⟩ | hnew
          · have hkid : k ≠ id := by
              intro heq
              rw [heq, hid] at hrow
              cases hrow
              simp [← hr, ← hc] at hne
            exact ⟨k, row, by simp [hrow, hkid], hr, hc⟩
          · have hpair : r = old.rowid ∧ c = (f old).content := by simpa using hnew
            exact ⟨id, { f old with rowid := old.rowid }, by simp [hid], hpair.1.symm,
              hpair.2.symm⟩
        · intro h
          rcases h with ⟨k, new, hnew, hr, hc⟩
          by_cases hkid : k = id
          · subst hkid
            rw [hid] at hnew
            simp only [Option.map_some, decide_true, if_true, Option.some.injEq] at hnew
            right
            rw [← hnew] at hr hc
            simp only at hr hc
            simp [← hr, ← hc]
          · have hold : m.rows.find? k = some new := by simpa [hkid] using hnew
            refine Or.inl ⟨⟨k, new, hold, hr, hc⟩, ?_⟩
            simp only [ne_eq, Prod.mk.injEq, decide_eq_true_eq]
            intro heq
            exact hkid (m.rowid_inj k id new old hold hid (by rw [hr, heq.1]))

/-- {lit}`DELETE` of one row: the delete trigger removes the mirror row. -/
def delete (m : MemoryTable F) (id : MemoryId) : MemoryTable F where
  rows := m.rows.erase id
  fts :=
    match m.rows.find? id with
    | none => m.fts
    | some old => m.fts.filter (fun r => decide (r ≠ (old.rowid, old.content)))
  rowid_inj := by
    intro i j ri rj hi hj hrow
    rw [Assoc.find?_erase] at hi hj
    split at hi
    · cases hi
    · split at hj
      · cases hj
      · exact m.rowid_inj i j ri rj hi hj hrow
  fts_mirror := by
    intro r c
    simp only [Assoc.find?_erase]
    cases hid : m.rows.find? id with
    | none =>
        simp only
        rw [m.fts_mirror r c]
        constructor
        · intro h
          rcases h with ⟨k, old, hold, hr, hc⟩
          have hne : k ≠ id := by
            intro heq
            rw [heq, hid] at hold
            cases hold
          exact ⟨k, old, by simp [hold, hne], hr, hc⟩
        · intro h
          rcases h with ⟨k, old, hold, hr, hc⟩
          split at hold
          · cases hold
          · exact ⟨k, old, hold, hr, hc⟩
    | some old =>
        simp only [List.mem_filter, m.fts_mirror r c]
        constructor
        · intro h
          rcases h with ⟨⟨k, row, hrow, hr, hc⟩, hne⟩
          have hkid : k ≠ id := by
            intro heq
            rw [heq, hid] at hrow
            cases hrow
            simp [← hr, ← hc] at hne
          exact ⟨k, row, by simp [hrow, hkid], hr, hc⟩
        · intro h
          rcases h with ⟨k, row, hrow, hr, hc⟩
          split at hrow
          · cases hrow
          · rename_i hkid
            refine ⟨⟨k, row, hrow, hr, hc⟩, ?_⟩
            simp only [ne_eq, Prod.mk.injEq, decide_eq_true_eq]
            intro heq
            exact hkid (m.rowid_inj k id row old hrow hid (by rw [hr, heq.1]))

/-!
### Reading after a write
-/

theorem find?_insert {m : MemoryTable F} {id : MemoryId} {row : MemoryRow F}
    (hfresh : m.rows.find? id = none) (j : MemoryId) :
    (m.insert id row hfresh).find? j =
      if j = id then some { row with rowid := m.nextRowid } else m.find? j :=
  Assoc.find?_insert m.rows id _ j

theorem find?_modify (m : MemoryTable F) (id : MemoryId) (f : MemoryRow F -> MemoryRow F)
    (j : MemoryId) :
    (m.modify id f).find? j =
      (m.find? j).map (fun row =>
        if j = id then { f row with rowid := row.rowid } else row) := by
  unfold find? modify
  rw [Assoc.find?_update]
  simp only [decide_eq_true_eq]

theorem find?_delete (m : MemoryTable F) (id j : MemoryId) :
    (m.delete id).find? j = if j = id then none else m.find? j :=
  Assoc.find?_erase m.rows id j

theorem contains_eq (m : MemoryTable F) (id : MemoryId) :
    m.contains id = (m.find? id).isSome := rfl

theorem mem_ids {m : MemoryTable F} {id : MemoryId} :
    id ∈ m.ids <-> m.contains id = true :=
  Assoc.contains_iff_mem_keys.symm

end MemoryTable

/-!
## The database
-/

structure Tables (F : Type) where
  /-- {lit}`schema_meta` under the key {lit}`embedding_dim`. -/
  metaEmbeddingDim : Option Nat
  memories : MemoryTable F
  memoryTags : Assoc (MemoryId × String) Unit
  memoryVec : Option (Vec0 F)
  edges : List (EdgeRow F)
  memorySources : Assoc String MemorySourceRow
  conversations : Assoc String ConversationRow
  extractionRuns : Assoc String ExtractionRunRow
  entities : Assoc String (EntityRow F)
  entityAliases : Assoc (String × String) (EntityAliasRow F)
  memoryEntities : Assoc (MemoryId × String × String) (MemoryEntityRow F)
  claims : Assoc String (ClaimRow F)
  claimEntities : Assoc (String × String × String) F
  claimEvidence : Assoc String (EvidenceRow F)
  entityRelationships : Assoc String (RelationshipRow F)
  relationshipEvidence : Assoc String (EvidenceRow F)

def Tables.empty {F : Type} : Tables F where
  metaEmbeddingDim := none
  memories := MemoryTable.empty
  memoryTags := Assoc.empty
  memoryVec := none
  edges := []
  memorySources := Assoc.empty
  conversations := Assoc.empty
  extractionRuns := Assoc.empty
  entities := Assoc.empty
  entityAliases := Assoc.empty
  memoryEntities := Assoc.empty
  claims := Assoc.empty
  claimEntities := Assoc.empty
  claimEvidence := Assoc.empty
  entityRelationships := Assoc.empty
  relationshipEvidence := Assoc.empty

end Sqlite
end MenteDb
