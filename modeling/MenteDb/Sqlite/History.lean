import MenteDb.Sqlite.Encoding
import MenteDb.Sqlite.Projection

/-!
# Histories of writes

Every write of the backend touches the memories through three statements: the
upsert of a node with its tags, the update of its end of validity, and its
deletion.  The columns follow the typed tables through each of them, so loading
a memory from the columns gives what the whole history of writes says about it.
-/

namespace MenteDb
namespace Sqlite

open Foundation

variable {F : Type}

/-!
## The columns of the tables
-/

namespace SqlDb

/-- The columns of a typed row. -/
def encodeRow (codec : Codec F) (row : MemoryRow F) : SqlMemoryRow F where
  agentId := uuidText row.agentId.uuid
  spaceId := uuidText row.spaceId.uuid
  memoryType := row.memoryType
  content := row.content
  embedding := row.embedding.map codec.embeddingToBlob
  createdAt := row.createdAt.toInt64
  accessedAt := row.accessedAt.toInt64
  accessCount := row.accessCount.toUInt64.toInt64
  salience := row.salience
  confidence := row.confidence
  attributes := codec.attributesToJson row.attributes
  validFrom := row.validFrom.map UInt64.toInt64
  validUntil := row.validUntil.map UInt64.toInt64

/-- The columns hold the rows and the tags of the tables. -/
structure Represents (codec : Codec F) (db : SqlDb F) (t : Tables F) : Prop where
  rows : forall id, db.memories.find? (idText id) = (t.memories.find? id).map (encodeRow codec)
  tags : forall id tag, db.memoryTags.contains (idText id, tag) = true <->
    t.memoryTags.contains (id, tag) = true

variable {codec : Codec F}

theorem idText_inj (codec : Codec F) {a b : MemoryId} : idText a = idText b <-> a = b := by
  constructor
  · intro h
    have huuid := codec.uuidText_injective h
    cases a
    cases b
    exact congrArg MemoryId.mk huuid
  · intro h
    rw [h]

theorem paramsOf_eq_encodeRow (node : MemoryNode F) (rowid : Nat) (createdAt : Timestamp) :
    { paramsOf codec node with createdAt := createdAt.toInt64 } =
      encodeRow codec { Tables.rowOfNode node createdAt with rowid := rowid } := by
  unfold paramsOf encodeRow Tables.rowOfNode
  by_cases hempty : node.embedding = []
  · simp [hempty]
  · simp [hempty]

theorem contains_replaceTags (db : SqlDb F) (key : String) (tags : List String) (k tag : String) :
    (db.replaceTags key tags).memoryTags.contains (k, tag) = true <->
      (k = key ∧ tag ∈ tags) ∨ (k ≠ key ∧ db.memoryTags.contains (k, tag) = true) := by
  unfold replaceTags
  rw [Assoc.contains_foldl_insert (fun tag => (key, tag)), Assoc.contains,
    Assoc.find?_deleteWhere]
  by_cases hk : k = key
  · simp [hk]
  · cases hfind : db.memoryTags.find? (k, tag) with
    | none => simp [hk, hfind, Assoc.contains]
    | some v => simp [hk, hfind, Assoc.contains]

theorem Represents.store [Scalar F] {db : SqlDb F} {t t' : Tables F} {node : MemoryNode F}
    {dim : Nat} (h : Represents codec db t)
    (hrun : Tables.storeMemoryOn node dim t = Except.ok t') :
    Represents codec (db.execute codec (MemoryStatement.store node)) t' := by
  constructor
  · intro id
    rw [Tables.storeMemoryOn_find? hrun]
    show (db.memories.upsert (idText node.id) _).find? (idText id) = _
    rw [Assoc.find?_upsert, h.rows node.id, h.rows id]
    simp only [idText_inj codec]
    by_cases hid : id = node.id
    · rw [if_pos hid, if_pos hid]
      cases t.memories.find? node.id with
      | none => exact congrArg some (paramsOf_eq_encodeRow node _ node.createdAt)
      | some old => exact congrArg some (paramsOf_eq_encodeRow node _ old.createdAt)
    · rw [if_neg hid, if_neg hid]
  · intro id tag
    rw [Tables.storeMemoryOn_tags hrun]
    show ((db.upsertMemory _ _).replaceTags (idText node.id) node.tags).memoryTags.contains _ =
      true <-> _
    rw [contains_replaceTags, ne_eq, idText_inj codec]
    exact or_congr_right (and_congr_right (fun _ => h.tags id tag))

theorem Represents.invalidate {db : SqlDb F} {t t' : Tables F} {id : MemoryId}
    {at_ : Timestamp} (h : Represents codec db t)
    (hrun : Tables.invalidateMemoryOn id at_ t = Except.ok t') :
    Represents codec (db.execute codec (MemoryStatement.invalidate id at_)) t' := by
  cases hrun
  constructor
  · intro j
    show (db.memories.update _ _).find? (idText j) =
      ((t.memories.modify id _).find? j).map (encodeRow codec)
    rw [Assoc.find?_update, h.rows j, MemoryTable.find?_modify]
    simp only [decide_eq_true_eq, idText_inj codec]
    cases t.memories.find? j with
    | none => rfl
    | some row =>
        by_cases hj : j = id
        · simp [hj, encodeRow]
        · simp [hj]
  · exact h.tags

end SqlDb

namespace Tables

theorem find?_deleteMemory (t : Tables F) (id j : MemoryId) :
    (t.deleteMemory id).memories.find? j = if j = id then none else t.memories.find? j := by
  unfold deleteMemory
  split
  · rename_i hnone
    split
    · rename_i hj
      rw [hj]
      exact Option.map_eq_none_iff.mp hnone
    · rfl
  · exact MemoryTable.find?_delete t.memories id j

theorem tags_deleteMemory (t : Tables F) (id j : MemoryId) (tag : String) :
    (t.deleteMemory id).memoryTags.contains (j, tag) = true <->
      t.memoryTags.contains (j, tag) = true ∧
        (j = id -> t.memories.contains id = false) := by
  unfold deleteMemory
  split
  · rename_i hnone
    have hfind : t.memories.find? id = none := Option.map_eq_none_iff.mp hnone
    rw [MemoryTable.contains_eq, hfind]
    simp
  · rename_i rowid hsome
    rcases Option.map_eq_some_iff.mp hsome with ⟨row, hrow, _⟩
    rw [MemoryTable.contains_eq, hrow]
    show (t.memoryTags.deleteWhere _).contains (j, tag) = true <-> _
    rw [Assoc.contains, Assoc.find?_deleteWhere, Assoc.contains]
    by_cases hj : j = id
    · cases t.memoryTags.find? (j, tag) <;> simp [hj]
    · cases t.memoryTags.find? (j, tag) <;> simp [hj]

end Tables

namespace SqlDb

variable {codec : Codec F}

theorem Represents.delete {db : SqlDb F} {t : Tables F} (h : Represents codec db t)
    (id : MemoryId) :
    Represents codec (db.execute codec (MemoryStatement.delete id)) (t.deleteMemory id) := by
  have hcontains : db.memories.contains (idText id) = t.memories.contains id := by
    rw [Assoc.contains, h.rows, MemoryTable.contains_eq, Option.isSome_map]
  unfold execute
  simp only
  split
  · rename_i hstored
    rw [hcontains] at hstored
    constructor
    · intro j
      rw [Tables.find?_deleteMemory, Assoc.find?_erase, h.rows j]
      simp only [idText_inj codec]
      split <;> rfl
    · intro j tag
      rw [Tables.tags_deleteMemory, hstored, Assoc.contains, Assoc.find?_deleteWhere]
      have htags := h.tags j tag
      simp only [Assoc.contains, idText_inj codec] at htags ⊢
      by_cases hj : j = id
      · cases db.memoryTags.find? (idText j, tag) <;> simp [hj]
      · rw [← htags]
        cases db.memoryTags.find? (idText j, tag) <;> simp [hj]
  · rename_i hstored
    have hmissing : t.memories.contains id = false := by
      rw [← hcontains]
      exact Bool.eq_false_iff.mpr hstored
    constructor
    · intro j
      rw [Tables.find?_deleteMemory, h.rows j]
      split
      · rename_i hj
        have hnone : t.memories.find? id = none :=
          Option.isNone_iff_eq_none.mp (Option.isSome_eq_false_iff.mp hmissing)
        rw [hj, hnone]
      · rfl
    · intro j tag
      rw [Tables.tags_deleteMemory, hmissing, h.tags j tag]
      simp

end SqlDb

/-!
## What a history says

The creation time of a memory is the one of its first store since it was last
deleted.
-/

/-- The creation time after a further statement. -/
def stamp (id : MemoryId) (first : Option Timestamp) : MemoryStatement F -> Option Timestamp
  | MemoryStatement.store node =>
      if id = node.id then some (first.getD node.createdAt) else first
  | MemoryStatement.invalidate _ _ => first
  | MemoryStatement.delete j => if id = j then none else first

def firstStored (history : List (MemoryStatement F)) (id : MemoryId) : Option Timestamp :=
  history.foldl (stamp id) none

/-- The columns and the creation times agree with the tables. -/
structure Agrees (codec : Codec F) (db : SqlDb F) (history : List (MemoryStatement F))
    (t : Tables F) : Prop where
  represents : SqlDb.Represents codec db t
  created : forall id, (t.memories.find? id).map MemoryRow.createdAt = firstStored history id

theorem firstStored_append (history : List (MemoryStatement F)) (statement : MemoryStatement F)
    (id : MemoryId) :
    firstStored (history ++ [statement]) id = stamp id (firstStored history id) statement := by
  unfold firstStored
  rw [List.foldl_append]
  rfl

/-- A transaction whose effect on the memories is a list of statements. -/
def Follows (codec : Codec F) (tx : Tx F) (statements : List (MemoryStatement F)) : Prop :=
  forall db history t t', Agrees codec db history t -> tx t = Except.ok t' ->
    Agrees codec (db.executeAll codec statements) (history ++ statements) t'

/-- A transaction that leaves the memories and their tags alone. -/
def LeavesMemories (tx : Tx F) : Prop :=
  forall t t', tx t = Except.ok t' -> t'.memories = t.memories ∧ t'.memoryTags = t.memoryTags

section Rules

variable {codec : Codec F} {a b tx : Tx F}

theorem LeavesMemories.follows (h : LeavesMemories tx) : Follows codec tx [] := by
  intro db history t t' hagrees hrun
  rcases h t t' hrun with ⟨hmemories, htags⟩
  rw [List.append_nil]
  refine ⟨⟨?_, ?_⟩, ?_⟩
  · intro id
    rw [hmemories]
    exact hagrees.represents.rows id
  · intro id tag
    rw [htags]
    exact hagrees.represents.tags id tag
  · intro id
    rw [hmemories]
    exact hagrees.created id

theorem Follows.andThen {xs ys : List (MemoryStatement F)} (ha : Follows codec a xs)
    (hb : Follows codec b ys) : Follows codec (Atomic.andThen a b) (xs ++ ys) := by
  intro db history t t' hagrees hrun
  rcases Atomic.andThen_eq_ok.mp hrun with ⟨mid, hmid, hend⟩
  have hfirst := ha db history t mid hagrees hmid
  have hsecond := hb _ _ mid t' hfirst hend
  unfold SqlDb.executeAll at hsecond ⊢
  rw [List.foldl_append, ← List.append_assoc]
  exact hsecond

theorem Follows.forEach {α : Type} {body : α -> Tx F} {statement : α -> MemoryStatement F}
    (h : forall x, Follows codec (body x) [statement x]) (xs : List α) :
    Follows codec (Atomic.forEach xs body) (xs.map statement) := by
  induction xs with
  | nil =>
      intro db history t t' hagrees hrun
      cases hrun
      rw [List.map_nil, List.append_nil]
      exact hagrees
  | cons x rest ih => exact (h x).andThen ih

theorem LeavesMemories.andThen (ha : LeavesMemories a) (hb : LeavesMemories b) :
    LeavesMemories (Atomic.andThen a b) := by
  intro t t' hrun
  rcases Atomic.andThen_eq_ok.mp hrun with ⟨mid, hmid, hend⟩
  rcases ha t mid hmid with ⟨hmemories, htags⟩
  rcases hb mid t' hend with ⟨hmemories', htags'⟩
  exact ⟨hmemories'.trans hmemories, htags'.trans htags⟩

theorem LeavesMemories.forEach {α : Type} {body : α -> Tx F} (h : forall x, LeavesMemories (body x))
    (xs : List α) : LeavesMemories (Atomic.forEach xs body) := by
  induction xs with
  | nil =>
      intro t t' hrun
      cases hrun
      exact ⟨rfl, rfl⟩
  | cons x rest ih => exact (h x).andThen ih

theorem leavesMemories_of_same (h : forall t, Atomic.Keeps (Tables.SameMemories t) tx) :
    LeavesMemories tx := by
  intro t t' hrun
  have hsame := h t t t' (Tables.SameMemories.refl t) hrun
  exact ⟨hsame.2.1, hsame.2.2.1⟩

/-!
### The three statements
-/

theorem follows_storeMemoryOn [Scalar F] (node : MemoryNode F) (dim : Nat) :
    Follows codec (Tables.storeMemoryOn node dim) [MemoryStatement.store node] := by
  intro db history t t' hagrees hrun
  refine ⟨hagrees.represents.store hrun, ?_⟩
  intro id
  rw [firstStored_append, ← hagrees.created id, Tables.storeMemoryOn_find? hrun]
  unfold stamp
  by_cases hid : id = node.id
  · simp only [hid, if_true]
    cases t.memories.find? node.id with
    | none => rfl
    | some old => rfl
  · simp only [hid, if_false]

theorem follows_invalidateMemoryOn (id : MemoryId) (at_ : Timestamp) :
    Follows codec (Tables.invalidateMemoryOn id at_ : Tx F)
      [MemoryStatement.invalidate id at_] := by
  intro db history t t' hagrees hrun
  refine ⟨hagrees.represents.invalidate hrun, ?_⟩
  intro j
  cases hrun
  rw [firstStored_append, ← hagrees.created j]
  show ((t.memories.modify id _).find? j).map MemoryRow.createdAt = _
  rw [MemoryTable.find?_modify]
  unfold stamp
  cases t.memories.find? j with
  | none => rfl
  | some row => by_cases hj : j = id <;> simp [hj]

theorem follows_deleteMemoryOn (id : MemoryId) :
    Follows codec (Tables.deleteMemoryOn id : Tx F) [MemoryStatement.delete id] := by
  intro db history t t' hagrees hrun
  cases hrun
  refine ⟨hagrees.represents.delete id, ?_⟩
  intro j
  rw [firstStored_append, ← hagrees.created j, Tables.find?_deleteMemory]
  unfold stamp
  by_cases hj : j = id
  · simp [hj]
  · simp [hj]

/-!
### Statements on other relations
-/

theorem leavesMemories_addEdgeOn (edge : MemoryEdge F) :
    LeavesMemories (Tables.addEdgeOn edge) := by
  intro t t' hrun
  cases hrun
  exact ⟨rfl, rfl⟩

theorem leavesMemories_markClaimStatusOn (claimId status : String) (at_ : Timestamp) :
    LeavesMemories (Tables.markClaimStatusOn claimId status at_ : Tx F) := by
  intro t t' hrun
  cases hrun
  exact ⟨rfl, rfl⟩

theorem leavesMemories_markRelationshipStatusOn (relationshipId status : String)
    (at_ : Timestamp) :
    LeavesMemories (Tables.markRelationshipStatusOn relationshipId status at_ : Tx F) := by
  intro t t' hrun
  cases hrun
  exact ⟨rfl, rfl⟩

theorem leavesMemories_deleteRelationship (relationshipId : String) :
    LeavesMemories (fun t : Tables F => Except.ok (t.deleteRelationship relationshipId)) := by
  intro t t' hrun
  cases hrun
  exact ⟨rfl, rfl⟩

theorem leavesMemories_deleteClaim (claimId : String) :
    LeavesMemories (fun t : Tables F => Except.ok (t.deleteClaim claimId)) := by
  intro t t' hrun
  cases hrun
  unfold Tables.deleteClaim
  split
  · exact ⟨rfl, rfl⟩
  · exact ⟨rfl, rfl⟩

theorem leavesMemories_deleteEntity (entityId : String) :
    LeavesMemories (fun t : Tables F => Except.ok (t.deleteEntity entityId)) := by
  intro t t' hrun
  cases hrun
  unfold Tables.deleteEntity
  split
  · exact ⟨rfl, rfl⟩
  · exact ⟨rfl, rfl⟩

end Rules

/-!
## The writes of the backend

Each is one transaction.  Those that leave the memories alone (edges, sources,
conversations, runs, entities, claims, relationships and the vector index) are
taken together.
-/

inductive BackendWrite (F : Type) where
  | storeMemory (node : MemoryNode F)
  | storeMemoryWithSource (node : MemoryNode F) (source : MemorySource)
  | storeMemoryBatch (nodes : List (MemoryNode F))
  | applyLifecyclePolicy (memoryUpdates : List (MemoryNode F))
  | applyCorrectionPolicy (mutation : CorrectionPolicyMutation F)
  | applyForgetPolicy (mutation : ForgetPolicyMutation)
  | deleteMemory (id : MemoryId)
  | derived (tx : { tx : Tx F // LeavesMemories tx })

namespace BackendWrite

/-- What the write does to the memories when it commits. -/
def statements : BackendWrite F -> List (MemoryStatement F)
  | storeMemory node => [MemoryStatement.store node]
  | storeMemoryWithSource node _ => [MemoryStatement.store node]
  | storeMemoryBatch nodes => nodes.map MemoryStatement.store
  | applyLifecyclePolicy memoryUpdates => memoryUpdates.map MemoryStatement.store
  | applyCorrectionPolicy mutation =>
      mutation.memoryInvalidations.map (fun m => MemoryStatement.invalidate m.1 m.2)
  | applyForgetPolicy mutation =>
      if mutation.hardDelete then mutation.affected.memoryIds.map MemoryStatement.delete
      else mutation.affected.memoryIds.map
        (fun id => MemoryStatement.invalidate id mutation.appliedAt)
  | deleteMemory id => [MemoryStatement.delete id]
  | derived _ => []

def transaction [Scalar F] (dim : Nat) : BackendWrite F -> Tx F
  | storeMemory node => Tables.storeMemory dim node
  | storeMemoryWithSource node source => Tables.storeMemoryWithSource dim node source
  | storeMemoryBatch nodes => Tables.storeMemoryBatch dim nodes
  | applyLifecyclePolicy memoryUpdates => Tables.applyLifecyclePolicy dim memoryUpdates
  | applyCorrectionPolicy mutation => Tables.applyCorrectionPolicy mutation
  | applyForgetPolicy mutation => Tables.applyForgetPolicy mutation
  | deleteMemory id => Tables.deleteMemoryOn id
  | derived tx => tx.1

variable {codec : Codec F}

theorem follows_hardForgetOn (a : PolicyAffected) :
    Follows codec (Tables.hardForgetOn a : Tx F) (a.memoryIds.map MemoryStatement.delete) := by
  have hrelationships : Follows codec (Atomic.forEach a.relationshipIds
      (fun r (t : Tables F) => Except.ok (t.deleteRelationship r))) [] :=
    (LeavesMemories.forEach leavesMemories_deleteRelationship _).follows
  have hclaims : Follows codec (Atomic.forEach a.claimIds
      (fun c (t : Tables F) => Except.ok (t.deleteClaim c))) [] :=
    (LeavesMemories.forEach leavesMemories_deleteClaim _).follows
  have hmemories : Follows codec (Atomic.forEach a.memoryIds Tables.deleteMemoryOn : Tx F)
      (a.memoryIds.map MemoryStatement.delete) :=
    Follows.forEach follows_deleteMemoryOn _
  have hentities : Follows codec (Atomic.forEach a.entityIds
      (fun e (t : Tables F) => Except.ok (t.deleteEntity e))) [] :=
    (LeavesMemories.forEach leavesMemories_deleteEntity _).follows
  have hall := hrelationships.andThen (hclaims.andThen (hmemories.andThen hentities))
  rw [List.nil_append, List.nil_append, List.append_nil] at hall
  exact hall

theorem follows_softForgetOn (a : PolicyAffected) (at_ : Timestamp) :
    Follows codec (Tables.softForgetOn a at_ : Tx F)
      (a.memoryIds.map (fun id => MemoryStatement.invalidate id at_)) := by
  have hmemories : Follows codec (Atomic.forEach a.memoryIds
      (fun id => (Tables.invalidateMemoryOn id at_ : Tx F)))
      (a.memoryIds.map (fun id => MemoryStatement.invalidate id at_)) :=
    Follows.forEach (fun id => follows_invalidateMemoryOn id at_) _
  have hrest : LeavesMemories (Atomic.andThen
      (Atomic.forEach a.claimIds
        (fun c => (Tables.markClaimStatusOn c "forgotten" at_ : Tx F)))
      (Atomic.forEach a.relationshipIds
        (fun r => Tables.markRelationshipStatusOn r "forgotten" at_))) :=
    (LeavesMemories.forEach (fun c => leavesMemories_markClaimStatusOn c _ at_) _).andThen
      (LeavesMemories.forEach (fun r => leavesMemories_markRelationshipStatusOn r _ at_) _)
  have hrestFollows : Follows codec _ [] := hrest.follows
  have hall := hmemories.andThen hrestFollows
  rw [List.append_nil] at hall
  exact hall

theorem follows_applyForgetPolicy (mutation : ForgetPolicyMutation) :
    Follows codec (Tables.applyForgetPolicy mutation : Tx F)
      (if mutation.hardDelete then mutation.affected.memoryIds.map MemoryStatement.delete
        else mutation.affected.memoryIds.map
          (fun id => MemoryStatement.invalidate id mutation.appliedAt)) := by
  unfold Tables.applyForgetPolicy
  cases mutation.hardDelete with
  | true => exact follows_hardForgetOn mutation.affected
  | false => exact follows_softForgetOn mutation.affected mutation.appliedAt

theorem follows_applyCorrectionPolicy (mutation : CorrectionPolicyMutation F) :
    Follows codec (Tables.applyCorrectionPolicy mutation)
      (mutation.memoryInvalidations.map (fun m => MemoryStatement.invalidate m.1 m.2)) := by
  have hmemories : Follows codec (Atomic.forEach mutation.memoryInvalidations
      (fun m => (Tables.invalidateMemoryOn m.1 m.2 : Tx F)))
      (mutation.memoryInvalidations.map (fun m => MemoryStatement.invalidate m.1 m.2)) :=
    Follows.forEach (fun m : MemoryId × Timestamp => follows_invalidateMemoryOn m.1 m.2) _
  have hrest : LeavesMemories (Atomic.andThen
      (Atomic.forEach mutation.correctedClaimIds
        (fun c => (Tables.markClaimStatusOn c "corrected" mutation.appliedAt : Tx F)))
      (Atomic.andThen
        (Atomic.forEach mutation.correctedRelationshipIds
          (fun r => Tables.markRelationshipStatusOn r "corrected" mutation.appliedAt))
        (Atomic.forEach mutation.edges Tables.addEdgeOn))) :=
    (LeavesMemories.forEach (fun c => leavesMemories_markClaimStatusOn c _ _) _).andThen
      ((LeavesMemories.forEach (fun r => leavesMemories_markRelationshipStatusOn r _ _) _).andThen
        (LeavesMemories.forEach leavesMemories_addEdgeOn _))
  have hrestFollows : Follows codec _ [] := hrest.follows
  have hall := hmemories.andThen hrestFollows
  rw [List.append_nil] at hall
  exact hall

/-- Every write does to the memories what its statements say. -/
theorem follows_transaction [Scalar F] (dim : Nat) (write : BackendWrite F) :
    Follows codec (write.transaction dim) write.statements := by
  have hstores : forall nodes : List (MemoryNode F),
      Follows codec (Atomic.forEach nodes (fun node => Tables.storeMemoryOn node dim))
        (nodes.map MemoryStatement.store) :=
    fun nodes => Follows.forEach (fun node => follows_storeMemoryOn node dim) nodes
  cases write with
  | storeMemory node =>
      intro db history t t' hagrees hrun
      exact follows_storeMemoryOn node dim db history t t' hagrees (Tables.storeMemory_ok hrun)
  | storeMemoryWithSource node source =>
      intro db history t t' hagrees hrun
      have hsource : LeavesMemories (Tables.insertMemorySourceOn source : Tx F) :=
        leavesMemories_of_same (fun t => Tables.sameMemories_insertMemorySourceOn t source)
      have hstore : Follows codec _ _ := follows_storeMemoryOn node dim
      have hboth := hstore.andThen hsource.follows
      rw [List.append_nil] at hboth
      exact hboth db history t t' hagrees (Tables.storeMemoryWithSource_ok hrun)
  | storeMemoryBatch nodes =>
      intro db history t t' hagrees hrun
      exact hstores nodes db history t t' hagrees (Tables.storeMemoryBatch_ok hrun)
  | applyLifecyclePolicy memoryUpdates => exact hstores memoryUpdates
  | applyCorrectionPolicy mutation => exact follows_applyCorrectionPolicy mutation
  | applyForgetPolicy mutation =>
      exact follows_applyForgetPolicy mutation
  | deleteMemory id => exact follows_deleteMemoryOn id
  | derived tx => exact tx.2.follows

end BackendWrite

end Sqlite
end MenteDb
