import MenteDb.Sqlite.Memory

/-!
# Forgetting

A hard forget deletes rows explicitly, and the declared {lit}`ON DELETE` actions
delete or clear the rows that refer to them.  A soft forget closes the validity
of the affected rows instead.
-/

namespace MenteDb
namespace Sqlite

open Foundation

variable {F : Type}

/-- What a policy plan is about. -/
structure PolicyAffected where
  memoryIds : List MemoryId
  claimIds : List String
  relationshipIds : List String
  entityIds : List String
deriving DecidableEq

def PolicyAffected.none : PolicyAffected where
  memoryIds := []
  claimIds := []
  relationshipIds := []
  entityIds := []

structure ForgetPolicyMutation where
  affected : PolicyAffected
  hardDelete : Bool
  appliedAt : Timestamp

namespace Tables

/-!
## Deletes with their declared actions

Each function is one {lit}`DELETE` statement together with the actions the
schema attaches to it.
-/

/-- {lit}`DELETE FROM entity_relationships`: evidence goes with it. -/
def deleteRelationshipsWhere (t : Tables F) (p : String -> RelationshipRow F -> Bool) :
    Tables F :=
  let gone := (t.entityRelationships.entries.filter (fun e => p e.1 e.2)).map Prod.fst
  { t with
    entityRelationships := t.entityRelationships.deleteWhere p
    relationshipEvidence :=
      t.relationshipEvidence.deleteWhere (fun _ ev => decide (ev.ownerId ∈ gone)) }

def deleteRelationship (t : Tables F) (relationshipId : String) : Tables F :=
  t.deleteRelationshipsWhere (fun k _ => decide (k = relationshipId))

/-- {lit}`DELETE FROM claims WHERE claim_id = ?`: links and evidence go with it. -/
def deleteClaim (t : Tables F) (claimId : String) : Tables F :=
  if t.claims.contains claimId then
    { t with
      claims := t.claims.erase claimId
      claimEntities := t.claimEntities.deleteWhere (fun k _ => decide (k.1 = claimId))
      claimEvidence :=
        t.claimEvidence.deleteWhere (fun _ ev => decide (ev.ownerId = claimId)) }
  else t

/-- Sources that belong to a memory. -/
def sourcesOf (t : Tables F) (id : MemoryId) : List String :=
  (t.memorySources.entries.filter (fun e => decide (e.2.memoryId = id))).map Prod.fst

/-- Evidence after a memory and its sources are gone: rows in the memory are
deleted, references to the sources are cleared. -/
def evidenceWithout (table : Assoc String (EvidenceRow F)) (id : MemoryId)
    (sources : List String) : Assoc String (EvidenceRow F) :=
  (table.deleteWhere (fun _ ev => decide (ev.memoryId = id))).update
    (fun _ ev => ev.sourceId.any (fun s => decide (s ∈ sources)))
    (fun _ ev => { ev with sourceId := none })

/-- {lit}`DELETE FROM memories WHERE id = ?` with its actions. -/
def deleteMemoryRow (t : Tables F) (id : MemoryId) : Tables F :=
  let sources := t.sourcesOf id
  { t with
    memories := t.memories.delete id
    memorySources := t.memorySources.deleteWhere (fun _ s => decide (s.memoryId = id))
    extractionRuns := t.extractionRuns.update
      (fun _ run => decide (run.sourceMemoryId = some id))
      (fun _ run => { run with sourceMemoryId := none })
    memoryEntities := t.memoryEntities.deleteWhere (fun k _ => decide (k.1 = id))
    claimEvidence := evidenceWithout t.claimEvidence id sources
    relationshipEvidence := evidenceWithout t.relationshipEvidence id sources }

/-- Deletes the vector row, the tags, the edges and then the memory; an unknown
memory is left alone. -/
def deleteMemory (t : Tables F) (id : MemoryId) : Tables F :=
  match t.memories.rowidOf id with
  | none => t
  | some rowid =>
      let t := t.deleteVec rowid
      let t := { t with
        memoryTags := t.memoryTags.deleteWhere (fun k _ => decide (k.1 = id))
        edges := t.edges.filter (fun e => !(decide (e.source = id) || decide (e.target = id))) }
      t.deleteMemoryRow id

/-- {lit}`DELETE FROM entities WHERE entity_id = ?` with its actions. -/
def deleteEntity (t : Tables F) (entityId : String) : Tables F :=
  if t.entities.contains entityId then
    { t.deleteRelationshipsWhere
        (fun _ r => decide (r.sourceEntityId = entityId) || decide (r.targetEntityId = entityId))
      with
      entities := t.entities.erase entityId
      entityAliases := t.entityAliases.deleteWhere (fun k _ => decide (k.1 = entityId))
      memoryEntities := t.memoryEntities.deleteWhere (fun k _ => decide (k.2.1 = entityId))
      claims := t.claims.update
        (fun _ c => decide (c.subjectEntityId = some entityId)
          || decide (c.objectEntityId = some entityId))
        (fun _ c => { c with
          subjectEntityId := if c.subjectEntityId = some entityId then none else c.subjectEntityId
          objectEntityId := if c.objectEntityId = some entityId then none else c.objectEntityId })
      claimEntities := t.claimEntities.deleteWhere (fun k _ => decide (k.2.1 = entityId)) }
  else t

def deleteMemoryOn (id : MemoryId) : Tx F := fun t => Except.ok (t.deleteMemory id)

/-!
## The policy transaction
-/

def hardForgetOn (a : PolicyAffected) : Tx F :=
  Atomic.andThen
    (Atomic.forEach a.relationshipIds (fun r t => Except.ok (t.deleteRelationship r)))
    (Atomic.andThen
      (Atomic.forEach a.claimIds (fun c t => Except.ok (t.deleteClaim c)))
      (Atomic.andThen
        (Atomic.forEach a.memoryIds deleteMemoryOn)
        (Atomic.forEach a.entityIds (fun e t => Except.ok (t.deleteEntity e)))))

def softForgetOn (a : PolicyAffected) (appliedAt : Timestamp) : Tx F :=
  Atomic.andThen
    (Atomic.forEach a.memoryIds (fun id => invalidateMemoryOn id appliedAt))
    (Atomic.andThen
      (Atomic.forEach a.claimIds (fun c => markClaimStatusOn c "forgotten" appliedAt))
      (Atomic.forEach a.relationshipIds
        (fun r => markRelationshipStatusOn r "forgotten" appliedAt)))

def applyForgetPolicy (mutation : ForgetPolicyMutation) : Tx F :=
  if mutation.hardDelete then hardForgetOn mutation.affected
  else softForgetOn mutation.affected mutation.appliedAt

end Tables
end Sqlite
end MenteDb
