import Mathlib.Data.List.Dedup
import MenteDb.Foundation.Sorting
import MenteDb.Sqlite.Forget

/-!
# Queries over entities, claims and evidence

Reads never change the tables.  Each query is followed by the membership fact
its callers use; the listing order only matters where a caller truncates.
-/

namespace MenteDb
namespace Sqlite

open Foundation

variable {F : Type}

/-- {lit}`ORDER BY`: a stable sort. -/
def orderBy {α : Type} (le : α -> α -> Bool) (rows : List α) : List α :=
  rows.insertionSort (fun a b => le a b = true)

@[simp] theorem mem_orderBy {α : Type} {le : α -> α -> Bool} {rows : List α} {x : α} :
    x ∈ orderBy le rows <-> x ∈ rows :=
  List.mem_insertionSort _

/-- Descending by a score, ties by a second criterion. -/
def descThen {α : Type} [LinearOrder F] (score : α -> F) (tie : α -> α -> Bool) (a b : α) : Bool :=
  decide (score b < score a) || (decide (score a = score b) && tie a b)

/-- Identifiers compare as their text, which is the order of their value. -/
def idLe (a b : MemoryId) : Bool := decide (a.uuid.toNat <= b.uuid.toNat)

theorem ordersBy_idLe : OrdersBy (fun id : MemoryId => id.uuid.toNat) idLe := by
  intro a b
  unfold idLe
  rw [decide_eq_true_eq]

theorem uuid_toNat_injective : Function.Injective (fun id : MemoryId => id.uuid.toNat) := by
  intro a b h
  cases a
  cases b
  rw [MemoryId.mk.injEq]
  exact BitVec.eq_of_toNat_eq h

namespace Tables

def entitiesByAlias [LinearOrder F] (t : Tables F) (name : String) : List (String × EntityRow F) :=
  let joined := t.entityAliases.entries.filterMap (fun a =>
    if a.1.2 = name then
      (t.entities.find? a.1.1).map (fun e => (a.2.confidence, a.1.1, e))
    else none)
  (orderBy (descThen (fun r => r.1) (fun a b => sqlLe b.2.2.updatedAt a.2.2.updatedAt))
    joined).map (fun r => (r.2.1, r.2.2))

/-- Links of an entity: memory, role and link columns. -/
def memoriesForEntity [LinearOrder F] (t : Tables F) (entityId : String) :
    List ((MemoryId × String × String) × MemoryEntityRow F) :=
  orderBy (descThen (fun r => r.2.confidence) (fun a b => idLe a.1.1 b.1.1))
    (t.memoryEntities.entries.filter (fun e => decide (e.1.2.1 = entityId)))

def memoryEntityLinks [LinearOrder F] (t : Tables F) (id : MemoryId) :
    List ((MemoryId × String × String) × MemoryEntityRow F) :=
  orderBy (descThen (fun r => r.2.confidence) (fun a b => decide (a.1.2.1 <= b.1.2.1)))
    (t.memoryEntities.entries.filter (fun e => decide (e.1.1 = id)))

/-- One row per participation of the entity in a claim. -/
def claimsForEntity (t : Tables F) (entityId : String) : List (String × ClaimRow F) :=
  orderBy (fun a b => sqlLe b.2.updatedAt a.2.updatedAt)
    (t.claims.entries.flatMap (fun c =>
      (t.claimEntities.keys.filter
        (fun k => decide (k.1 = c.1) && decide (k.2.1 = entityId))).map (fun _ => c)))

def claimsForMemory (t : Tables F) (id : MemoryId) : List (String × ClaimRow F) :=
  orderBy (fun a b => sqlLe b.2.updatedAt a.2.updatedAt)
    (t.claims.entries.filter (fun c =>
      t.claimEvidence.entries.any (fun ev =>
        decide (ev.2.ownerId = c.1) && decide (ev.2.memoryId = id))))

def claimEvidenceFor [LinearOrder F] (t : Tables F) (claimId : String) :
    List (String × EvidenceRow F) :=
  orderBy (descThen (fun r => r.2.confidence) (fun a b => sqlLe a.2.createdAt b.2.createdAt))
    (t.claimEvidence.entries.filter (fun ev => decide (ev.2.ownerId = claimId)))

def relationshipsForEntity (t : Tables F) (entityId : String) :
    List (String × RelationshipRow F) :=
  orderBy (fun a b => sqlLe b.2.updatedAt a.2.updatedAt)
    (t.entityRelationships.entries.filter (fun r =>
      decide (r.2.sourceEntityId = entityId) || decide (r.2.targetEntityId = entityId)))

def relationshipsForMemory (t : Tables F) (id : MemoryId) :
    List (String × RelationshipRow F) :=
  orderBy (fun a b => sqlLe b.2.updatedAt a.2.updatedAt)
    (t.entityRelationships.entries.filter (fun r =>
      t.relationshipEvidence.entries.any (fun ev =>
        decide (ev.2.ownerId = r.1) && decide (ev.2.memoryId = id))))

def relationshipEvidenceFor [LinearOrder F] (t : Tables F) (relationshipId : String) :
    List (String × EvidenceRow F) :=
  orderBy (descThen (fun r => r.2.confidence) (fun a b => sqlLe a.2.createdAt b.2.createdAt))
    (t.relationshipEvidence.entries.filter (fun ev => decide (ev.2.ownerId = relationshipId)))

/-- Memories tied to a conversation through sources or extraction runs. -/
def memoryIdsForConversation (t : Tables F) (conversationId : String) : List MemoryId :=
  ((t.memorySources.entries.filterMap (fun s =>
      if s.2.conversationId = some conversationId then some s.2.memoryId else none))
    ++ (t.extractionRuns.entries.filterMap (fun r =>
      if r.2.conversationId = some conversationId then r.2.sourceMemoryId else none))).dedup

def memoryIdsForTag (t : Tables F) (tag : String) : List MemoryId :=
  orderBy idLe ((t.memoryTags.keys.filter (fun k => decide (k.2 = tag))).map Prod.fst)

/-!
## Membership
-/

theorem mem_memoriesForEntity [LinearOrder F] {t : Tables F} {entityId : String}
    {link : (MemoryId × String × String) × MemoryEntityRow F} :
    link ∈ t.memoriesForEntity entityId <->
      link ∈ t.memoryEntities.entries ∧ link.1.2.1 = entityId := by
  simp [memoriesForEntity]

theorem mem_claimsForEntity {t : Tables F} {entityId : String} {c : String × ClaimRow F} :
    c ∈ t.claimsForEntity entityId <->
      c ∈ t.claims.entries ∧
        exists role, t.claimEntities.contains (c.1, entityId, role) = true := by
  unfold claimsForEntity
  rw [mem_orderBy, List.mem_flatMap]
  constructor
  · intro h
    rcases h with ⟨c', hc', hmem⟩
    rcases List.mem_map.mp hmem with ⟨k, hk, heq⟩
    subst heq
    have hparts := List.mem_filter.mp hk
    have hkeys : k.1 = c'.1 ∧ k.2.1 = entityId := by simpa using hparts.2
    refine ⟨hc', k.2.2, Assoc.contains_iff_mem_keys.mpr ?_⟩
    rw [← hkeys.1, ← hkeys.2]
    exact hparts.1
  · intro h
    rcases h with ⟨hc, role, hrole⟩
    refine ⟨c, hc, List.mem_map.mpr ⟨(c.1, entityId, role), ?_, rfl⟩⟩
    rw [List.mem_filter]
    exact ⟨Assoc.contains_iff_mem_keys.mp hrole, by simp⟩

theorem mem_claimsForMemory {t : Tables F} {id : MemoryId} {c : String × ClaimRow F} :
    c ∈ t.claimsForMemory id <->
      c ∈ t.claims.entries ∧
        exists ev row, t.claimEvidence.find? ev = some row ∧ row.ownerId = c.1 ∧
          row.memoryId = id := by
  unfold claimsForMemory
  rw [mem_orderBy, List.mem_filter, List.any_eq_true]
  constructor
  · intro h
    rcases h with ⟨hc, ev, hev, hcond⟩
    have hboth : ev.2.ownerId = c.1 ∧ ev.2.memoryId = id := by simpa using hcond
    exact ⟨hc, ev.1, ev.2, Assoc.find?_eq_some_iff.mpr hev, hboth.1, hboth.2⟩
  · intro h
    rcases h with ⟨hc, ev, row, hev, howner, hmem⟩
    exact ⟨hc, (ev, row), Assoc.find?_eq_some_iff.mp hev, by simp [howner, hmem]⟩

theorem mem_claimEvidenceFor [LinearOrder F] {t : Tables F} {claimId : String}
    {ev : String × EvidenceRow F} :
    ev ∈ t.claimEvidenceFor claimId <->
      ev ∈ t.claimEvidence.entries ∧ ev.2.ownerId = claimId := by
  simp [claimEvidenceFor]

theorem mem_relationshipsForEntity {t : Tables F} {entityId : String}
    {r : String × RelationshipRow F} :
    r ∈ t.relationshipsForEntity entityId <->
      r ∈ t.entityRelationships.entries ∧
        (r.2.sourceEntityId = entityId ∨ r.2.targetEntityId = entityId) := by
  simp [relationshipsForEntity]

theorem mem_relationshipsForMemory {t : Tables F} {id : MemoryId}
    {r : String × RelationshipRow F} :
    r ∈ t.relationshipsForMemory id <->
      r ∈ t.entityRelationships.entries ∧
        exists ev row, t.relationshipEvidence.find? ev = some row ∧ row.ownerId = r.1 ∧
          row.memoryId = id := by
  unfold relationshipsForMemory
  rw [mem_orderBy, List.mem_filter, List.any_eq_true]
  constructor
  · intro h
    rcases h with ⟨hr, ev, hev, hcond⟩
    have hboth : ev.2.ownerId = r.1 ∧ ev.2.memoryId = id := by simpa using hcond
    exact ⟨hr, ev.1, ev.2, Assoc.find?_eq_some_iff.mpr hev, hboth.1, hboth.2⟩
  · intro h
    rcases h with ⟨hr, ev, row, hev, howner, hmem⟩
    exact ⟨hr, (ev, row), Assoc.find?_eq_some_iff.mp hev, by simp [howner, hmem]⟩

theorem mem_relationshipEvidenceFor [LinearOrder F] {t : Tables F} {relationshipId : String}
    {ev : String × EvidenceRow F} :
    ev ∈ t.relationshipEvidenceFor relationshipId <->
      ev ∈ t.relationshipEvidence.entries ∧ ev.2.ownerId = relationshipId := by
  simp [relationshipEvidenceFor]

end Tables
end Sqlite
end MenteDb
