import MenteDb.Sqlite.Queries
import MenteDb.Sqlite.Erasure

/-!
# The scope of a forget policy

A scope names a memory, an entity, an alias, a conversation or a tag.  It is
resolved to the memories, claims, relationships and entities the policy is
going to touch.
-/

namespace MenteDb
namespace Facade

open Foundation
open Sqlite

variable {F : Type} [Scalar F]

inductive ForgetScope where
  | memory (memoryId : MemoryId)
  | entity (entityId : String)
  | byAlias (name : String)
  | conversation (conversationId : String)
  | tag (tag : String)
deriving DecidableEq

omit [Scalar F] in
/-- The memory and everything with evidence in it. -/
def collectMemoryForgetClosure (t : Tables F) (affected : PolicyAffected)
    (memoryId : MemoryId) : PolicyAffected :=
  { affected with
    memoryIds := affected.memoryIds ++ [memoryId]
    claimIds := affected.claimIds ++ (t.claimsForMemory memoryId).map Prod.fst
    relationshipIds :=
      affected.relationshipIds ++ (t.relationshipsForMemory memoryId).map Prod.fst }

/-- A claim of the entity and the memories of its evidence. -/
def collectClaim (t : Tables F) (affected : PolicyAffected)
    (claim : String × ClaimRow F) : PolicyAffected :=
  { affected with
    claimIds := affected.claimIds ++ [claim.1]
    memoryIds := affected.memoryIds ++
      (t.claimEvidenceFor claim.1).map (fun ev => ev.2.memoryId) }

/-- A relationship of the entity and the memories of its evidence. -/
def collectRelationship (t : Tables F) (affected : PolicyAffected)
    (relationship : String × RelationshipRow F) : PolicyAffected :=
  { affected with
    relationshipIds := affected.relationshipIds ++ [relationship.1]
    memoryIds := affected.memoryIds ++
      (t.relationshipEvidenceFor relationship.1).map (fun ev => ev.2.memoryId) }

def collectEntityForgetClosure (t : Tables F) (affected : PolicyAffected)
    (entityId : String) : PolicyAffected :=
  let affected := (t.memoriesForEntity entityId).foldl
    (fun a link => collectMemoryForgetClosure t a link.1.1) affected
  let affected := (t.claimsForEntity entityId).foldl (collectClaim t) affected
  (t.relationshipsForEntity entityId).foldl (collectRelationship t) affected

def resolveForgetScope (t : Tables F) : ForgetScope -> PolicyAffected
  | ForgetScope.memory id => collectMemoryForgetClosure t PolicyAffected.none id
  | ForgetScope.entity e =>
      collectEntityForgetClosure t { PolicyAffected.none with entityIds := [e] } e
  | ForgetScope.byAlias name =>
      (t.entitiesByAlias name).foldl (fun a e =>
        collectEntityForgetClosure t { a with entityIds := a.entityIds ++ [e.1] } e.1)
        PolicyAffected.none
  | ForgetScope.conversation c =>
      (t.memoryIdsForConversation c).foldl (collectMemoryForgetClosure t)
        PolicyAffected.none
  | ForgetScope.tag tag =>
      (t.memoryIdsForTag tag).foldl (collectMemoryForgetClosure t) PolicyAffected.none

/-!
## What is collected

Each accumulator gains a describable set per visited element.
-/

omit [Scalar F] in
theorem mem_foldl_iff {σ α β : Type} {f : σ -> α -> σ} {g : σ -> List β}
    {P : α -> β -> Prop} (h : forall s x b, b ∈ g (f s x) <-> b ∈ g s ∨ P x b)
    (xs : List α) (s : σ) (b : β) :
    b ∈ g (xs.foldl f s) <-> b ∈ g s ∨ exists x, x ∈ xs ∧ P x b := by
  induction xs generalizing s with
  | nil => simp
  | cons x rest ih =>
      rw [List.foldl_cons, ih, h]
      simp only [List.mem_cons, exists_eq_or_imp]
      exact or_assoc

/-- A stored claim has evidence in the memory. -/
def ClaimEvidencedIn (t : Tables F) (c : String) (id : MemoryId) : Prop :=
  t.claims.contains c = true ∧
    exists ev row, t.claimEvidence.find? ev = some row ∧ row.ownerId = c ∧ row.memoryId = id

/-- A stored relationship has evidence in the memory. -/
def RelationshipEvidencedIn (t : Tables F) (r : String) (id : MemoryId) : Prop :=
  t.entityRelationships.contains r = true ∧
    exists ev row, t.relationshipEvidence.find? ev = some row ∧ row.ownerId = r ∧
      row.memoryId = id

/-- The claim takes part in the entity. -/
def ClaimOfEntity (t : Tables F) (e c : String) : Prop :=
  t.claims.contains c = true ∧ exists role, t.claimEntities.contains (c, e, role) = true

/-- The relationship has the entity as an end point. -/
def RelationshipOfEntity (t : Tables F) (e r : String) : Prop :=
  exists row, t.entityRelationships.find? r = some row ∧
    (row.sourceEntityId = e ∨ row.targetEntityId = e)

/-- The memory is linked to the entity. -/
def LinkedTo (t : Tables F) (e : String) (id : MemoryId) : Prop :=
  exists role, t.memoryEntities.contains (id, e, role) = true

/-- The memory holds evidence of one of the entity's claims or relationships. -/
def EvidenceMemoryOf (t : Tables F) (e : String) (id : MemoryId) : Prop :=
  (exists c, ClaimOfEntity t e c ∧ ClaimEvidencedIn t c id) ∨
    (exists r, RelationshipOfEntity t e r ∧ RelationshipEvidencedIn t r id)

omit [Scalar F] in
theorem mem_claimsForMemory_keys {t : Tables F} {id : MemoryId} {c : String} :
    c ∈ (t.claimsForMemory id).map Prod.fst <-> ClaimEvidencedIn t c id := by
  rw [List.mem_map]
  constructor
  · intro h
    rcases h with ⟨entry, hentry, hkey⟩
    subst hkey
    rcases Tables.mem_claimsForMemory.mp hentry with ⟨hstored, hev⟩
    exact ⟨Assoc.contains_iff_exists.mpr ⟨_, Assoc.find?_eq_some_iff.mpr hstored⟩, hev⟩
  · intro h
    rcases Assoc.contains_iff_exists.mp h.1 with ⟨row, hrow⟩
    exact ⟨(c, row), Tables.mem_claimsForMemory.mpr
      ⟨Assoc.find?_eq_some_iff.mp hrow, h.2⟩, rfl⟩

omit [Scalar F] in
theorem mem_relationshipsForMemory_keys {t : Tables F} {id : MemoryId} {r : String} :
    r ∈ (t.relationshipsForMemory id).map Prod.fst <-> RelationshipEvidencedIn t r id := by
  rw [List.mem_map]
  constructor
  · intro h
    rcases h with ⟨entry, hentry, hkey⟩
    subst hkey
    rcases Tables.mem_relationshipsForMemory.mp hentry with ⟨hstored, hev⟩
    exact ⟨Assoc.contains_iff_exists.mpr ⟨_, Assoc.find?_eq_some_iff.mpr hstored⟩, hev⟩
  · intro h
    rcases Assoc.contains_iff_exists.mp h.1 with ⟨row, hrow⟩
    exact ⟨(r, row), Tables.mem_relationshipsForMemory.mpr
      ⟨Assoc.find?_eq_some_iff.mp hrow, h.2⟩, rfl⟩

omit [Scalar F] in
theorem exists_claimsForEntity_iff {t : Tables F} {e c : String} :
    (exists entry, entry ∈ t.claimsForEntity e ∧ c = entry.1) <-> ClaimOfEntity t e c := by
  constructor
  · intro h
    rcases h with ⟨entry, hentry, hkey⟩
    subst hkey
    rcases Tables.mem_claimsForEntity.mp hentry with ⟨hstored, hrole⟩
    exact ⟨Assoc.contains_iff_exists.mpr ⟨_, Assoc.find?_eq_some_iff.mpr hstored⟩, hrole⟩
  · intro h
    rcases Assoc.contains_iff_exists.mp h.1 with ⟨row, hrow⟩
    exact ⟨(c, row), Tables.mem_claimsForEntity.mpr
      ⟨Assoc.find?_eq_some_iff.mp hrow, h.2⟩, rfl⟩

omit [Scalar F] in
theorem exists_relationshipsForEntity_iff {t : Tables F} {e r : String} :
    (exists entry, entry ∈ t.relationshipsForEntity e ∧ r = entry.1) <->
      RelationshipOfEntity t e r := by
  constructor
  · intro h
    rcases h with ⟨entry, hentry, hkey⟩
    subst hkey
    rcases Tables.mem_relationshipsForEntity.mp hentry with ⟨hstored, hends⟩
    exact ⟨entry.2, Assoc.find?_eq_some_iff.mpr hstored, hends⟩
  · intro h
    rcases h with ⟨row, hrow, hends⟩
    exact ⟨(r, row), Tables.mem_relationshipsForEntity.mpr
      ⟨Assoc.find?_eq_some_iff.mp hrow, hends⟩, rfl⟩

theorem exists_memoriesForEntity_iff {t : Tables F} {e : String} {P : MemoryId -> Prop} :
    (exists link, link ∈ t.memoriesForEntity e ∧ P link.1.1) <->
      exists id, LinkedTo t e id ∧ P id := by
  constructor
  · intro h
    rcases h with ⟨link, hlink, hP⟩
    rcases Tables.mem_memoriesForEntity.mp hlink with ⟨hmem, hent⟩
    refine ⟨link.1.1, ⟨link.1.2.2, Assoc.contains_iff_mem_keys.mpr ?_⟩, hP⟩
    rw [← hent]
    exact List.mem_map_of_mem hmem
  · intro h
    rcases h with ⟨id, ⟨role, hrole⟩, hP⟩
    rcases Assoc.contains_iff_exists.mp hrole with ⟨row, hrow⟩
    exact ⟨((id, e, role), row), Tables.mem_memoriesForEntity.mpr
      ⟨Assoc.find?_eq_some_iff.mp hrow, rfl⟩, hP⟩

/-!
## Resolved scopes as sets

A scope has seed memories, collected together with all their claims and
relationships, and entities, whose own claims and relationships are collected
together with the memories of their evidence.
-/

def scopeEntities (t : Tables F) : ForgetScope -> List String
  | ForgetScope.entity e => [e]
  | ForgetScope.byAlias name => (t.entitiesByAlias name).map Prod.fst
  | _ => []

def Seed (t : Tables F) (scope : ForgetScope) (id : MemoryId) : Prop :=
  match scope with
  | ForgetScope.memory m => id = m
  | ForgetScope.conversation c => id ∈ t.memoryIdsForConversation c
  | ForgetScope.tag tag => id ∈ t.memoryIdsForTag tag
  | ForgetScope.entity e => LinkedTo t e id
  | ForgetScope.byAlias name => exists e, e ∈ scopeEntities t (ForgetScope.byAlias name) ∧
      LinkedTo t e id

/-- The accumulator holds what it held before, a set of memories with their
closure, and the closure of a set of entities. -/
structure Collects (t : Tables F) (seeds : MemoryId -> Prop) (entities : String -> Prop)
    (before after : PolicyAffected) : Prop where
  memories : forall id, id ∈ after.memoryIds <->
    id ∈ before.memoryIds ∨ seeds id ∨ exists e, entities e ∧ EvidenceMemoryOf t e id
  claims : forall c, c ∈ after.claimIds <->
    c ∈ before.claimIds ∨ (exists id, seeds id ∧ ClaimEvidencedIn t c id) ∨
      exists e, entities e ∧ ClaimOfEntity t e c
  relationships : forall r, r ∈ after.relationshipIds <->
    r ∈ before.relationshipIds ∨ (exists id, seeds id ∧ RelationshipEvidencedIn t r id) ∨
      exists e, entities e ∧ RelationshipOfEntity t e r

omit [Scalar F] in
theorem collects_memories (t : Tables F) (ids : List MemoryId) (before : PolicyAffected) :
    Collects t (fun id => id ∈ ids) (fun e => e ∈ ([] : List String)) before
      (ids.foldl (collectMemoryForgetClosure t) before) := by
  refine ⟨?_, ?_, ?_⟩
  · intro id
    have hfold := mem_foldl_iff (f := collectMemoryForgetClosure t)
      (g := PolicyAffected.memoryIds) (P := fun x b => b = x)
      (by simp [collectMemoryForgetClosure]) ids before id
    rw [hfold]
    simp
  · intro c
    have hfold := mem_foldl_iff (f := collectMemoryForgetClosure t)
      (g := PolicyAffected.claimIds) (P := fun x b => ClaimEvidencedIn t b x)
      (by
        intro a x b
        simp only [collectMemoryForgetClosure, List.mem_append, mem_claimsForMemory_keys])
      ids before c
    rw [hfold]
    simp
  · intro r
    have hfold := mem_foldl_iff (f := collectMemoryForgetClosure t)
      (g := PolicyAffected.relationshipIds) (P := fun x b => RelationshipEvidencedIn t b x)
      (by
        intro a x b
        simp only [collectMemoryForgetClosure, List.mem_append,
          mem_relationshipsForMemory_keys])
      ids before r
    rw [hfold]
    simp

theorem mem_claimEvidence_memories {t : Tables F} {c : String} {id : MemoryId}
    (hstored : t.claims.contains c = true) :
    id ∈ (t.claimEvidenceFor c).map (fun ev => ev.2.memoryId) <->
      ClaimEvidencedIn t c id := by
  rw [List.mem_map]
  constructor
  · intro h
    rcases h with ⟨ev, hev, hid⟩
    rcases Tables.mem_claimEvidenceFor.mp hev with ⟨hmem, howner⟩
    exact ⟨hstored, ev.1, ev.2, Assoc.find?_eq_some_iff.mpr hmem, howner, hid⟩
  · intro h
    rcases h.2 with ⟨ev, row, hrow, howner, hid⟩
    exact ⟨(ev, row), Tables.mem_claimEvidenceFor.mpr
      ⟨Assoc.find?_eq_some_iff.mp hrow, howner⟩, hid⟩

theorem mem_relationshipEvidence_memories {t : Tables F} {r : String} {id : MemoryId}
    (hstored : t.entityRelationships.contains r = true) :
    id ∈ (t.relationshipEvidenceFor r).map (fun ev => ev.2.memoryId) <->
      RelationshipEvidencedIn t r id := by
  rw [List.mem_map]
  constructor
  · intro h
    rcases h with ⟨ev, hev, hid⟩
    rcases Tables.mem_relationshipEvidenceFor.mp hev with ⟨hmem, howner⟩
    exact ⟨hstored, ev.1, ev.2, Assoc.find?_eq_some_iff.mpr hmem, howner, hid⟩
  · intro h
    rcases h.2 with ⟨ev, row, hrow, howner, hid⟩
    exact ⟨(ev, row), Tables.mem_relationshipEvidenceFor.mpr
      ⟨Assoc.find?_eq_some_iff.mp hrow, howner⟩, hid⟩

theorem exists_claim_evidence_iff {t : Tables F} {e : String} {id : MemoryId} :
    (exists entry, entry ∈ t.claimsForEntity e ∧
        id ∈ (t.claimEvidenceFor entry.1).map (fun ev => ev.2.memoryId)) <->
      exists c, ClaimOfEntity t e c ∧ ClaimEvidencedIn t c id := by
  constructor
  · intro h
    rcases h with ⟨entry, hentry, hid⟩
    have hof := exists_claimsForEntity_iff.mp ⟨entry, hentry, rfl⟩
    exact ⟨entry.1, hof, (mem_claimEvidence_memories hof.1).mp hid⟩
  · intro h
    rcases h with ⟨c, hof, hid⟩
    rcases exists_claimsForEntity_iff.mpr hof with ⟨entry, hentry, hkey⟩
    subst hkey
    exact ⟨entry, hentry, (mem_claimEvidence_memories hof.1).mpr hid⟩

theorem exists_relationship_evidence_iff {t : Tables F} {e : String} {id : MemoryId} :
    (exists entry, entry ∈ t.relationshipsForEntity e ∧
        id ∈ (t.relationshipEvidenceFor entry.1).map (fun ev => ev.2.memoryId)) <->
      exists r, RelationshipOfEntity t e r ∧ RelationshipEvidencedIn t r id := by
  have hstored : forall r, RelationshipOfEntity t e r ->
      t.entityRelationships.contains r = true := by
    intro r h
    rcases h with ⟨row, hrow, _⟩
    exact Assoc.contains_iff_exists.mpr ⟨row, hrow⟩
  constructor
  · intro h
    rcases h with ⟨entry, hentry, hid⟩
    have hof := exists_relationshipsForEntity_iff.mp ⟨entry, hentry, rfl⟩
    exact ⟨entry.1, hof, (mem_relationshipEvidence_memories (hstored _ hof)).mp hid⟩
  · intro h
    rcases h with ⟨r, hof, hid⟩
    rcases exists_relationshipsForEntity_iff.mpr hof with ⟨entry, hentry, hkey⟩
    subst hkey
    exact ⟨entry, hentry, (mem_relationshipEvidence_memories (hstored _ hof)).mpr hid⟩

theorem collects_entity (t : Tables F) (e : String) (before : PolicyAffected) :
    Collects t (LinkedTo t e) (fun e' => e' = e) before
      (collectEntityForgetClosure t before e) := by
  have hmems := collects_memories t ((t.memoriesForEntity e).map (fun l => l.1.1)) before
  rw [List.foldl_map] at hmems
  have hlinked : forall id,
      id ∈ (t.memoriesForEntity e).map (fun l => l.1.1) <-> LinkedTo t e id := by
    intro id
    have hiff := exists_memoriesForEntity_iff (t := t) (e := e) (P := fun j => j = id)
    rw [List.mem_map, hiff]
    simp
  let mid := (t.memoriesForEntity e).foldl
    (fun a link => collectMemoryForgetClosure t a link.1.1) before
  have hclaimIds := mem_foldl_iff (f := collectClaim t) (g := PolicyAffected.claimIds)
    (P := fun x b => b = x.1) (by simp [collectClaim]) (t.claimsForEntity e) mid
  have hclaimMems := mem_foldl_iff (f := collectClaim t) (g := PolicyAffected.memoryIds)
    (P := fun x b => b ∈ (t.claimEvidenceFor x.1).map (fun ev => ev.2.memoryId))
    (by
      intro a x b
      simp only [collectClaim, List.mem_append])
    (t.claimsForEntity e) mid
  have hclaimRels := mem_foldl_iff (f := collectClaim t)
    (g := PolicyAffected.relationshipIds) (P := fun _ _ => False)
    (by simp [collectClaim]) (t.claimsForEntity e) mid
  let mid2 := (t.claimsForEntity e).foldl (collectClaim t) mid
  have hrelIds := mem_foldl_iff (f := collectRelationship t)
    (g := PolicyAffected.relationshipIds) (P := fun x b => b = x.1)
    (by simp [collectRelationship]) (t.relationshipsForEntity e) mid2
  have hrelMems := mem_foldl_iff (f := collectRelationship t)
    (g := PolicyAffected.memoryIds)
    (P := fun x b => b ∈ (t.relationshipEvidenceFor x.1).map (fun ev => ev.2.memoryId))
    (by
      intro a x b
      simp only [collectRelationship, List.mem_append])
    (t.relationshipsForEntity e) mid2
  have hrelClaims := mem_foldl_iff (f := collectRelationship t)
    (g := PolicyAffected.claimIds) (P := fun _ _ => False)
    (by simp [collectRelationship]) (t.relationshipsForEntity e) mid2
  refine ⟨?_, ?_, ?_⟩
  · intro id
    show id ∈ ((t.relationshipsForEntity e).foldl (collectRelationship t) mid2).memoryIds <-> _
    rw [hrelMems, hclaimMems, hmems.memories, exists_claim_evidence_iff,
      exists_relationship_evidence_iff, hlinked]
    simp only [List.not_mem_nil, false_and, exists_false, or_false, exists_eq_left,
      EvidenceMemoryOf, or_assoc]
  · intro c
    show c ∈ ((t.relationshipsForEntity e).foldl (collectRelationship t) mid2).claimIds <-> _
    rw [hrelClaims, hclaimIds, hmems.claims, exists_claimsForEntity_iff]
    simp only [hlinked, List.not_mem_nil, false_and, exists_false, or_false, exists_eq_left,
      and_false, or_assoc]
  · intro r
    show r ∈ ((t.relationshipsForEntity e).foldl
      (collectRelationship t) mid2).relationshipIds <-> _
    rw [hrelIds, hclaimRels, hmems.relationships, exists_relationshipsForEntity_iff]
    simp only [hlinked, List.not_mem_nil, false_and, exists_false, or_false, exists_eq_left,
      and_false, or_assoc]

omit [Scalar F] in
/-- Two passes collect the union. -/
theorem Collects.trans {t : Tables F} {S1 S2 : MemoryId -> Prop} {E1 E2 : String -> Prop}
    {a b c : PolicyAffected} (h1 : Collects t S1 E1 a b) (h2 : Collects t S2 E2 b c) :
    Collects t (fun id => S1 id ∨ S2 id) (fun e => E1 e ∨ E2 e) a c := by
  refine ⟨?_, ?_, ?_⟩
  · intro id
    rw [h2.memories, h1.memories]
    simp only [or_and_right, exists_or]
    apply iff_of_eq
    ac_rfl
  · intro k
    rw [h2.claims, h1.claims]
    simp only [or_and_right, exists_or]
    apply iff_of_eq
    ac_rfl
  · intro k
    rw [h2.relationships, h1.relationships]
    simp only [or_and_right, exists_or]
    apply iff_of_eq
    ac_rfl

theorem collects_entities (t : Tables F) (entities : List (String × EntityRow F))
    (before : PolicyAffected) :
    Collects t (fun id => exists e, e ∈ entities.map Prod.fst ∧ LinkedTo t e id)
      (fun e => e ∈ entities.map Prod.fst) before
      (entities.foldl (fun a e =>
        collectEntityForgetClosure t { a with entityIds := a.entityIds ++ [e.1] } e.1)
        before) := by
  induction entities generalizing before with
  | nil => exact ⟨by simp, by simp, by simp⟩
  | cons head rest ih =>
      rw [List.foldl_cons]
      have hhead := collects_entity t head.1
        { before with entityIds := before.entityIds ++ [head.1] }
      have hboth := hhead.trans (ih (collectEntityForgetClosure t
        { before with entityIds := before.entityIds ++ [head.1] } head.1))
      simp only [List.map_cons, List.mem_cons, or_and_right, exists_or, exists_eq_left]
      exact ⟨hboth.memories, hboth.claims, hboth.relationships⟩

theorem collects_resolveForgetScope (t : Tables F) (scope : ForgetScope) :
    Collects t (Seed t scope) (fun e => e ∈ scopeEntities t scope) PolicyAffected.none
      (resolveForgetScope t scope) := by
  cases scope with
  | memory id =>
      have h := collects_memories t [id] PolicyAffected.none
      simp only [List.mem_singleton] at h
      exact h
  | entity e =>
      have h := collects_entity t e { PolicyAffected.none with entityIds := [e] }
      simp only [← List.mem_singleton (b := e)] at h
      exact ⟨h.memories, h.claims, h.relationships⟩
  | byAlias name => exact collects_entities t (t.entitiesByAlias name) PolicyAffected.none
  | conversation c => exact collects_memories t (t.memoryIdsForConversation c) _
  | tag tag => exact collects_memories t (t.memoryIdsForTag tag) _

/-!
## The plan

{lit}`build_forget_plan` sorts the collected ids and drops repeats.
-/

omit [Scalar F] in
/-- Drops an element that equals its successor. -/
def dedupAdjacent {α : Type} [DecidableEq α] : List α -> List α
  | [] => []
  | [x] => [x]
  | x :: y :: rest =>
      if x = y then dedupAdjacent (y :: rest) else x :: dedupAdjacent (y :: rest)

omit [Scalar F] in
@[simp] theorem mem_dedupAdjacent {α : Type} [DecidableEq α] {xs : List α} {z : α} :
    z ∈ dedupAdjacent xs <-> z ∈ xs := by
  fun_induction dedupAdjacent xs with
  | case1 => exact Iff.rfl
  | case2 x => exact Iff.rfl
  | case3 x rest ih =>
      rw [ih]
      simp
  | case4 x y rest hne ih => simp [ih]

def buildForgetPlan (t : Tables F) (scope : ForgetScope) : PolicyAffected :=
  let affected := resolveForgetScope t scope
  { memoryIds := dedupAdjacent (orderBy idLe affected.memoryIds)
    claimIds := dedupAdjacent (orderBy (fun a b => decide (a <= b)) affected.claimIds)
    relationshipIds :=
      dedupAdjacent (orderBy (fun a b => decide (a <= b)) affected.relationshipIds)
    entityIds := dedupAdjacent (orderBy (fun a b => decide (a <= b)) affected.entityIds) }

@[simp] theorem mem_buildForgetPlan_memoryIds {t : Tables F} {scope : ForgetScope}
    {id : MemoryId} : id ∈ (buildForgetPlan t scope).memoryIds <->
      id ∈ (resolveForgetScope t scope).memoryIds := by
  simp [buildForgetPlan]

@[simp] theorem mem_buildForgetPlan_claimIds {t : Tables F} {scope : ForgetScope}
    {c : String} : c ∈ (buildForgetPlan t scope).claimIds <->
      c ∈ (resolveForgetScope t scope).claimIds := by
  simp [buildForgetPlan]

@[simp] theorem mem_buildForgetPlan_relationshipIds {t : Tables F} {scope : ForgetScope}
    {r : String} : r ∈ (buildForgetPlan t scope).relationshipIds <->
      r ∈ (resolveForgetScope t scope).relationshipIds := by
  simp [buildForgetPlan]

@[simp] theorem mem_buildForgetPlan_entityIds {t : Tables F} {scope : ForgetScope}
    {e : String} : e ∈ (buildForgetPlan t scope).entityIds <->
      e ∈ (resolveForgetScope t scope).entityIds := by
  simp [buildForgetPlan]

omit [Scalar F] in
theorem foldl_entityIds {α : Type} {f : PolicyAffected -> α -> PolicyAffected}
    (hf : forall a x, (f a x).entityIds = a.entityIds) (xs : List α) (a : PolicyAffected) :
    (xs.foldl f a).entityIds = a.entityIds := by
  induction xs generalizing a with
  | nil => rfl
  | cons x rest ih => rw [List.foldl_cons, ih, hf]

theorem collectEntityForgetClosure_entityIds (t : Tables F) (a : PolicyAffected) (e : String) :
    (collectEntityForgetClosure t a e).entityIds = a.entityIds := by
  unfold collectEntityForgetClosure
  simp only
  rw [foldl_entityIds (f := collectRelationship t) (fun _ _ => rfl),
    foldl_entityIds (f := collectClaim t) (fun _ _ => rfl)]
  apply foldl_entityIds
  intro a link
  rfl

/-- The entities of the policy are the entities of the scope. -/
theorem resolveForgetScope_entityIds (t : Tables F) (scope : ForgetScope) :
    (resolveForgetScope t scope).entityIds = scopeEntities t scope := by
  have hmems : forall (ids : List MemoryId),
      (ids.foldl (collectMemoryForgetClosure t) PolicyAffected.none).entityIds = [] := by
    intro ids
    exact foldl_entityIds (f := collectMemoryForgetClosure t) (fun _ _ => rfl) ids _
  have hents : forall (es : List (String × EntityRow F)) (a : PolicyAffected),
      (es.foldl (fun a e =>
        collectEntityForgetClosure t { a with entityIds := a.entityIds ++ [e.1] } e.1)
        a).entityIds = a.entityIds ++ es.map Prod.fst := by
    intro es
    induction es with
    | nil =>
        intro a
        simp
    | cons e rest ih =>
        intro a
        rw [List.foldl_cons, ih, collectEntityForgetClosure_entityIds]
        simp
  cases scope with
  | memory id => rfl
  | entity e => exact collectEntityForgetClosure_entityIds t _ e
  | byAlias name => exact hents (t.entitiesByAlias name) PolicyAffected.none
  | conversation c => exact hmems _
  | tag tag => exact hmems _

end Facade
end MenteDb
