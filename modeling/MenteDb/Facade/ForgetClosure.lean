import MenteDb.Facade.ForgetScope
import MenteDb.Sqlite.Artifacts

/-!
# Evidence and the scope of a forget

A claim or a relationship stands on its evidence.  A scope is closed when
everything with evidence in an affected memory is affected too, and then a hard
forget takes no claim or relationship its last evidence away.  Scopes that only
name memories are closed.  Scopes that name entities add the memories of their
claims' and relationships' evidence without what else those memories support.
-/

namespace MenteDb
namespace Facade

open Foundation
open Sqlite

variable {F : Type}

/-- Everything with evidence in an affected memory is affected. -/
def EvidenceClosed (t : Tables F) (a : PolicyAffected) : Prop :=
  forall id, id ∈ a.memoryIds ->
    (forall c, ClaimEvidencedIn t c id -> c ∈ a.claimIds) ∧
      (forall r, RelationshipEvidencedIn t r id -> r ∈ a.relationshipIds)

/-- Claims and relationships that had evidence and are still active have some. -/
def KeepsEvidence (t t' : Tables F) : Prop :=
  (forall c row, t'.claims.find? c = some row -> row.status = "active" ->
      (exists id, ClaimEvidencedIn t c id) -> exists id, ClaimEvidencedIn t' c id) ∧
    (forall r row, t'.entityRelationships.find? r = some row -> row.status = "active" ->
      (exists id, RelationshipEvidencedIn t r id) -> exists id, RelationshipEvidencedIn t' r id)

/-!
## Named rows are gone afterwards
-/

theorem hardForgetOn_claims {t t' : Tables F} {a : PolicyAffected} {c : String}
    (hc : c ∈ a.claimIds) (hrun : Tables.hardForgetOn a t = Except.ok t') :
    t'.claims.find? c = none := by
  rcases Atomic.andThen_eq_ok.mp hrun with ⟨t1, _, hrest⟩
  rcases Atomic.andThen_eq_ok.mp hrest with ⟨t2, hclaims, hrest⟩
  rcases Atomic.andThen_eq_ok.mp hrest with ⟨t3, hmems, hents⟩
  have hgone2 : t2.claims.find? c = none := by
    refine Atomic.forEach_establishes (K := fun _ => True)
      (P := fun s => s.claims.find? c = none) hc ?_ ?_ ?_ trivial hclaims
    · exact fun _ _ _ _ _ _ => trivial
    · intro other _ s s' hs hstep
      cases hstep
      unfold Tables.deleteClaim
      split
      · show (s.claims.erase other).find? c = none
        rw [Assoc.find?_erase, hs]
        exact ite_self none
      · exact hs
    · intro s s' _ hstep
      cases hstep
      unfold Tables.deleteClaim
      split
      · show (s.claims.erase c).find? c = none
        rw [Assoc.find?_erase, if_pos rfl]
      · rename_i hstored
        simpa [Assoc.contains] using hstored
  have hgone3 : t3.claims.find? c = none := by
    refine Atomic.Keeps.forEach (P := fun s => s.claims.find? c = none) ?_ t2 t3 hgone2 hmems
    intro id _ s s' hs hstep
    cases hstep
    unfold Tables.deleteMemory
    split <;> exact hs
  refine Atomic.Keeps.forEach (P := fun s => s.claims.find? c = none) ?_ t3 t' hgone3 hents
  intro e _ s s' hs hstep
  cases hstep
  unfold Tables.deleteEntity
  split
  · show (s.claims.update _ _).find? c = none
    rw [Assoc.find?_update, hs]
    rfl
  · exact hs

theorem hardForgetOn_relationships {t t' : Tables F} {a : PolicyAffected} {r : String}
    (hr : r ∈ a.relationshipIds) (hrun : Tables.hardForgetOn a t = Except.ok t') :
    t'.entityRelationships.find? r = none := by
  rcases Atomic.andThen_eq_ok.mp hrun with ⟨t1, hrels, hrest⟩
  rcases Atomic.andThen_eq_ok.mp hrest with ⟨t2, hclaims, hrest⟩
  rcases Atomic.andThen_eq_ok.mp hrest with ⟨t3, hmems, hents⟩
  have hgone1 : t1.entityRelationships.find? r = none := by
    refine Atomic.forEach_establishes (K := fun _ => True)
      (P := fun s => s.entityRelationships.find? r = none) hr ?_ ?_ ?_ trivial hrels
    · exact fun _ _ _ _ _ _ => trivial
    · intro other _ s s' hs hstep
      cases hstep
      exact Erased.find?_deleteWhere_none hs
    · intro s s' _ hstep
      cases hstep
      show (s.entityRelationships.deleteWhere _).find? r = none
      rw [Assoc.find?_deleteWhere]
      cases s.entityRelationships.find? r <;> simp
  have hgone2 : t2.entityRelationships.find? r = none := by
    refine Atomic.Keeps.forEach (P := fun s => s.entityRelationships.find? r = none) ?_ t1 t2
      hgone1 hclaims
    intro c _ s s' hs hstep
    cases hstep
    unfold Tables.deleteClaim
    split <;> exact hs
  have hgone3 : t3.entityRelationships.find? r = none := by
    refine Atomic.Keeps.forEach (P := fun s => s.entityRelationships.find? r = none) ?_ t2 t3
      hgone2 hmems
    intro id _ s s' hs hstep
    cases hstep
    unfold Tables.deleteMemory
    split <;> exact hs
  refine Atomic.Keeps.forEach (P := fun s => s.entityRelationships.find? r = none) ?_ t3 t'
    hgone3 hents
  intro e _ s s' hs hstep
  cases hstep
  unfold Tables.deleteEntity
  split
  · exact Erased.find?_deleteWhere_none hs
  · exact hs

/-!
## Closed scopes keep evidence
-/

section Closed

variable [Scalar F]

omit [Scalar F] in
/-- Evidence that is not deleted still stands, possibly without its source. -/
theorem evidence_survives {del nul : Prop} {old new : Option (EvidenceRow F)}
    (h : Fate del nul EvidenceCleared old new) (hdel : ¬ del) {row : EvidenceRow F}
    (hold : old = some row) :
    exists row', new = some row' ∧ row'.ownerId = row.ownerId ∧
      row'.memoryId = row.memoryId := by
  rcases h with heq | ⟨_, hd⟩ | ⟨_, row0, row', hold', hnew, hcleared⟩
  · exact ⟨row, heq.trans hold, rfl, rfl⟩
  · exact absurd hd hdel
  · rw [hold] at hold'
    cases hold'
    rw [EvidenceCleared] at hcleared
    subst hcleared
    exact ⟨_, hnew, rfl, rfl⟩

theorem EvidenceClosed.keepsEvidence {t t' : Tables F} {a : PolicyAffected}
    (hclosed : EvidenceClosed t a)
    (hentities : forall e, e ∈ a.entityIds -> forall r, RelationshipOfEntity t e r ->
      r ∈ a.relationshipIds)
    (hrun : Tables.hardForgetOn a t = Except.ok t') : KeepsEvidence t t' := by
  have hbetween := Between.hardForgetOn t a t t' (Between.refl t a) hrun
  constructor
  · intro c row hrow _ hhad
    rcases hhad with ⟨id, hstored, ev, evRow, hev, howner, hid⟩
    have hkept : c ∉ a.claimIds := by
      intro hc
      rw [hardForgetOn_claims hc hrun] at hrow
      cases hrow
    have hnot : ¬ Deleted t a (RowRef.claimEvidence ev) := by
      intro hdel
      cases hdel with
      | claimEvidenceOfClaim hfind hclaim =>
          rw [hev] at hfind
          cases hfind
          rw [howner] at hclaim
          cases hclaim with
          | claim hc _ => exact hkept hc
      | claimEvidenceOfMemory hfind hmem =>
          rw [hev] at hfind
          cases hfind
          rw [hid] at hmem
          cases hmem with
          | memory hin _ =>
              exact hkept ((hclosed id hin).1 c ⟨hstored, ev, evRow, hev, howner, hid⟩)
    rcases evidence_survives (hbetween.claimEvidence ev) hnot hev with ⟨evRow', hev', ho, hm⟩
    exact ⟨id, Assoc.contains_iff_exists.mpr ⟨row, hrow⟩, ev, evRow', hev', ho.trans howner,
      hm.trans hid⟩
  · intro r row hrow _ hhad
    rcases hhad with ⟨id, hstored, ev, evRow, hev, howner, hid⟩
    have hkept : r ∉ a.relationshipIds := by
      intro hr
      rw [hardForgetOn_relationships hr hrun] at hrow
      cases hrow
    have hnot : ¬ Deleted t a (RowRef.relationshipEvidence ev) := by
      intro hdel
      cases hdel with
      | relationshipEvidenceOfRelationship hfind hrel =>
          rw [hev] at hfind
          cases hfind
          rw [howner] at hrel
          cases hrel with
          | relationship hr _ => exact hkept hr
          | relationshipOfEntity hfind hends hent =>
              cases hent with
              | entity he _ => exact hkept (hentities _ he r ⟨_, hfind, hends⟩)
      | relationshipEvidenceOfMemory hfind hmem =>
          rw [hev] at hfind
          cases hfind
          rw [hid] at hmem
          cases hmem with
          | memory hin _ =>
              exact hkept ((hclosed id hin).2 r ⟨hstored, ev, evRow, hev, howner, hid⟩)
    rcases evidence_survives (hbetween.relationshipEvidence ev) hnot hev with
      ⟨evRow', hev', ho, hm⟩
    exact ⟨id, Assoc.contains_iff_exists.mpr ⟨row, hrow⟩, ev, evRow', hev', ho.trans howner,
      hm.trans hid⟩

/-!
## When a scope is closed
-/

/-- The claim takes part in an entity of the scope, or has evidence in a memory
the scope starts from. -/
def ClaimInScope (t : Tables F) (scope : ForgetScope) (c : String) : Prop :=
  (exists e, e ∈ scopeEntities t scope ∧ ClaimOfEntity t e c) ∨
    (exists id, Seed t scope id ∧ ClaimEvidencedIn t c id)

def RelationshipInScope (t : Tables F) (scope : ForgetScope) (r : String) : Prop :=
  (exists e, e ∈ scopeEntities t scope ∧ RelationshipOfEntity t e r) ∨
    (exists id, Seed t scope id ∧ RelationshipEvidencedIn t r id)

/-- A memory that is in the scope only as evidence of an entity's claim or
relationship supports nothing outside the scope. -/
def EvidenceWithinScope (t : Tables F) (scope : ForgetScope) : Prop :=
  forall e, e ∈ scopeEntities t scope -> forall id, EvidenceMemoryOf t e id ->
    ¬ Seed t scope id ->
      (forall c, ClaimEvidencedIn t c id -> ClaimInScope t scope c) ∧
        (forall r, RelationshipEvidencedIn t r id -> RelationshipInScope t scope r)

theorem mem_resolved_claimIds {t : Tables F} {scope : ForgetScope} {c : String} :
    c ∈ (resolveForgetScope t scope).claimIds <-> ClaimInScope t scope c := by
  rw [(collects_resolveForgetScope t scope).claims]
  simp [PolicyAffected.none, ClaimInScope, or_comm]

theorem mem_resolved_relationshipIds {t : Tables F} {scope : ForgetScope} {r : String} :
    r ∈ (resolveForgetScope t scope).relationshipIds <-> RelationshipInScope t scope r := by
  rw [(collects_resolveForgetScope t scope).relationships]
  simp [PolicyAffected.none, RelationshipInScope, or_comm]

theorem mem_resolved_memoryIds {t : Tables F} {scope : ForgetScope} {id : MemoryId} :
    id ∈ (resolveForgetScope t scope).memoryIds <->
      Seed t scope id ∨ exists e, e ∈ scopeEntities t scope ∧ EvidenceMemoryOf t e id := by
  rw [(collects_resolveForgetScope t scope).memories]
  simp [PolicyAffected.none]

theorem evidenceClosed_iff (t : Tables F) (scope : ForgetScope) :
    EvidenceClosed t (resolveForgetScope t scope) <-> EvidenceWithinScope t scope := by
  constructor
  · intro hclosed e he id hev _
    have hid := mem_resolved_memoryIds.mpr (Or.inr ⟨e, he, hev⟩)
    refine ⟨?_, ?_⟩
    · intro c hc
      exact mem_resolved_claimIds.mp ((hclosed id hid).1 c hc)
    · intro r hr
      exact mem_resolved_relationshipIds.mp ((hclosed id hid).2 r hr)
  · intro hwithin id hid
    by_cases hseed : Seed t scope id
    · refine ⟨?_, ?_⟩
      · intro c hc
        exact mem_resolved_claimIds.mpr (Or.inr ⟨id, hseed, hc⟩)
      · intro r hr
        exact mem_resolved_relationshipIds.mpr (Or.inr ⟨id, hseed, hr⟩)
    · cases mem_resolved_memoryIds.mp hid with
      | inl h => exact absurd h hseed
      | inr h =>
          rcases h with ⟨e, he, hev⟩
          refine ⟨?_, ?_⟩
          · intro c hc
            exact mem_resolved_claimIds.mpr ((hwithin e he id hev hseed).1 c hc)
          · intro r hr
            exact mem_resolved_relationshipIds.mpr ((hwithin e he id hev hseed).2 r hr)

/-- The scope is closed, and so no claim or relationship that is still active
loses its last evidence in the hard forget of its plan. -/
def ClosedUnderEvidence (t : Tables F) (scope : ForgetScope) : Prop :=
  EvidenceClosed t (resolveForgetScope t scope) ∧
    forall appliedAt t', Tables.applyForgetPolicy
      { affected := buildForgetPlan t scope, hardDelete := true, appliedAt := appliedAt } t
        = Except.ok t' -> KeepsEvidence t t'

theorem closedUnderEvidence_iff (t : Tables F) (scope : ForgetScope) :
    ClosedUnderEvidence t scope <-> EvidenceWithinScope t scope := by
  constructor
  · intro h
    exact (evidenceClosed_iff t scope).mp h.1
  · intro h
    have hclosed := (evidenceClosed_iff t scope).mpr h
    refine ⟨hclosed, ?_⟩
    intro appliedAt t' hrun
    have hplan : EvidenceClosed t (buildForgetPlan t scope) := by
      intro id hid
      rw [mem_buildForgetPlan_memoryIds] at hid
      refine ⟨?_, ?_⟩
      · intro c hc
        exact mem_buildForgetPlan_claimIds.mpr ((hclosed id hid).1 c hc)
      · intro r hr
        exact mem_buildForgetPlan_relationshipIds.mpr ((hclosed id hid).2 r hr)
    refine hplan.keepsEvidence ?_ hrun
    intro e he r hr
    rw [mem_buildForgetPlan_entityIds, resolveForgetScope_entityIds] at he
    rw [mem_buildForgetPlan_relationshipIds, mem_resolved_relationshipIds]
    exact Or.inl ⟨e, he, hr⟩

end Closed

/-!
## One memory behind two entities

A memory supports a claim about each of two entities and is linked to neither.
Forgetting one entity deletes the memory and leaves the other entity's claim
without evidence.
-/

def sharedMemory : MemoryNode Rat :=
  MemoryNode.new ⟨7⟩ 1000 AgentId.nil MemoryType.semantic "Ada met Bob in Turin" []

def sharedEntity (canonical : String) : EntityRow Rat where
  entityType := "person"
  canonical := canonical
  attributesJson := "\x7b\x7d"
  confidence := 1
  createdAt := 1000
  updatedAt := 1000

def sharedClaim (subject : String) : ClaimRow Rat where
  claimText := "was in Turin"
  claimType := "fact"
  subjectEntityId := some subject
  predicate := none
  objectEntityId := none
  confidence := 1
  status := "active"
  validFrom := none
  validUntil := none
  attributesJson := "\x7b\x7d"
  sourceRunId := some "run"
  createdAt := 1000
  updatedAt := 1000

def sharedEvidenceOf (claimId : String) : EvidenceRow Rat where
  ownerId := claimId
  memoryId := ⟨7⟩
  sourceId := none
  evidenceText := none
  spanStart := none
  spanEnd := none
  confidence := 1
  createdAt := 1000

def sharedArtifacts : ExtractionArtifacts Rat where
  run := ("run", {
    sourceMemoryId := some ⟨7⟩, conversationId := none, extractor := "llm"
    extractorVersion := "1", model := none, promptHash := none, configHash := none
    status := "completed", error := none, outputJson := "\x7b\x7d", startedAt := 1000
    completedAt := some 1000 })
  entities := [("ada", sharedEntity "Ada"), ("bob", sharedEntity "Bob")]
  entityAliases := []
  memoryEntities := []
  claims := [("ada-turin", sharedClaim "ada"), ("bob-turin", sharedClaim "bob")]
  claimEntities := [(("ada-turin", "ada", "subject"), 1), (("bob-turin", "bob", "subject"), 1)]
  claimEvidence := [("e1", sharedEvidenceOf "ada-turin"), ("e2", sharedEvidenceOf "bob-turin")]
  relationships := []
  relationshipEvidence := []

/-- The memory is stored and its extraction persisted. -/
def sharedRun : Except MenteError (Tables Rat) :=
  Atomic.andThen (Tables.storeMemoryOn sharedMemory 0)
    (Tables.persistExtractionArtifacts sharedArtifacts) Tables.empty

def sharedTables : Tables Rat := sharedRun.toOption.getD Tables.empty

def forgetAda : Except MenteError (Tables Rat) :=
  Tables.applyForgetPolicy
    { affected := buildForgetPlan sharedTables (ForgetScope.entity "ada")
      hardDelete := true
      appliedAt := 2000 } sharedTables

def tablesAfterAda : Tables Rat := forgetAda.toOption.getD Tables.empty

theorem eq_ok_of_isOk {α : Type} {r : Except MenteError α} (d : α) (h : r.isOk = true) :
    r = Except.ok (r.toOption.getD d) := by
  cases r with
  | ok a => rfl
  | error e => cases h

theorem forgetting_ada_orphans_bob :
    sharedRun = Except.ok sharedTables ∧ forgetAda = Except.ok tablesAfterAda ∧
      ¬ EvidenceClosed sharedTables
        (resolveForgetScope sharedTables (ForgetScope.entity "ada")) ∧
      ¬ KeepsEvidence sharedTables tablesAfterAda ∧
      ¬ ClosedUnderEvidence sharedTables (ForgetScope.entity "ada") := by
  have hev : ClaimEvidencedIn sharedTables "bob-turin" ⟨7⟩ :=
    ⟨by decide +kernel, "e2", sharedEvidenceOf "bob-turin", by decide +kernel, rfl, rfl⟩
  have hopen : ¬ EvidenceClosed sharedTables
      (resolveForgetScope sharedTables (ForgetScope.entity "ada")) := by
    intro hclosed
    have hmem := (hclosed ⟨7⟩ (by decide +kernel)).1 "bob-turin" hev
    revert hmem
    decide +kernel
  have horphan : ¬ KeepsEvidence sharedTables tablesAfterAda := by
    intro hkeeps
    have hrow : tablesAfterAda.claims.find? "bob-turin" = some (sharedClaim "bob") := by
      decide +kernel
    rcases hkeeps.1 "bob-turin" _ hrow rfl ⟨⟨7⟩, hev⟩ with ⟨_, _, ev, row, hfind, _⟩
    have hnone : tablesAfterAda.claimEvidence.entries = [] := by decide +kernel
    have hmem := Assoc.find?_eq_some_iff.mp hfind
    rw [hnone] at hmem
    cases hmem
  exact ⟨eq_ok_of_isOk _ (by decide +kernel), eq_ok_of_isOk _ (by decide +kernel), hopen,
    horphan, fun h => hopen h.1⟩

end Facade
end MenteDb
