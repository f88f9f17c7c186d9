import MenteDb.Sqlite.Artifacts

/-!
# The operation log

Every statement that writes derived rows records an operation in the same transaction.
The log has a primary key of its own: an insert under an identifier that is already
there is refused.  Operations are recorded under identifiers drawn from a supply.
-/

namespace MenteDb
namespace Sqlite

open Foundation

variable {F : Type}

/-- {lit}`memory_operations`, keyed by {lit}`operation_id`. -/
structure OperationRow where
  operationType : String
  memoryId : Option MemoryId
  source : Option MemoryId
  target : Option MemoryId

/-- The tables with their log, and how many identifiers have been drawn. -/
structure AuditedTables (F : Type) where
  tables : Tables F
  operations : Assoc String OperationRow
  drawn : Nat

abbrev AuditedTx (F : Type) := Atomic (AuditedTables F) MenteError

namespace AuditedTables

section Statements

variable (newId : Nat -> String)

def recordOperationOn (operation : OperationRow) : AuditedTx F := fun s =>
  if s.operations.contains (newId s.drawn) then
    Except.error (MenteError.storage
      "UNIQUE constraint failed: memory_operations.operation_id")
  else
    Except.ok { s with
      operations := s.operations.insert (newId s.drawn) operation
      drawn := s.drawn + 1 }

/-- A statement and its record. -/
def audited (tx : Tx F) (operationType : String) (memoryId : Option MemoryId) :
    AuditedTx F := fun s =>
  match tx s.tables with
  | Except.error e => Except.error e
  | Except.ok t =>
      recordOperationOn newId
        { operationType := operationType, memoryId := memoryId, source := none, target := none }
        { s with tables := t }

/-- One transaction for a run and everything derived by it. -/
def persistExtractionArtifacts (artifacts : ExtractionArtifacts F) : AuditedTx F :=
  Atomic.andThen
    (audited newId (Tables.upsertExtractionRunOn artifacts.run) "extraction_run_upsert"
      artifacts.run.2.sourceMemoryId)
    (Atomic.andThen
      (Atomic.andThen
        (Atomic.forEach artifacts.entities (fun entity =>
          audited newId (Tables.upsertEntityOn entity) "entity_upsert" none))
        (Atomic.andThen
          (Atomic.forEach artifacts.entityAliases (fun name =>
            audited newId (Tables.addEntityAliasOn name) "entity_alias_upsert" none))
          (Atomic.forEach artifacts.memoryEntities (fun link =>
            audited newId (Tables.linkMemoryEntityOn link) "memory_entity_link_upsert"
              (some link.1.1)))))
      (Atomic.andThen
        (Atomic.forEach artifacts.claims (fun claim =>
          audited newId (Tables.upsertClaimOn claim) "claim_upsert" none))
        (Atomic.andThen
          (Atomic.forEach artifacts.claimEntities (fun link =>
            audited newId (Tables.linkClaimEntityOn link) "claim_entity_link_upsert" none))
          (Atomic.andThen
            (Atomic.forEach artifacts.claimEvidence (fun evidence =>
              audited newId (Tables.addClaimEvidenceOn evidence) "claim_evidence_upsert"
                (some evidence.2.memoryId)))
            (Atomic.andThen
              (Atomic.forEach artifacts.relationships (fun relationship =>
                audited newId (Tables.upsertEntityRelationshipOn relationship)
                  "entity_relationship_upsert" none))
              (Atomic.andThen
                (Atomic.forEach artifacts.relationshipEvidence (fun evidence =>
                  audited newId (Tables.addRelationshipEvidenceOn evidence)
                    "relationship_evidence_upsert" (some evidence.2.memoryId)))
                (recordOperationOn newId
                  { operationType := "extraction_artifacts_persist"
                    memoryId := artifacts.run.2.sourceMemoryId
                    source := none
                    target := none })))))))

/-- A transaction commits, or reports an error and leaves the database as it was; the
fault is an error of the storage itself. -/
def commit (fault : Option MenteError) (tx : AuditedTx F) :
    Prog (AuditedTables F) MenteError Unit := fun s =>
  match fault with
  | some e => (Except.error e, s)
  | none =>
      match tx s with
      | Except.error e => (Except.error e, s)
      | Except.ok s' => (Except.ok (), s')

end Statements

/-!
## New identifiers

With identifiers that are new, recording never gets in the way.
-/

/-- No identifier that is still to be drawn is in the log or comes twice. -/
structure FreshIds (newId : Nat -> String) (s : AuditedTables F) : Prop where
  unused : forall n, s.drawn <= n -> s.operations.contains (newId n) = false
  distinct : forall m n, s.drawn <= m -> m < n -> newId m ≠ newId n

/-- With new identifiers, the audited transaction does what the transaction does. -/
def Audits (newId : Nat -> String) (atx : AuditedTx F) (tx : Tx F) : Prop :=
  forall s t, FreshIds newId s -> tx s.tables = Except.ok t ->
    exists s', atx s = Except.ok s' ∧ s'.tables = t ∧ FreshIds newId s'

variable {newId : Nat -> String}

theorem FreshIds.record {s : AuditedTables F} (h : FreshIds newId s) (operation : OperationRow) :
    exists s', recordOperationOn newId operation s = Except.ok s' ∧ s'.tables = s.tables ∧
      FreshIds newId s' := by
  unfold recordOperationOn
  rw [h.unused s.drawn (Nat.le_refl _)]
  refine ⟨_, rfl, rfl, ?_, ?_⟩
  · intro n hn
    show (s.operations.insert (newId s.drawn) operation).contains (newId n) = false
    have hne : newId n ≠ newId s.drawn := (h.distinct s.drawn n (Nat.le_refl _) hn).symm
    have hunused := h.unused n (Nat.le_of_succ_le hn)
    unfold Assoc.contains at hunused ⊢
    rw [Assoc.find?_insert, if_neg hne]
    exact hunused
  · intro m n hm hmn
    exact h.distinct m n (Nat.le_of_succ_le hm) hmn

theorem audits_audited (tx : Tx F) (operationType : String) (memoryId : Option MemoryId) :
    Audits newId (audited newId tx operationType memoryId) tx := by
  intro s t hfresh htx
  have hfresh' : FreshIds newId { s with tables := t } := ⟨hfresh.unused, hfresh.distinct⟩
  unfold audited
  rw [htx]
  exact hfresh'.record _

theorem Audits.andThen {atx btx : AuditedTx F} {tx ux : Tx F} (ha : Audits newId atx tx)
    (hb : Audits newId btx ux) : Audits newId (Atomic.andThen atx btx) (Atomic.andThen tx ux) := by
  intro s t hfresh htx
  rcases Atomic.andThen_eq_ok.mp htx with ⟨mid, hmid, hend⟩
  rcases ha s mid hfresh hmid with ⟨s1, hrun1, htables1, hfresh1⟩
  rw [← htables1] at hend
  rcases hb s1 t hfresh1 hend with ⟨s2, hrun2, htables2, hfresh2⟩
  exact ⟨s2, Atomic.andThen_eq_ok.mpr ⟨s1, hrun1, hrun2⟩, htables2, hfresh2⟩

theorem Audits.forEach {α : Type} {xs : List α} {abody : α -> AuditedTx F} {body : α -> Tx F}
    (h : forall x, Audits newId (abody x) (body x)) :
    Audits newId (Atomic.forEach xs abody) (Atomic.forEach xs body) := by
  induction xs with
  | nil =>
      intro s t hfresh htx
      cases htx
      exact ⟨s, rfl, rfl, hfresh⟩
  | cons x rest ih => exact (h x).andThen ih

theorem Audits.record {atx : AuditedTx F} {tx : Tx F} (h : Audits newId atx tx)
    (operation : OperationRow) :
    Audits newId (Atomic.andThen atx (recordOperationOn newId operation)) tx := by
  intro s t hfresh htx
  rcases h s t hfresh htx with ⟨s1, hrun, htables, hfresh1⟩
  rcases hfresh1.record operation with ⟨s2, hrecord, htables2, hfresh2⟩
  exact ⟨s2, Atomic.andThen_eq_ok.mpr ⟨s1, hrun, hrecord⟩, htables2.trans htables, hfresh2⟩

theorem audits_persistExtractionArtifacts (artifacts : ExtractionArtifacts F) :
    Audits newId (persistExtractionArtifacts newId artifacts)
      (Tables.persistExtractionArtifacts artifacts) := by
  refine Audits.andThen (audits_audited _ _ _) (Audits.andThen ?_ (Audits.andThen ?_
    (Audits.andThen ?_ (Audits.andThen ?_ (Audits.andThen ?_ (Audits.record ?_ _))))))
  · exact Audits.andThen (Audits.forEach (fun _ => audits_audited _ _ _))
      (Audits.andThen (Audits.forEach (fun _ => audits_audited _ _ _))
        (Audits.forEach (fun _ => audits_audited _ _ _)))
  · exact Audits.forEach (fun _ => audits_audited _ _ _)
  · exact Audits.forEach (fun _ => audits_audited _ _ _)
  · exact Audits.forEach (fun _ => audits_audited _ _ _)
  · exact Audits.forEach (fun _ => audits_audited _ _ _)
  · exact Audits.forEach (fun _ => audits_audited _ _ _)

end AuditedTables
end Sqlite
end MenteDb
