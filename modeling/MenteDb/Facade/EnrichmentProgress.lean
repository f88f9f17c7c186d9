import MenteDb.Facade.Enrichment
import MenteDb.Sqlite.History

/-!
# Progress of enrichment

A row keeps its creation time for as long as it is there, so a memory that was enriched
is passed over as long as the turn recorded last is a number that is not below its
creation time in microseconds.  Opening the database forgets the turn.
-/

namespace MenteDb
namespace Facade

open Foundation
open Sqlite
open Cognitive

variable {F : Type}

/-!
## Creation times
-/

/-- The memory is stored, and was first stored at this time. -/
def CreatedAt (id : MemoryId) (at_ : Timestamp) (w : World F) : Prop :=
  (w.tables.memories.find? id).map MemoryRow.createdAt = some at_

section Times

variable [Scalar F]

theorem createdAt_storeMemoryOn {w : World F} {t : Tables F} {node : MemoryNode F} {dim : Nat}
    {id : MemoryId} {at_ : Timestamp} (h : CreatedAt id at_ w)
    (hrun : Tables.storeMemoryOn node dim w.tables = Except.ok t) :
    CreatedAt id at_ { w with tables := t } := by
  unfold CreatedAt at h ⊢
  show (t.memories.find? id).map MemoryRow.createdAt = some at_
  rw [Tables.storeMemoryOn_find? hrun]
  by_cases hid : id = node.id
  · rw [if_pos hid, ← hid]
    cases hfind : w.tables.memories.find? id with
    | none =>
        rw [hfind] at h
        cases h
    | some row =>
        rw [hfind] at h
        exact h
  · rw [if_neg hid]
    exact h

theorem writeClosed_createdAt {env : Env F} (id : MemoryId) (at_ : Timestamp) :
    WriteClosed env (CreatedAt id at_ : World F -> Prop) where
  views w w' _ hmemories _ _ _ hw := by
    unfold CreatedAt
    rw [hmemories]
    exact hw
  storeOn w t node dim hw hrun := createdAt_storeMemoryOn hw hrun
  register w j hw := hw
  relate edge := by
    apply Prog.Keeps.bind
    · apply keeps_transact (fun _ _ _ hw => hw)
      intro w t hw hrun
      cases hrun
      exact hw
    · intro _
      exact keeps_onGraph (fun _ _ hw => hw)

omit [Scalar F] in
theorem CreatedAt.of_sameMemories {id : MemoryId} {at_ : Timestamp} {w : World F}
    (h : CreatedAt id at_ w) {t : Tables F} (hsame : t.memories = w.tables.memories) :
    CreatedAt id at_ { w with tables := t } := by
  unfold CreatedAt at h ⊢
  show (t.memories.find? id).map MemoryRow.createdAt = some at_
  rw [hsame]
  exact h

/-- One statement deletes a row or leaves its creation time. -/
theorem createdAt_of_statement {w : World F} {t : Tables F} {dim : Nat}
    (hstatement : Tables.Statement dim w.tables t) {id : MemoryId} {at_ : Timestamp}
    (h : CreatedAt id at_ w) (hstored : t.memories.contains id = true) :
    CreatedAt id at_ { w with tables := t } := by
  cases hstatement with
  | store hrun => exact createdAt_storeMemoryOn h hrun
  | addEdge hrun =>
      cases hrun
      exact h
  | replaceEntities hrun =>
      exact h.of_sameMemories (Tables.sameMemories_replaceMemoryEntityBundle w.tables _ _ _ _
        w.tables t (Tables.SameMemories.refl _) hrun).2.1
  | invalidateMemory hrun =>
      cases hrun
      unfold CreatedAt at h ⊢
      show ((w.tables.memories.modify _ _).find? id).map MemoryRow.createdAt = some at_
      rw [MemoryTable.find?_modify]
      rcases Option.map_eq_some_iff.mp h with ⟨row, hrow, hcreated⟩
      rw [hrow, Option.map_some, Option.map_some]
      split
      · exact congrArg some hcreated
      · exact congrArg some hcreated
  | markClaim hrun =>
      cases hrun
      exact h
  | markRelationship hrun =>
      cases hrun
      exact h
  | deleteRelationship => exact h
  | deleteClaim =>
      apply h.of_sameMemories
      unfold Tables.deleteClaim
      split
      · rfl
      · rfl
  | deleteMemory =>
      rename_i j
      unfold CreatedAt at h ⊢
      show ((w.tables.deleteMemory j).memories.find? id).map MemoryRow.createdAt = some at_
      rw [MemoryTable.contains_eq, Tables.find?_deleteMemory] at hstored
      rw [Tables.find?_deleteMemory]
      by_cases hid : id = j
      · rw [if_pos hid] at hstored
        cases hstored
      · rw [if_neg hid]
        exact h
  | deleteEntity =>
      apply h.of_sameMemories
      unfold Tables.deleteEntity
      split
      · rfl
      · rfl

theorem createdAt_of_effect {w w' : World F} (heffect : Effect w w') {id : MemoryId}
    {at_ : Timestamp} (h : CreatedAt id at_ w)
    (hstored : w'.tables.memories.contains id = true) : CreatedAt id at_ w' := by
  cases heffect with
  | tick _ => exact h
  | graph => exact h
  | phantom => exact h
  | reopen => exact h
  | rebuild _ hrun =>
      cases hrun
      exact h
  | statement hstatement => exact createdAt_of_statement hstatement h hstored

end Times

/-!
## Runs
-/

/-- A database and, beside it, the memories that enrichments have processed and that have
been stored ever since. -/
structure Progress (F : Type) where
  db : Database F
  processed : List MemoryId

/-- What happens to a database: a step of any operation, an opening, and what concerns
enrichment. -/
inductive Activity (F : Type) where
  | effect (after : World F)
  | reopen (speculative : SpeculativeCache F)
  | requestEnrichment
  | markEnrichmentComplete (turnId : UInt64)
  | runEnrichment (services : EnrichmentServices F) (currentTurn : UInt64)
      (skipExtraction : Bool)

/-- None of the memories was created after the turn, read as a time. -/
def CreatedBy (db : Database F) (ids : List MemoryId) (turnId : UInt64) : Prop :=
  forall id, id ∈ ids -> forall at_, CreatedAt id at_ db.world -> at_ <= turnId

/-- The memories that a run has processed when it records its turn: none if it is unwound. -/
def Database.completedBy [Scalar F] (env : Env F) (services : EnrichmentServices F)
    (skipExtraction : Bool) (db : Database F) : List MemoryId :=
  if db.enrichmentReturns env services skipExtraction then
    (db.processedBy services skipExtraction).map MemoryNode.id
  else []

namespace Activity

variable [Scalar F]

/-- A memory that is not stored any more counts as processed no more. -/
def step (env : Env F) (s : Progress F) : Activity F -> Progress F
  | effect after =>
      { db := { s.db with world := after }
        processed := s.processed.filter (fun id => after.tables.memories.contains id) }
  | reopen speculative =>
      { s with db := Database.ofWorld (Facade.reopen speculative s.db.world).2 }
  | requestEnrichment => { s with db := s.db.requestEnrichment }
  | markEnrichmentComplete turnId => { s with db := s.db.markEnrichmentComplete turnId }
  | runEnrichment services currentTurn skipExtraction =>
      { db := s.db.runEnrichment env services currentTurn skipExtraction
        processed := s.processed ++ s.db.completedBy env services skipExtraction }

/-- The turn recorded by the activity is not below the creation times of what has been
processed then; opening the database records turn zero. -/
def RecordsEnough (env : Env F) (s : Progress F) : Activity F -> Prop
  | effect after => Effect s.db.world after
  | reopen _ => CreatedBy s.db s.processed 0
  | requestEnrichment => True
  | markEnrichmentComplete turnId => CreatedBy s.db s.processed turnId
  | runEnrichment services currentTurn skipExtraction =>
      s.db.enrichmentReturns env services skipExtraction = true ->
        CreatedBy s.db (s.processed ++ s.db.completedBy env services skipExtraction) currentTurn

end Activity

/-- Everything processed is stored, and was created at a time that the recorded turn
covers. -/
def Covered (s : Progress F) : Prop :=
  forall id, id ∈ s.processed ->
    exists at_, CreatedAt id at_ s.db.world ∧ at_ <= s.db.lastEnrichmentTurn

theorem createdAt_of_mem_candidates {db : Database F} {m : MemoryNode F}
    (hm : m ∈ db.enrichmentCandidates) : CreatedAt m.id m.createdAt db.world := by
  have hstored := (List.mem_filter.mp (mem_orderBy.mp hm)).1
  have hget := Tables.mem_allMemories hstored
  unfold Tables.getMemory at hget
  rcases Option.map_eq_some_iff.mp hget with ⟨row, hrow, hnode⟩
  unfold CreatedAt
  rw [hrow, ← hnode]
  rfl

theorem Covered.not_candidate {s : Progress F} (h : Covered s) {m : MemoryNode F}
    (hm : m ∈ s.db.enrichmentCandidates) : m.id ∉ s.processed := by
  intro hprocessed
  rcases h m.id hprocessed with ⟨at_, hcreated, hle⟩
  have hselected := (List.mem_filter.mp (mem_orderBy.mp hm)).2
  rw [Bool.and_eq_true, decide_eq_true_eq] at hselected
  have htime : some m.createdAt = some at_ := (createdAt_of_mem_candidates hm).symm.trans hcreated
  rw [← Option.some.inj htime] at hle
  exact UInt64.not_lt.mpr hle hselected.2

section Runs

variable [Scalar F]

/-- A run that returns has recorded its turn, and one that is unwound has not. -/
theorem lastEnrichmentTurn_runEnrichment (env : Env F) (services : EnrichmentServices F)
    (currentTurn : UInt64) (skipExtraction : Bool) (db : Database F) :
    (db.runEnrichment env services currentTurn skipExtraction).lastEnrichmentTurn =
      if db.enrichmentReturns env services skipExtraction then currentTurn
      else db.lastEnrichmentTurn := by
  unfold Database.runEnrichment Database.enrichmentReturns
  rcases db.enrichmentPhases env services skipExtraction db.world with ⟨outcome, w⟩
  cases outcome with
  | ok _ => rfl
  | error _ => rfl

theorem createdAt_of_mem_completedBy {env : Env F} {services : EnrichmentServices F}
    {skipExtraction : Bool} {db : Database F} {id : MemoryId}
    (h : id ∈ db.completedBy env services skipExtraction) :
    exists at_, CreatedAt id at_ db.world := by
  unfold Database.completedBy at h
  split at h
  · rcases List.mem_map.mp h with ⟨m, hm, heq⟩
    subst heq
    unfold Database.processedBy at hm
    split at hm
    · cases hm
    · exact ⟨m.createdAt, createdAt_of_mem_candidates hm⟩
  · cases h

theorem Covered.step {env : Env F} {s : Progress F} (h : Covered s) {activity : Activity F}
    (hactivity : activity.RecordsEnough env s) : Covered (activity.step env s) := by
  cases activity with
  | effect after =>
      intro id hid
      rcases List.mem_filter.mp hid with ⟨hprocessed, hstored⟩
      rcases h id hprocessed with ⟨at_, hcreated, hle⟩
      exact ⟨at_, createdAt_of_effect hactivity hcreated hstored, hle⟩
  | reopen speculative =>
      intro id hid
      rcases h id hid with ⟨at_, hcreated, _⟩
      exact ⟨at_, hcreated, hactivity id hid at_ hcreated⟩
  | requestEnrichment => exact h
  | markEnrichmentComplete turnId =>
      intro id hid
      rcases h id hid with ⟨at_, hcreated, _⟩
      exact ⟨at_, hcreated, hactivity id hid at_ hcreated⟩
  | runEnrichment services currentTurn skipExtraction =>
      intro id hid
      -- the creation time is kept by the run, whether or not it returns
      have hkept : forall at_, CreatedAt id at_ s.db.world ->
          CreatedAt id at_ (s.db.runEnrichment env services currentTurn skipExtraction).world :=
        fun at_ hcreated => (writeClosed_createdAt id at_).of_runEnrichment services currentTurn
          skipExtraction hcreated
      show exists at_, _ ∧
        at_ <= (s.db.runEnrichment env services currentTurn skipExtraction).lastEnrichmentTurn
      rw [lastEnrichmentTurn_runEnrichment]
      by_cases hreturns : s.db.enrichmentReturns env services skipExtraction = true
      · have hcreated : exists at_, CreatedAt id at_ s.db.world := by
          cases List.mem_append.mp hid with
          | inl hold =>
              rcases h id hold with ⟨at_, hcreated, _⟩
              exact ⟨at_, hcreated⟩
          | inr hnew => exact createdAt_of_mem_completedBy hnew
        rcases hcreated with ⟨at_, hcreated⟩
        rw [if_pos hreturns]
        exact ⟨at_, hkept at_ hcreated, hactivity hreturns id hid at_ hcreated⟩
      · have hold : id ∈ s.processed := by
          cases List.mem_append.mp hid with
          | inl hold => exact hold
          | inr hnew =>
              unfold Database.completedBy at hnew
              rw [if_neg hreturns] at hnew
              cases hnew
        rcases h id hold with ⟨at_, hcreated, hle⟩
        rw [if_neg hreturns]
        exact ⟨at_, hkept at_ hcreated, hle⟩

/-- In every run in which the turns recorded cover the creation times of what has been
processed, a memory that was processed and has been stored ever since is no candidate. -/
theorem processed_not_candidate (env : Env F) {db : Database F} {activities : List (Activity F)}
    {s : Progress F}
    (hrun : Run (Activity.step env) (Activity.RecordsEnough env)
      { db := db, processed := [] } activities s) :
    forall m, m ∈ s.db.enrichmentCandidates -> m.id ∉ s.processed := by
  have hcovered : Covered s := by
    refine hrun.invariant (fun t activity ht hactivity => Covered.step ht hactivity) ?_
    intro id hid
    cases hid
  exact fun m hm => hcovered.not_candidate hm

end Runs

/-!
### A conversation in its first turn
-/

def quietServices : EnrichmentServices Rat where
  maxEnrichmentConfidence := 7 / 10
  providerReady := true
  process := fun _ _ => some { toStore := [], contradictions := [], entities := [] }
  embed := fun _ => none
  embedText := fun _ => none
  resolve := fun _ => none
  llm := none

/-- One episodic memory, created at 1000. -/
def firstTurn : Database Rat :=
  Database.ofWorld (store (calmEnv CognitiveConfig.default)
    (MemoryNode.new ⟨7⟩ 1000 AgentId.nil MemoryType.episodic "hello" []) emptyWorld).2

theorem processed_not_candidate_late :
    firstTurn.completedBy (calmEnv CognitiveConfig.default) quietServices false = [⟨7⟩] ∧
      forall m, m ∈ (Activity.step (calmEnv CognitiveConfig.default)
          { db := firstTurn, processed := [] }
          (Activity.runEnrichment quietServices 1000 false)).db.enrichmentCandidates ->
        m.id ∉ firstTurn.completedBy (calmEnv CognitiveConfig.default) quietServices false := by
  have hids : firstTurn.completedBy (calmEnv CognitiveConfig.default) quietServices false =
      [⟨7⟩] := by
    decide +kernel
  have htime : (firstTurn.world.tables.memories.find? ⟨7⟩).map MemoryRow.createdAt =
      some 1000 := by
    decide +kernel
  have hrecords : (Activity.runEnrichment quietServices 1000 false).RecordsEnough
      (calmEnv CognitiveConfig.default) { db := firstTurn, processed := [] } := by
    intro _ id hid at_ hcreated
    rw [List.nil_append, hids, List.mem_singleton] at hid
    unfold CreatedAt at hcreated
    rw [hid, htime] at hcreated
    rw [← Option.some.inj hcreated]
    exact UInt64.le_refl 1000
  have hrun : Run (Activity.step (calmEnv CognitiveConfig.default))
      (Activity.RecordsEnough (calmEnv CognitiveConfig.default))
      { db := firstTurn, processed := [] } [Activity.runEnrichment quietServices 1000 false]
      (Activity.step (calmEnv CognitiveConfig.default) { db := firstTurn, processed := [] }
        (Activity.runEnrichment quietServices 1000 false)) :=
    (Run.nil _).snoc hrecords
  exact ⟨hids, processed_not_candidate (calmEnv CognitiveConfig.default) hrun⟩

/-- Enriched in turn one, the memory is a candidate again at once. -/
theorem enriched_memory_is_candidate_again :
    (⟨7⟩ : MemoryId) ∈ firstTurn.completedBy (calmEnv CognitiveConfig.default) quietServices
        false ∧
      (⟨7⟩ : MemoryId) ∈ (firstTurn.runEnrichment (calmEnv CognitiveConfig.default)
        quietServices 1 false).enrichmentCandidates.map MemoryNode.id := by
  decide +kernel

end Facade
end MenteDb
