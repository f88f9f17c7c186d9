import MenteDb.Facade.PolicyPlans
import MenteDb.Facade.Reindexing
import MenteDb.Facade.ValidatedBatches
import MenteDb.Sqlite.Erasure

/-!
# Previews of policies

A preview lists the rows an application is going to touch.  Applying the policy to the tables the
preview was made for reports what the preview said, carries out the listed actions in their order
and changes no memory, claim, relationship or entity that is not listed, except that a claim may
lose its references to a listed entity.
-/

namespace MenteDb
namespace Facade

open Foundation
open Sqlite
open MenteDb.Graph
open Cognitive
open Consolidation

variable {F : Type}

/-!
## Policies
-/

/-- A policy that is applied. -/
inductive PolicyCall (F : Type) where
  | correction (request : CorrectionRequest)
  | enrichment (request : EnrichmentRequest F)
  | forget (scope : ForgetScope) (mode : ForgetMode)
  | decay
  | archive

namespace PolicyCall

section Calls

variable [Scalar F] (env : Env F) (jenv : JournalEnv F)

def prepare : PolicyCall F -> Op F (PreparedPolicy F)
  | correction request => prepareCorrection env request
  | enrichment request => prepareEnrichment env jenv request
  | forget scope mode => prepareForget env scope mode
  | decay => prepareDecay env jenv
  | archive => prepareArchive env jenv

def perform : PolicyCall F -> JournalOp F PolicyReport
  | correction request => JournalWorld.applyCorrectionPolicy env jenv request
  | enrichment request => JournalWorld.applyEnrichmentPolicy env jenv request
  | forget scope mode => JournalWorld.applyForgetPolicy env jenv scope mode
  | decay => JournalWorld.applyDecayPolicyGlobal env jenv
  | archive => JournalWorld.applyArchivePolicyGlobal env jenv

theorem perform_eq (call : PolicyCall F) :
    call.perform env jenv = applyPrepared env jenv (call.prepare env jenv) := by
  cases call <;> rfl

end Calls

end PolicyCall

/-- A policy that succeeds has committed what was prepared. -/
def commitOf (jenv : JournalEnv F) (n : Nat) :
    Except MenteError (PreparedPolicy F) -> Except MenteError PolicyReport -> List (PolicyCommit F)
  | Except.ok p, Except.ok _ => [p.commit jenv n]
  | _, _ => []

/-- What a policy commits. -/
def JournalWorld.committed [Scalar F] (env : Env F) (jenv : JournalEnv F) (s : JournalWorld F)
    (call : PolicyCall F) : List (PolicyCommit F) :=
  commitOf jenv s.drawn (call.prepare env jenv s.world).1 (call.perform env jenv s).1

/-- The row an action is about. -/
def PolicyAction.target (a : PolicyAction) : String × Option String := (a.targetType, a.targetId)

def ActionDraft.target (a : ActionDraft) : String × Option String := (a.targetType, a.targetId)

theorem targets_plan (jenv : JournalEnv F) (d : PlanDraft) (n : Nat) :
    (d.plan jenv n).actions.map PolicyAction.target = d.actions.map ActionDraft.target := by
  apply List.ext_getElem
  · simp [PlanDraft.plan]
  · intro i hleft hright
    simp [PlanDraft.plan, policyAction, PolicyAction.target, ActionDraft.target]

theorem length_plan (jenv : JournalEnv F) (d : PlanDraft) (n : Nat) :
    (d.plan jenv n).actions.length = d.actions.length := List.length_mapIdx

/-!
## Targets
-/

def memoryTargets (affected : PolicyAffected) : List (String × Option String) :=
  affected.memoryIds.map (fun id => ("memory", some (idText id)))

def rowTargets (kind : String) (ids : List String) : List (String × Option String) :=
  ids.map (fun id => (kind, some id))

/-- The rows a correction is about; without any it names the new memory. -/
def correctionTargets (request : CorrectionRequest) (affected : PolicyAffected) :
    List (String × Option String) :=
  let rows := memoryTargets affected ++ rowTargets "claim" affected.claimIds ++
    rowTargets "relationship" affected.relationshipIds
  if rows.isEmpty then [("memory", some (idText request.newMemoryId))] else rows

def forgetTargets (affected : PolicyAffected) : List (String × Option String) :=
  memoryTargets affected ++ rowTargets "claim" affected.claimIds ++
    rowTargets "relationship" affected.relationshipIds ++ rowTargets "entity" affected.entityIds

theorem targets_correctionActions (request : CorrectionRequest) (affected : PolicyAffected)
    (now : Timestamp) (applied : Bool) :
    (correctionActions request affected now applied).map ActionDraft.target =
      correctionTargets request affected := by
  unfold correctionActions correctionTargets memoryTargets rowTargets
  simp only [List.isEmpty_iff, List.append_eq_nil_iff, List.map_eq_nil_iff]
  split
  · rfl
  · rw [List.map_append, List.map_append, List.map_map, List.map_map, List.map_map]
    rfl

theorem targets_forgetActions (kind : String) (mode : ForgetMode) (applied : Bool)
    (ids : List String) :
    (forgetActions kind mode applied ids).map ActionDraft.target = rowTargets kind ids := by
  unfold forgetActions rowTargets
  rw [List.map_map]
  rfl

theorem targets_forgetDraft (scope : ForgetScope) (mode : ForgetMode) (affected : PolicyAffected)
    (appliedAt : Option Timestamp) :
    (forgetDraft scope mode affected appliedAt).actions.map ActionDraft.target =
      forgetTargets affected := by
  unfold forgetDraft forgetTargets
  dsimp only
  rw [List.map_append, List.map_append, List.map_append, targets_forgetActions,
    targets_forgetActions, targets_forgetActions, targets_forgetActions]
  unfold rowTargets memoryTargets
  rw [List.map_map]
  rfl

/-!
## Rows that stay as they are
-/

/-- Only listed rows differ, and a claim that is not listed lost at most references to listed
entities. -/
structure Foretold (listed : List (String × Option String)) (t t' : Tables F) : Prop where
  memories : forall id, t'.memories.find? id ≠ t.memories.find? id ->
    ("memory", some (idText id)) ∈ listed
  claims : forall c, t'.claims.find? c ≠ t.claims.find? c ->
    ("claim", some c) ∈ listed ∨
      exists row row' e, t.claims.find? c = some row ∧ t'.claims.find? c = some row' ∧
        ClaimCleared row row' ∧ ("entity", some e) ∈ listed ∧
        (row.subjectEntityId = some e ∨ row.objectEntityId = some e)
  relationships : forall r, t'.entityRelationships.find? r ≠ t.entityRelationships.find? r ->
    ("relationship", some r) ∈ listed
  entities : forall e, t'.entities.find? e ≠ t.entities.find? e -> ("entity", some e) ∈ listed

/-- Rows that are not affected are those of the first state. -/
structure Within (t0 : Tables F) (a : PolicyAffected) (t : Tables F) : Prop where
  memories : forall id, id ∉ a.memoryIds -> t.memories.find? id = t0.memories.find? id
  claims : forall c, c ∉ a.claimIds -> t.claims.find? c = t0.claims.find? c
  relationships : forall r, r ∉ a.relationshipIds ->
    t.entityRelationships.find? r = t0.entityRelationships.find? r
  entities : t.entities = t0.entities

namespace Within

variable {t0 : Tables F} {a : PolicyAffected}

theorem refl (t0 : Tables F) (a : PolicyAffected) : Within t0 a t0 where
  memories := fun _ _ => rfl
  claims := fun _ _ => rfl
  relationships := fun _ _ => rfl
  entities := rfl

theorem invalidateMemoryOn {id : MemoryId} (hid : id ∈ a.memoryIds) (until_ : Timestamp) :
    Atomic.Keeps (Within t0 a) (Tables.invalidateMemoryOn id until_) := by
  intro t t' ht hrun
  cases hrun
  refine { memories := ?_, claims := ht.claims, relationships := ht.relationships,
           entities := ht.entities }
  intro other hother
  have hne : ¬ other = id := fun heq => hother (by rw [heq]; exact hid)
  rw [MemoryTable.find?_modify]
  simp only [if_neg hne, Option.map_id']
  exact ht.memories other hother

theorem find?_update_other {κ ν : Type} [DecidableEq κ] (t : Assoc κ ν) (f : κ -> ν -> ν)
    {k j : κ} (hne : ¬ j = k) : (t.update (fun i _ => decide (i = k)) f).find? j = t.find? j := by
  rw [Assoc.find?_update]
  simp only [decide_eq_false hne, Bool.false_eq_true, if_false, Option.map_id']

theorem markClaimStatusOn {c : String} (hc : c ∈ a.claimIds) (status : String)
    (until_ : Timestamp) :
    Atomic.Keeps (Within t0 a) (Tables.markClaimStatusOn c status until_) := by
  intro t t' ht hrun
  cases hrun
  refine { memories := ht.memories, claims := ?_, relationships := ht.relationships,
           entities := ht.entities }
  intro other hother
  exact (find?_update_other t.claims _ (fun heq => hother (by rw [heq]; exact hc))).trans
    (ht.claims other hother)

theorem markRelationshipStatusOn {r : String} (hr : r ∈ a.relationshipIds) (status : String)
    (until_ : Timestamp) :
    Atomic.Keeps (Within t0 a) (Tables.markRelationshipStatusOn r status until_) := by
  intro t t' ht hrun
  cases hrun
  refine { memories := ht.memories, claims := ht.claims, relationships := ?_,
           entities := ht.entities }
  intro other hother
  exact (find?_update_other t.entityRelationships _
    (fun heq => hother (by rw [heq]; exact hr))).trans (ht.relationships other hother)

theorem addEdgeOn (edge : MemoryEdge F) : Atomic.Keeps (Within t0 a) (Tables.addEdgeOn edge) := by
  intro t t' ht hrun
  cases hrun
  exact { memories := ht.memories, claims := ht.claims, relationships := ht.relationships,
          entities := ht.entities }

theorem applyCorrectionPolicy {mutation : CorrectionPolicyMutation F}
    (hmemories : forall p, p ∈ mutation.memoryInvalidations -> p.1 ∈ a.memoryIds)
    (hclaims : forall c, c ∈ mutation.correctedClaimIds -> c ∈ a.claimIds)
    (hrelationships : forall r, r ∈ mutation.correctedRelationshipIds ->
      r ∈ a.relationshipIds) :
    Atomic.Keeps (Within t0 a) (Tables.applyCorrectionPolicy mutation) := by
  apply Atomic.Keeps.andThen
  · exact Atomic.Keeps.forEach (fun p hp => invalidateMemoryOn (hmemories p hp) p.2)
  · apply Atomic.Keeps.andThen
    · exact Atomic.Keeps.forEach (fun c hc => markClaimStatusOn (hclaims c hc) _ _)
    · apply Atomic.Keeps.andThen
      · exact Atomic.Keeps.forEach
          (fun r hr => markRelationshipStatusOn (hrelationships r hr) _ _)
      · exact Atomic.Keeps.forEach (fun e _ => addEdgeOn e)

theorem softForgetOn (at_ : Timestamp) :
    Atomic.Keeps (Within t0 a) (Tables.softForgetOn a at_) := by
  apply Atomic.Keeps.andThen
  · exact Atomic.Keeps.forEach (fun id hid => invalidateMemoryOn hid at_)
  · apply Atomic.Keeps.andThen
    · exact Atomic.Keeps.forEach (fun c hc => markClaimStatusOn hc _ at_)
    · exact Atomic.Keeps.forEach (fun r hr => markRelationshipStatusOn hr _ at_)

theorem foretold {t : Tables F} (h : Within t0 a t) {listed : List (String × Option String)}
    (hmemories : forall id, id ∈ a.memoryIds -> ("memory", some (idText id)) ∈ listed)
    (hclaims : forall c, c ∈ a.claimIds -> ("claim", some c) ∈ listed)
    (hrelationships : forall r, r ∈ a.relationshipIds -> ("relationship", some r) ∈ listed) :
    Foretold listed t0 t where
  memories := fun id hne => hmemories id (by
    by_contra hout
    exact hne (h.memories id hout))
  claims := fun c hne => Or.inl (hclaims c (by
    by_contra hout
    exact hne (h.claims c hout)))
  relationships := fun r hne => hrelationships r (by
    by_contra hout
    exact hne (h.relationships r hout))
  entities := fun e hne => absurd (by rw [h.entities]) hne

end Within

section Hard

variable [Scalar F]

/-- A relationship that falls with an entity of the plan is itself in the plan. -/
theorem relationship_of_buildForgetPlan {t : Tables F} {scope : ForgetScope} {r : String}
    (h : Deleted t (buildForgetPlan t scope) (RowRef.relationship r)) :
    r ∈ (buildForgetPlan t scope).relationshipIds := by
  cases h with
  | relationship hr _ => exact hr
  | relationshipOfEntity hrow hend hentity =>
      cases hentity with
      | entity he _ =>
          rw [mem_buildForgetPlan_entityIds, resolveForgetScope_entityIds] at he
          rw [mem_buildForgetPlan_relationshipIds]
          exact ((collects_resolveForgetScope t scope).relationships r).mpr
            (Or.inr (Or.inr ⟨_, he, _, hrow, hend⟩))

theorem foretold_hardForgetOn {t t' : Tables F} {scope : ForgetScope}
    (hrun : Tables.hardForgetOn (buildForgetPlan t scope) t = Except.ok t') :
    Foretold (forgetTargets (buildForgetPlan t scope)) t t' := by
  have hbetween : Between t (buildForgetPlan t scope) t' :=
    Between.hardForgetOn t (buildForgetPlan t scope) t t' (Between.refl t _) hrun
  have hentityListed : forall e, Deleted t (buildForgetPlan t scope) (RowRef.entity e) ->
      ("entity", some e) ∈ forgetTargets (buildForgetPlan t scope) := by
    intro e hdeleted
    cases hdeleted with
    | entity he _ =>
        exact List.mem_append_right _ (List.mem_map_of_mem (f := fun id => ("entity", some id)) he)
  constructor
  · intro id hne
    rcases hbetween.memories id with hsame | ⟨_, hdeleted⟩ | ⟨hfalse, _⟩
    · exact absurd hsame hne
    · cases hdeleted with
      | memory hid _ =>
          exact List.mem_append_left _ (List.mem_append_left _ (List.mem_append_left _
            (List.mem_map_of_mem (f := fun id => ("memory", some (idText id))) hid)))
    · exact False.elim hfalse
  · intro c hne
    rcases hbetween.claims c with
      hsame | ⟨_, hdeleted⟩ | ⟨hnulled, row, row', hold, hnew, hclear⟩
    · exact absurd hsame hne
    · left
      cases hdeleted with
      | claim hc _ =>
          exact List.mem_append_left _ (List.mem_append_left _ (List.mem_append_right _
            (List.mem_map_of_mem (f := fun id => ("claim", some id)) hc)))
    · right
      cases hnulled with
      | claim hrow hrefers hentity =>
          rw [hold] at hrow
          cases hrow
          exact ⟨row, row', _, hold, hnew, hclear, hentityListed _ hentity, hrefers⟩
  · intro r hne
    rcases hbetween.relationships r with hsame | ⟨_, hdeleted⟩ | ⟨hfalse, _⟩
    · exact absurd hsame hne
    · exact List.mem_append_left _ (List.mem_append_right _
        (List.mem_map_of_mem (f := fun id => ("relationship", some id))
          (relationship_of_buildForgetPlan hdeleted)))
    · exact False.elim hfalse
  · intro e hne
    rcases hbetween.entities e with hsame | ⟨_, hdeleted⟩ | ⟨hfalse, _⟩
    · exact absurd hsame hne
    · exact hentityListed e hdeleted
    · exact False.elim hfalse

end Hard

/-!
## Applying
-/

section Applying

variable [Scalar F] {env : Env F} {jenv : JournalEnv F}

omit [Scalar F] in
theorem onJournal_ok {f : Atomic Journal MenteError} {s s' : Tables F × Journal}
    (h : onJournal f s = Except.ok s') : s'.1 = s.1 := by
  unfold onJournal at h
  split at h
  · cases h
  · cases h
    rfl

omit [Scalar F] in
theorem onTables_ok {tx : Tx F} {s s' : Tables F × Journal}
    (h : onTables tx s = Except.ok s') : tx s.1 = Except.ok s'.1 := by
  unfold onTables at h
  split at h
  · cases h
  · rename_i t htx
    cases h
    exact htx

omit [Scalar F] in
/-- Whatever is recorded, the tables change by the effect alone. -/
theorem transaction_effect {json : JsonOps} {c : PolicyCommit F} {s s' : Tables F × Journal}
    (h : c.transaction json s = Except.ok s') : c.effect s.1 = Except.ok s'.1 := by
  rcases Atomic.andThen_eq_ok.mp h with ⟨mid, hplan, hrest⟩
  rw [← onJournal_ok hplan]
  split at hrest
  · rcases Atomic.andThen_eq_ok.mp hrest with ⟨late, hevents, heffect⟩
    rw [← onJournal_ok hevents]
    exact onTables_ok heffect
  · rcases Atomic.andThen_eq_ok.mp hrest with ⟨late, heffect, hevents⟩
    rw [onJournal_ok hevents]
    exact onTables_ok heffect

omit [Scalar F] in
theorem commitPolicy_ok {c : PolicyCommit F} {s s' : JournalWorld F}
    (h : commitPolicy env jenv c s = (Except.ok (), s')) :
    c.effect s.world.tables = Except.ok s'.world.tables := by
  unfold commitPolicy at h
  split at h
  · cases h
  · split at h
    · cases h
    · rename_i t j hrun
      cases h
      exact transaction_effect hrun

omit [Scalar F] in
theorem onWorld_ok {α : Type} {x : Op F α} {s s' : JournalWorld F} {a : α}
    (h : onWorld x s = (Except.ok a, s')) :
    x s.world = (Except.ok a, s'.world) ∧ s'.journal = s.journal ∧ s'.drawn = s.drawn := by
  unfold onWorld at h
  rcases hx : x s.world with ⟨result, w⟩
  rw [hx] at h
  cases h
  exact ⟨rfl, rfl, rfl⟩

omit [Scalar F] in
/-- A policy that succeeds has put into effect what was prepared. -/
theorem applyPrepared_ok {prepare : Op F (PreparedPolicy F)} {s s' : JournalWorld F}
    {report : PolicyReport} (h : applyPrepared env jenv prepare s = (Except.ok report, s')) :
    exists p mid, prepare s.world = (Except.ok p, mid) ∧
      p.effect mid.tables = Except.ok s'.world.tables ∧
      report = (p.commit jenv s.drawn).report := by
  rcases Prog.bind_ok h with ⟨p, s1, hprepare, hrest⟩
  rcases onWorld_ok hprepare with ⟨hp, _, hdrawn⟩
  rcases Prog.bind_ok hrest with ⟨c, s2, htake, hrest⟩
  cases htake
  rcases Prog.bind_ok hrest with ⟨_, s3, hcommit, hrest⟩
  rcases Prog.bind_ok hrest with ⟨_, s4, hgraph, hreport⟩
  rcases onWorld_ok hgraph with ⟨hmodify, _, _⟩
  cases hreport
  have htables : s'.world.tables = s3.world.tables := by
    have hworld := congrArg (fun r => r.2.tables) hmodify
    exact hworld.symm
  refine ⟨p, s1.world, hp, ?_, by rw [hdrawn]⟩
  rw [htables]
  exact commitPolicy_ok hcommit

omit [Scalar F] in
theorem getMemory_state {id : MemoryId} {w w' : World F} {node : MemoryNode F}
    (h : getMemory id w = (Except.ok node, w')) : w' = w := by
  unfold getMemory at h
  split at h
  · cases h
  · cases h
    rfl

theorem draftCorrection_ok {request : CorrectionRequest} {applied : Bool} {w w' : World F}
    {d : PlanDraft × Timestamp}
    (h : draftCorrection env request applied w = (Except.ok d, w')) :
    d.1 = correctionDraft request (buildCorrectionPlan w.tables request) d.2 applied ∧
      w'.tables = w.tables := by
  rcases Prog.bind_ok h with ⟨node, mid, hget, hrest⟩
  rw [getMemory_state hget] at hrest
  rcases Prog.bind_ok hrest with ⟨affected, _, hread, hrest⟩
  cases hread
  rcases Prog.bind_ok hrest with ⟨now, _, htime, hpair⟩
  cases htime
  cases hpair
  exact ⟨rfl, rfl⟩

theorem draftEnrichment_ok {request : EnrichmentRequest F} {applied : Bool} {w w' : World F}
    {d : PlanDraft × Timestamp}
    (h : draftEnrichment env jenv request applied w = (Except.ok d, w')) :
    d.1 = enrichmentDraft jenv request d.2 applied ∧ w'.tables = w.tables := by
  rcases Prog.bind_ok h with ⟨source, mid, hget, hrest⟩
  rw [getMemory_state hget] at hrest
  rcases Prog.bind_ok hrest with ⟨target, mid', hget', hrest⟩
  rw [getMemory_state hget'] at hrest
  rcases Prog.bind_ok hrest with ⟨now, _, htime, hpair⟩
  cases htime
  cases hpair
  exact ⟨rfl, rfl⟩

/-- What was prepared is about the given rows and touches no others. -/
structure About (t : Tables F) (affected : PolicyAffected)
    (listed : List (String × Option String)) (p : PreparedPolicy F) : Prop where
  affected : p.draft.affected = affected
  targets : p.draft.actions.map ActionDraft.target = listed
  foretold : forall t', p.effect t = Except.ok t' -> Foretold listed t t'

omit [Scalar F] in
theorem mem_correctionTargets {request : CorrectionRequest} {affected : PolicyAffected}
    {x : String × Option String}
    (h : x ∈ memoryTargets affected ++ rowTargets "claim" affected.claimIds ++
      rowTargets "relationship" affected.relationshipIds) :
    x ∈ correctionTargets request affected := by
  unfold correctionTargets
  dsimp only
  split
  · rename_i hempty
    rw [List.isEmpty_iff.mp hempty] at h
    cases h
  · exact h

theorem about_prepareCorrection {request : CorrectionRequest} {w mid : World F}
    {p : PreparedPolicy F} (h : prepareCorrection env request w = (Except.ok p, mid)) :
    mid.tables = w.tables ∧
      About w.tables (buildCorrectionPlan w.tables request)
        (correctionTargets request (buildCorrectionPlan w.tables request)) p := by
  rcases Prog.bind_ok h with ⟨d, mid', hdraft, hp⟩
  rcases draftCorrection_ok hdraft with ⟨hd, htables⟩
  cases hp
  refine ⟨htables, by rw [hd]; rfl, ?_, ?_⟩
  · rw [hd]
    exact targets_correctionActions request _ _ true
  · intro t' heffect
    dsimp only at heffect
    rw [hd] at heffect
    have hwithin : Within w.tables (buildCorrectionPlan w.tables request) t' := by
      refine Within.applyCorrectionPolicy ?_ ?_ ?_ w.tables t' (Within.refl _ _) heffect
      · intro q hq
        rcases List.mem_map.mp hq with ⟨id, hid, rfl⟩
        exact hid
      · exact fun c hc => hc
      · exact fun r hr => hr
    apply hwithin.foretold
    · exact fun id hid => mem_correctionTargets (List.mem_append_left _ (List.mem_append_left _
        (List.mem_map_of_mem (f := fun id => ("memory", some (idText id))) hid)))
    · exact fun c hc => mem_correctionTargets (List.mem_append_left _ (List.mem_append_right _
        (List.mem_map_of_mem (f := fun id => ("claim", some id)) hc)))
    · exact fun r hr => mem_correctionTargets (List.mem_append_right _
        (List.mem_map_of_mem (f := fun id => ("relationship", some id)) hr))

def enrichmentTargets (request : EnrichmentRequest F) : List (String × Option String) :=
  [("memory_edge",
    some (idText request.sourceMemoryId ++ "->" ++ idText request.targetMemoryId))]

theorem about_prepareEnrichment {request : EnrichmentRequest F} {w mid : World F}
    {p : PreparedPolicy F} (h : prepareEnrichment env jenv request w = (Except.ok p, mid)) :
    mid.tables = w.tables ∧
      About w.tables (enrichmentAffected request) (enrichmentTargets request) p := by
  rcases Prog.bind_ok h with ⟨d, mid', hdraft, hp⟩
  rcases draftEnrichment_ok hdraft with ⟨hd, htables⟩
  cases hp
  refine ⟨htables, by rw [hd]; rfl, by rw [hd]; rfl, ?_⟩
  intro t' heffect
  have hrun : Tables.applyCorrectionPolicy (enrichmentMutation request d.2) w.tables =
      Except.ok t' := heffect
  have hwithin : Within w.tables PolicyAffected.none t' := by
    refine Within.applyCorrectionPolicy ?_ ?_ ?_ w.tables t' (Within.refl _ _) hrun
    · exact fun q hq => by cases hq
    · exact fun c hc => by cases hc
    · exact fun r hr => by cases hr
  apply hwithin.foretold
  · exact fun id hid => by cases hid
  · exact fun c hc => by cases hc
  · exact fun r hr => by cases hr

theorem about_prepareForget {scope : ForgetScope} {mode : ForgetMode} {w mid : World F}
    {p : PreparedPolicy F} (h : prepareForget env scope mode w = (Except.ok p, mid)) :
    mid.tables = w.tables ∧
      About w.tables (buildForgetPlan w.tables scope)
        (forgetTargets (buildForgetPlan w.tables scope)) p := by
  rcases Prog.bind_ok h with ⟨affected, _, hread, hrest⟩
  cases hread
  rcases Prog.bind_ok hrest with ⟨now, _, htime, hp⟩
  cases htime
  cases hp
  refine ⟨rfl, rfl, targets_forgetDraft _ _ _ _, ?_⟩
  intro t' heffect
  cases mode with
  | hard => exact foretold_hardForgetOn heffect
  | soft =>
      have hwithin : Within w.tables (buildForgetPlan w.tables scope) t' :=
        Within.softForgetOn _ w.tables t' (Within.refl _ _) heffect
      apply hwithin.foretold
      · exact fun id hid => List.mem_append_left _ (List.mem_append_left _
          (List.mem_append_left _
            (List.mem_map_of_mem (f := fun id => ("memory", some (idText id))) hid)))
      · exact fun c hc => List.mem_append_left _ (List.mem_append_left _
          (List.mem_append_right _ (List.mem_map_of_mem (f := fun id => ("claim", some id)) hc)))
      · exact fun r hr => List.mem_append_left _ (List.mem_append_right _
          (List.mem_map_of_mem (f := fun id => ("relationship", some id)) hr))

/-- A preview and what it is the preview of. -/
inductive PreviewedBy (env : Env F) (jenv : JournalEnv F) :
    PolicyCall F -> JournalOp F PolicyPlan -> Prop where
  | correction (request : CorrectionRequest) : PreviewedBy env jenv (PolicyCall.correction request)
      (JournalWorld.previewCorrectionPolicy env jenv request)
  | enrichment (request : EnrichmentRequest F) :
      PreviewedBy env jenv (PolicyCall.enrichment request)
        (JournalWorld.previewEnrichmentPolicy env jenv request)
  | forget (scope : ForgetScope) (mode : ForgetMode) :
      PreviewedBy env jenv (PolicyCall.forget scope mode)
        (JournalWorld.previewForgetPolicy jenv scope mode)

omit [Scalar F] in
/-- A preview reads, draws identifiers and shows the plan it has read. -/
theorem preview_ok {α : Type} {read : Op F α} (draft : α -> PlanDraft) {s s' : JournalWorld F}
    {plan : PolicyPlan}
    (h : (onWorld read >>= fun a => takePlan jenv (draft a)) s = (Except.ok plan, s')) :
    exists a, read s.world = (Except.ok a, s'.world) ∧ plan = (draft a).plan jenv s.drawn := by
  rcases Prog.bind_ok h with ⟨a, mid, hread, htake⟩
  rcases onWorld_ok hread with ⟨ha, _, hdrawn⟩
  cases htake
  exact ⟨a, ha, by rw [hdrawn]⟩

/-- The preview shows the rows that any application to the same tables is about. -/
theorem previewedBy_about {call : PolicyCall F} {preview : JournalOp F PolicyPlan}
    (hof : PreviewedBy env jenv call preview) {s s1 : JournalWorld F} {plan : PolicyPlan}
    (h : preview s = (Except.ok plan, s1)) {w mid : World F} {p : PreparedPolicy F}
    (hw : w.tables = s.world.tables) (hprepare : call.prepare env jenv w = (Except.ok p, mid)) :
    mid.tables = w.tables ∧
      About w.tables plan.affected (plan.actions.map PolicyAction.target) p := by
  cases hof with
  | correction request =>
      rcases preview_ok (fun d : PlanDraft × Timestamp => d.1) h with ⟨d, hdraft, rfl⟩
      rw [targets_plan, (draftCorrection_ok hdraft).1]
      show _ ∧ About w.tables (buildCorrectionPlan s.world.tables request)
        ((correctionActions _ _ _ _).map ActionDraft.target) p
      rw [targets_correctionActions, ← hw]
      exact about_prepareCorrection hprepare
  | enrichment request =>
      rcases preview_ok (fun d : PlanDraft × Timestamp => d.1) h with ⟨d, hdraft, rfl⟩
      rw [targets_plan, (draftEnrichment_ok hdraft).1]
      exact about_prepareEnrichment hprepare
  | forget scope mode =>
      rcases preview_ok (fun d : PlanDraft => d) h with ⟨d, hdraft, rfl⟩
      have hread : draftForget scope mode s.world =
          (Except.ok (forgetDraft scope mode (buildForgetPlan s.world.tables scope) none),
            s.world) := rfl
      rw [hread] at hdraft
      injection hdraft with hd _
      injection hd with hd
      rw [← hd, targets_plan, targets_forgetDraft, ← hw]
      exact about_prepareForget hprepare

/-- The rows, the graph and the journal are those of the given state. -/
structure LeftAlone (s0 s : JournalWorld F) : Prop where
  tables : s.world.tables = s0.world.tables
  graph : s.world.graph = s0.world.graph
  journal : s.journal = s0.journal

omit [Scalar F] in
theorem keeps_leftAlone_preview {α : Type} {read : Op F α} (draft : α -> PlanDraft)
    (hread : forall t g, Prog.Keeps (fun w => w.tables = t ∧ w.graph = g) read)
    (s0 : JournalWorld F) :
    Prog.Keeps (LeftAlone s0) (onWorld read >>= fun a => takePlan jenv (draft a)) := by
  refine Prog.Keeps.bind (Prog.triple_of_states ?_) (fun a s hs => ⟨hs.1, hs.2, hs.3⟩)
  intro s hs
  have hworld := (hread s0.world.tables s0.world.graph).state (s := s.world) ⟨hs.1, hs.2⟩
  exact ⟨hworld.1, hworld.2, hs.3⟩

section Reading

variable {t : Tables F} {g : CsrGraph F}

omit [Scalar F] in
theorem keeps_rows_getMemory (id : MemoryId) :
    Prog.Keeps (fun w => w.tables = t ∧ w.graph = g) (getMemory (F := F) id) := by
  apply Prog.triple_of_states
  intro w hw
  unfold getMemory
  split
  · exact hw
  · exact hw

theorem keeps_rows_draftCorrection (request : CorrectionRequest) (applied : Bool) :
    Prog.Keeps (fun w => w.tables = t ∧ w.graph = g) (draftCorrection env request applied) :=
  (keeps_rows_getMemory _).bind (fun _ => (Prog.keeps_gets _).bind
    (fun _ => (keeps_currentTimeUs (fun _ _ _ hw => hw)).bind (fun _ => Prog.keeps_pure _)))

theorem keeps_rows_draftEnrichment (request : EnrichmentRequest F) (applied : Bool) :
    Prog.Keeps (fun w => w.tables = t ∧ w.graph = g)
      (draftEnrichment env jenv request applied) :=
  (keeps_rows_getMemory _).bind (fun _ => (keeps_rows_getMemory _).bind
    (fun _ => (keeps_currentTimeUs (fun _ _ _ hw => hw)).bind (fun _ => Prog.keeps_pure _)))

end Reading

theorem previewedBy_leftAlone {call : PolicyCall F} {preview : JournalOp F PolicyPlan}
    (hof : PreviewedBy env jenv call preview) (s : JournalWorld F) :
    LeftAlone s (preview s).2 := by
  have hsame : LeftAlone s s := ⟨rfl, rfl, rfl⟩
  cases hof with
  | correction request =>
      exact (keeps_leftAlone_preview Prod.fst
        (fun _ _ => keeps_rows_draftCorrection request false) s).state hsame
  | enrichment request =>
      exact (keeps_leftAlone_preview Prod.fst
        (fun _ _ => keeps_rows_draftEnrichment request false) s).state hsame
  | forget scope mode =>
      exact (keeps_leftAlone_preview (fun d => d)
        (fun _ _ => (Prog.keeps_gets _).bind (fun _ => Prog.keeps_pure _)) s).state hsame

/-- A preview, even one that fails, changes neither the tables, the graph nor the journal.
Whenever the policy then succeeds on the tables the preview was made for, it reports what the
preview said, commits actions on the listed rows in the listed order, and changes only rows the
preview listed. -/
theorem preview_foretells {call : PolicyCall F} {preview : JournalOp F PolicyPlan}
    (hof : PreviewedBy env jenv call preview) (s : JournalWorld F) :
    (preview s).2.world.tables = s.world.tables ∧ (preview s).2.world.graph = s.world.graph ∧
      (preview s).2.journal = s.journal ∧
      forall plan s2 s3 report, (preview s).1 = Except.ok plan ->
        s2.world.tables = s.world.tables ->
        call.perform env jenv s2 = (Except.ok report, s3) ->
        report.affected = plan.affected ∧ report.actions = plan.actions.length ∧
          (forall c, c ∈ s2.committed env jenv call ->
            c.plan.actions.map PolicyAction.target = plan.actions.map PolicyAction.target) ∧
          Foretold (plan.actions.map PolicyAction.target) s2.world.tables s3.world.tables := by
  have hleft := previewedBy_leftAlone hof s
  refine ⟨hleft.tables, hleft.graph, hleft.journal, ?_⟩
  intro plan s2 s3 report hplan hsame hperform
  have happly := hperform
  rw [call.perform_eq env jenv] at happly
  rcases applyPrepared_ok happly with ⟨p, mid, hprepare, heffect, hreport⟩
  rcases previewedBy_about hof (Prod.ext hplan rfl) hsame hprepare with ⟨hmid, hp⟩
  rw [hmid] at heffect
  refine ⟨?_, ?_, ?_, hp.foretold _ heffect⟩
  · rw [hreport]
    exact hp.affected
  · rw [hreport]
    show (p.draft.plan jenv s2.drawn).actions.length = _
    rw [length_plan, ← List.length_map ActionDraft.target, hp.targets, List.length_map]
  · intro c hc
    change c ∈ commitOf jenv s2.drawn (call.prepare env jenv s2.world).1
      (call.perform env jenv s2).1 at hc
    rw [hprepare, hperform] at hc
    rw [List.mem_singleton.mp hc]
    exact (targets_plan jenv p.draft s2.drawn).trans hp.targets

end Applying

/-!
### Forgetting a memory
-/

def PlanDraft.documents (d : PlanDraft) : List (List (String × Json)) :=
  [d.scope, d.result] ++ d.actions.flatMap (fun a => [a.before, a.after])

/-- Reads back the given documents; of any other object it only says that it is one. -/
def documentsJson (documents : List (List (String × Json))) : JsonOps where
  parse s :=
    match documents.find? (fun d => printJson (Json.object d) == s) with
    | some d => Except.ok (Json.object d)
    | none =>
        if s.toList.head? = some '\x7b' then Except.ok (Json.object [])
        else Except.error "expected value"
  print := printJson

def forgetSeven : PlanDraft :=
  forgetDraft (ForgetScope.memory ⟨7⟩) ForgetMode.soft
    { PolicyAffected.none with memoryIds := [⟨7⟩] } (some 1)

def trailEnv : JournalEnv Rat where
  json := documentsJson (forgetSeven.documents ++ (globalDraft "decay" 1 [] []).documents)
  newId n := unaryId (n + 1)
  createdAt n := UInt64.ofNat n
  decimal x := toString x.num ++ "/" ++ toString x.den

def adaUntrailed : JournalWorld Rat where
  world := adaStored
  journal := Journal.empty
  drawn := 0

def forgetAdaPlan : PolicyPlan :=
  (forgetDraft (ForgetScope.memory adaMemory.id) ForgetMode.hard
    (buildForgetPlan adaStored.tables (ForgetScope.memory adaMemory.id)) none).plan trailEnv 0

theorem preview_foretells_ada :
    exists report s3,
      (PolicyCall.forget (ForgetScope.memory adaMemory.id) ForgetMode.hard).perform linkingEnv
        trailEnv adaUntrailed = (Except.ok report, s3) ∧
      report.affected = forgetAdaPlan.affected ∧
      Foretold (forgetAdaPlan.actions.map PolicyAction.target) adaStored.tables
        s3.world.tables := by
  have hok : ((PolicyCall.forget (ForgetScope.memory adaMemory.id) ForgetMode.hard).perform
      linkingEnv trailEnv adaUntrailed).1.isOk = true := by decide +kernel
  rcases hperform : (PolicyCall.forget (ForgetScope.memory adaMemory.id) ForgetMode.hard).perform
      linkingEnv trailEnv adaUntrailed with ⟨outcome, s3⟩
  rw [hperform] at hok
  cases outcome with
  | error e => cases hok
  | ok report =>
      have hof : PreviewedBy linkingEnv trailEnv
          (PolicyCall.forget (ForgetScope.memory adaMemory.id) ForgetMode.hard) _ :=
        PreviewedBy.forget (ForgetScope.memory adaMemory.id) ForgetMode.hard
      rcases preview_foretells hof adaUntrailed with ⟨_, _, _, hforetells⟩
      rcases hforetells forgetAdaPlan adaUntrailed s3 report rfl rfl hperform with
        ⟨haffected, _, _, hforetold⟩
      exact ⟨report, s3, rfl, haffected, hforetold⟩

end Facade
end MenteDb
