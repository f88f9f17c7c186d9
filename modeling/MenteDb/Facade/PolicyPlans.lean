import MenteDb.Facade.PolicyJournal
import MenteDb.Sqlite.Encoding

/-!
# Plans of policies

A plan says what a policy is about: its run and one action for each row it is going to touch.
The same plan is built for a preview and for the application, which differ in how the run and
the actions are marked.  A preview stops there; an application commits the plan, its lifecycle
events and its effect in one transaction.

The identifier of a row and the time it is created are drawn together from a supply.
-/

namespace MenteDb
namespace Facade

open Foundation
open Sqlite
open MenteDb.Graph
open Cognitive
open Consolidation

variable {F : Type}

/-- What the rows of the journal are made with. -/
structure JournalEnv (F : Type) where
  json : JsonOps
  newId : Nat -> String
  createdAt : Nat -> Timestamp
  /-- A salience as a number of a JSON document. -/
  decimal : F -> String

/-- The database with its journal, and how many identifiers have been drawn. -/
structure JournalWorld (F : Type) where
  world : World F
  journal : Journal
  drawn : Nat

abbrev JournalOp (F α : Type) := Prog (JournalWorld F) MenteError α

/-!
## Rows
-/

section Rows

variable (jenv : JournalEnv F)

/-- A document built of named members. -/
def printObject (members : List (String × Json)) : String := jenv.json.print (Json.object members)

def optionalString (value : Option String) : Json :=
  match value with
  | some s => Json.string s
  | none => Json.null

def timestampJson (at_ : Timestamp) : Json := Json.ofNat at_.toNat

def idsJson (ids : List MemoryId) : Json := Json.strings (ids.map idText)

def affectedJson (affected : PolicyAffected) : List (String × Json) :=
  [("memory_ids", idsJson affected.memoryIds),
    ("claim_ids", Json.strings affected.claimIds),
    ("relationship_ids", Json.strings affected.relationshipIds),
    ("entity_ids", Json.strings affected.entityIds)]

/-- A planned run, or one that has been applied at the given time. -/
def policyRun (n : Nat) (policyName mode : String) (scope result : List (String × Json))
    (appliedAt : Option Timestamp) : PolicyRun where
  runId := jenv.newId n
  policyName := policyName
  policyVersion := "v1"
  mode := mode
  status := if appliedAt.isSome then "applied" else "planned"
  scopeJson := printObject jenv scope
  resultJson := printObject jenv result
  startedAt := jenv.createdAt n
  completedAt := appliedAt

/-- An action but for the number its identifier is drawn with. -/
structure ActionDraft where
  actionType : String
  targetType : String
  targetId : Option String
  before : List (String × Json)
  after : List (String × Json)

def policyAction (n : Nat) (runId : String) (draft : ActionDraft) (applied : Bool) :
    PolicyAction where
  actionId := jenv.newId n
  runId := runId
  actionType := draft.actionType
  targetType := draft.targetType
  targetId := draft.targetId
  beforeJson := printObject jenv draft.before
  afterJson := printObject jenv draft.after
  status := if applied then "applied" else "planned"
  createdAt := jenv.createdAt n

structure EventDraft where
  memoryId : MemoryId
  eventType : String
  reason : String
  policy : String
  payload : List (String × Json)

def lifecycleEvent (n : Nat) (draft : EventDraft) : LifecycleEvent where
  eventId := jenv.newId n
  memoryId := draft.memoryId
  eventType := draft.eventType
  reason := some draft.reason
  policy := some draft.policy
  payloadJson := printObject jenv draft.payload
  createdAt := jenv.createdAt n

end Rows

/-- What a plan is made of before its identifiers are drawn. -/
structure PlanDraft where
  policyName : String
  mode : String
  scope : List (String × Json)
  result : List (String × Json)
  appliedAt : Option Timestamp
  actions : List ActionDraft
  affected : PolicyAffected

/-- The run takes the first identifier and the actions the next ones. -/
def PlanDraft.plan (jenv : JournalEnv F) (d : PlanDraft) (n : Nat) : PolicyPlan where
  run := policyRun jenv n d.policyName d.mode d.scope d.result d.appliedAt
  actions := d.actions.mapIdx (fun i draft =>
    policyAction jenv (n + 1 + i) (jenv.newId n) draft d.appliedAt.isSome)
  affected := d.affected

def PlanDraft.size (d : PlanDraft) : Nat := d.actions.length + 1

/-!
## Corrections
-/

/-- The prefix of what a preview says it would do. -/
def wouldBe (applied : Bool) (action : String) : String :=
  if applied then action else "would_" ++ action

def correctionActions (request : CorrectionRequest) (affected : PolicyAffected) (now : Timestamp)
    (applied : Bool) : List ActionDraft :=
  let corrected := [("status", Json.string "corrected"), ("valid_until", timestampJson now)]
  let actions :=
    affected.memoryIds.map (fun id =>
      { actionType := wouldBe applied "invalidate_memory"
        targetType := "memory"
        targetId := some (idText id)
        before := []
        after := [("valid_until", timestampJson now)] }) ++
    affected.claimIds.map (fun id =>
      { actionType := wouldBe applied "correct_claim"
        targetType := "claim"
        targetId := some id
        before := [("status", Json.string "active")]
        after := corrected }) ++
    affected.relationshipIds.map (fun id =>
      { actionType := wouldBe applied "correct_relationship"
        targetType := "relationship"
        targetId := some id
        before := [("status", Json.string "active")]
        after := corrected })
  if actions.isEmpty then
    [{ actionType := "no_correction_candidates"
       targetType := "memory"
       targetId := some (idText request.newMemoryId)
       before := []
       after := [] }]
  else actions

def correctionDraft (request : CorrectionRequest) (affected : PolicyAffected) (now : Timestamp)
    (applied : Bool) : PlanDraft where
  policyName := "correction"
  mode := if applied then "apply" else "preview"
  scope :=
    [("new_memory_id", Json.string (idText request.newMemoryId)),
      ("old_memory_id", optionalString (request.oldMemoryId.map idText)),
      ("reason", optionalString request.reason)]
  result := affectedJson affected
  appliedAt := if applied then some now else none
  actions := correctionActions request affected now applied
  affected := affected

def correctionEvents (request : CorrectionRequest) (affected : PolicyAffected) (now : Timestamp)
    (runId : String) : List EventDraft :=
  affected.memoryIds.map (fun id =>
    { memoryId := id
      eventType := "corrected"
      reason := "correction_policy_applied"
      policy := "correction"
      payload :=
        [("run_id", Json.string runId),
          ("corrected_by", Json.string (idText request.newMemoryId)),
          ("valid_until", timestampJson now)] }) ++
  [{ memoryId := request.newMemoryId
     eventType := "correction_applied"
     reason := "correction_policy_applied"
     policy := "correction"
     payload :=
       [("run_id", Json.string runId),
         ("corrected_memory_count", Json.ofNat affected.memoryIds.length),
         ("corrected_claim_count", Json.ofNat affected.claimIds.length),
         ("corrected_relationship_count", Json.ofNat affected.relationshipIds.length)] }]

/-!
## Enrichments
-/

section Enrichments

variable [Scalar F]

def enrichmentAffected (request : EnrichmentRequest F) : PolicyAffected :=
  { PolicyAffected.none with memoryIds := [request.sourceMemoryId, request.targetMemoryId] }

def enrichmentDraft (jenv : JournalEnv F) (request : EnrichmentRequest F) (now : Timestamp)
    (applied : Bool) : PlanDraft where
  policyName := "enrichment"
  mode := if applied then "apply" else "preview"
  scope :=
    [("source_memory_id", Json.string (idText request.sourceMemoryId)),
      ("target_memory_id", Json.string (idText request.targetMemoryId)),
      ("edge_type", Json.string "Supports"),
      ("reason", optionalString request.reason)]
  result := affectedJson (enrichmentAffected request)
  appliedAt := if applied then some now else none
  actions :=
    [{ actionType := wouldBe applied "link_enrichment"
       targetType := "memory_edge"
       targetId := some
         (idText request.sourceMemoryId ++ "->" ++ idText request.targetMemoryId)
       before := []
       after :=
         [("source_memory_id", Json.string (idText request.sourceMemoryId)),
           ("target_memory_id", Json.string (idText request.targetMemoryId)),
           ("edge_type", Json.string "Supports"),
           ("weight", Json.number (jenv.decimal (clampUnit request.weight)))] }]
  affected := enrichmentAffected request

omit [Scalar F] in
def enrichmentEvents (request : EnrichmentRequest F) (now : Timestamp) (runId : String) :
    List EventDraft :=
  [{ memoryId := request.sourceMemoryId
     eventType := "enriched"
     reason := "enrichment_policy_applied"
     policy := "enrichment"
     payload :=
       [("run_id", Json.string runId),
         ("supports", Json.string (idText request.targetMemoryId)),
         ("applied_at", timestampJson now)] },
    { memoryId := request.targetMemoryId
      eventType := "enriched_by"
      reason := "enrichment_policy_applied"
      policy := "enrichment"
      payload :=
        [("run_id", Json.string runId),
          ("supported_by", Json.string (idText request.sourceMemoryId)),
          ("applied_at", timestampJson now)] }]

end Enrichments

/-!
## Forgets
-/

def ForgetMode.asStr : ForgetMode -> String
  | ForgetMode.soft => "soft"
  | ForgetMode.hard => "hard"

def ForgetScope.toJson : ForgetScope -> Json
  | ForgetScope.memory id =>
      Json.object [("type", Json.string "memory"), ("memory_id", Json.string (idText id))]
  | ForgetScope.entity id =>
      Json.object [("type", Json.string "entity"), ("entity_id", Json.string id)]
  | ForgetScope.byAlias name =>
      Json.object [("type", Json.string "alias"), ("alias", Json.string name)]
  | ForgetScope.conversation id =>
      Json.object [("type", Json.string "conversation"), ("conversation_id", Json.string id)]
  | ForgetScope.tag name => Json.object [("type", Json.string "tag"), ("tag", Json.string name)]

/-- One action for each row of a kind. -/
def forgetActions (kind : String) (mode : ForgetMode) (applied : Bool) (ids : List String) :
    List ActionDraft :=
  ids.map (fun id =>
    { actionType := wouldBe applied "forget" ++ "_" ++ kind
      targetType := kind
      targetId := some id
      before := []
      after := [("mode", Json.string mode.asStr)] })

/-- The time is only read for an application. -/
def forgetDraft (scope : ForgetScope) (mode : ForgetMode) (affected : PolicyAffected)
    (appliedAt : Option Timestamp) : PlanDraft where
  policyName := "forget"
  mode := if appliedAt.isSome then mode.asStr else "preview"
  scope := [("scope", scope.toJson), ("mode", Json.string mode.asStr)]
  result := affectedJson affected
  appliedAt := appliedAt
  actions :=
    forgetActions "memory" mode appliedAt.isSome (affected.memoryIds.map idText) ++
    forgetActions "claim" mode appliedAt.isSome affected.claimIds ++
    forgetActions "relationship" mode appliedAt.isSome affected.relationshipIds ++
    forgetActions "entity" mode appliedAt.isSome affected.entityIds
  affected := affected

def forgetEvents (mode : ForgetMode) (affected : PolicyAffected) (now : Timestamp)
    (runId : String) : List EventDraft :=
  affected.memoryIds.map (fun id =>
    { memoryId := id
      eventType := "forgotten"
      reason := "forget_policy_applied"
      policy := "forget"
      payload :=
        [("run_id", Json.string runId), ("mode", Json.string mode.asStr),
          ("applied_at", timestampJson now)] })

/-!
## Decay and archival
-/

section Maintenance

variable [Scalar F]

/-- The memories a pass changes, before and after. -/
def decayChanges (config : DecayConfig F) (now : Timestamp) (nodes : List (MemoryNode F)) :
    List (MemoryNode F × MemoryNode F) :=
  nodes.filterMap (fun node =>
    let salience := computeDecay config node.salience node.accessedAt node.accessCount now
    if |salience - node.salience| <= ratio 1 1000 then none
    else some (node, { node with salience := salience }))

def archiveChanges (now : Timestamp) (nodes : List (MemoryNode F)) :
    List (MemoryNode F × MemoryNode F) :=
  nodes.filterMap (fun node =>
    if memoryIsArchived node then none
    else
      match evaluate node now with
      | ArchivalDecision.archive | ArchivalDecision.delete =>
          some (node, { node with
            tags := node.tags ++ ["archived"]
            salience := min node.salience (ratio 2 100) })
      | ArchivalDecision.keep | ArchivalDecision.consolidate _ => none)

omit [Scalar F] in
def salienceJson (jenv : JournalEnv F) (node : MemoryNode F) : Json :=
  Json.number (jenv.decimal node.salience)

omit [Scalar F] in
/-- A pass over all memories; what it did to each is up to the pass. -/
def globalDraft (policyName : String) (now : Timestamp) (ids : List MemoryId)
    (actions : List ActionDraft) : PlanDraft where
  policyName := policyName
  mode := "apply"
  scope := [("type", Json.string "global")]
  result := [("memory_count", Json.ofNat ids.length)]
  appliedAt := some now
  actions := actions
  affected := { PolicyAffected.none with memoryIds := ids }

omit [Scalar F] in
def decayActions (jenv : JournalEnv F) (changes : List (MemoryNode F × MemoryNode F)) :
    List ActionDraft :=
  changes.map (fun c =>
    { actionType := "decay_memory"
      targetType := "memory"
      targetId := some (idText c.1.id)
      before := [("salience", salienceJson jenv c.1)]
      after := [("salience", salienceJson jenv c.2)] })

omit [Scalar F] in
def decayEvents (jenv : JournalEnv F) (now : Timestamp)
    (changes : List (MemoryNode F × MemoryNode F)) : List EventDraft :=
  changes.map (fun c =>
    { memoryId := c.1.id
      eventType := "decayed"
      reason := "salience_decay_applied"
      policy := "decay"
      payload :=
        [("previous_salience", salienceJson jenv c.1), ("new_salience", salienceJson jenv c.2),
          ("applied_at", timestampJson now)] })

omit [Scalar F] in
def archiveActions (jenv : JournalEnv F) (changes : List (MemoryNode F × MemoryNode F)) :
    List ActionDraft :=
  changes.map (fun c =>
    { actionType := "archive_memory"
      targetType := "memory"
      targetId := some (idText c.1.id)
      before := [("tags", Json.strings c.1.tags), ("salience", salienceJson jenv c.1)]
      after := [("tags", Json.strings c.2.tags), ("salience", salienceJson jenv c.2)] })

omit [Scalar F] in
def archiveEvents (now : Timestamp) (changes : List (MemoryNode F × MemoryNode F)) :
    List EventDraft :=
  changes.map (fun c =>
    { memoryId := c.1.id
      eventType := "archived"
      reason := "archival_policy_applied"
      policy := "archive"
      payload := [("applied_at", timestampJson now)] })

end Maintenance

/-!
## Operations

Reading what a policy is about leaves the tables alone.  What is read determines the plan, the
events, the effect and the change of the graph that follows it.
-/

structure PreparedPolicy (F : Type) where
  draft : PlanDraft
  events : String -> List EventDraft
  eventsFirst : Bool
  effect : Tx F
  onGraph : CsrGraph F -> CsrGraph F

def onWorld {α : Type} (x : Op F α) : JournalOp F α := fun s =>
  ((x s.world).1, { s with world := (x s.world).2 })

section Operations

variable [Scalar F] (env : Env F) (jenv : JournalEnv F)

/-- The plan of a correction, as a preview shows it or as an application marks it. -/
def draftCorrection (request : CorrectionRequest) (applied : Bool) :
    Op F (PlanDraft × Timestamp) := do
  let _ ← getMemory request.newMemoryId
  let affected ← Prog.gets (fun w => buildCorrectionPlan w.tables request)
  let now ← currentTimeUs env
  pure (correctionDraft request affected now applied, now)

def prepareCorrection (request : CorrectionRequest) : Op F (PreparedPolicy F) := do
  let (draft, now) ← draftCorrection env request true
  pure
    { draft := draft
      events := correctionEvents request draft.affected now
      eventsFirst := false
      effect := Tables.applyCorrectionPolicy (correctionMutation request draft.affected now)
      onGraph := fun graph =>
        (correctionEdges request now).foldl GraphManager.addRelationshipOrSkip graph }

def draftEnrichment (request : EnrichmentRequest F) (applied : Bool) :
    Op F (PlanDraft × Timestamp) := do
  let _ ← getMemory request.sourceMemoryId
  let _ ← getMemory request.targetMemoryId
  let now ← currentTimeUs env
  pure (enrichmentDraft jenv request now applied, now)

def prepareEnrichment (request : EnrichmentRequest F) : Op F (PreparedPolicy F) := do
  let (draft, now) ← draftEnrichment env jenv request true
  pure
    { draft := draft
      events := enrichmentEvents request now
      eventsFirst := false
      effect := Tables.applyCorrectionPolicy (enrichmentMutation request now)
      onGraph := fun graph =>
        [enrichmentEdge request now].foldl GraphManager.addRelationshipOrSkip graph }

omit [Scalar F] in
def draftForget (scope : ForgetScope) (mode : ForgetMode) : Op F PlanDraft := do
  let affected ← Prog.gets (fun w => buildForgetPlan w.tables scope)
  pure (forgetDraft scope mode affected none)

def prepareForget (scope : ForgetScope) (mode : ForgetMode) : Op F (PreparedPolicy F) := do
  let affected ← Prog.gets (fun w => buildForgetPlan w.tables scope)
  let now ← currentTimeUs env
  pure
    { draft := forgetDraft scope mode affected (some now)
      events := forgetEvents mode affected now
      eventsFirst := true
      effect := Tables.applyForgetPolicy (forgetMutation affected mode now)
      onGraph := fun graph =>
        (if mode = ForgetMode.hard then affected.memoryIds else []).foldl
          GraphManager.removeMemory graph }

def prepareDecay : Op F (PreparedPolicy F) := do
  let now ← currentTimeUs env
  let nodes ← Prog.gets (fun w => w.tables.allMemories)
  let dim ← Prog.gets World.embeddingDim
  let changes := decayChanges env.config.decayConfig now nodes
  pure
    { draft := globalDraft "decay" now (changes.map (fun c => c.2.id)) (decayActions jenv changes)
      events := fun _ => decayEvents jenv now changes
      eventsFirst := false
      effect := Tables.applyLifecyclePolicy dim (changes.map Prod.snd)
      onGraph := id }

def prepareArchive : Op F (PreparedPolicy F) := do
  let now ← currentTimeUs env
  let nodes ← Prog.gets (fun w => w.tables.allMemories)
  let dim ← Prog.gets World.embeddingDim
  let changes := archiveChanges now nodes
  pure
    { draft := globalDraft "archive" now (changes.map (fun c => c.2.id))
        (archiveActions jenv changes)
      events := fun _ => archiveEvents now changes
      eventsFirst := false
      effect := Tables.applyLifecyclePolicy dim (changes.map Prod.snd)
      onGraph := id }

end Operations

structure PolicyReport where
  runId : String
  actions : Nat
  affected : PolicyAffected
deriving DecidableEq

def PolicyCommit.report (c : PolicyCommit F) : PolicyReport where
  runId := c.plan.run.runId
  actions := c.plan.actions.length
  affected := c.plan.affected

/-- The commit of what was prepared, with identifiers from the given number on. -/
def PreparedPolicy.commit (jenv : JournalEnv F) (p : PreparedPolicy F) (n : Nat) :
    PolicyCommit F where
  plan := p.draft.plan jenv n
  events := (p.events (jenv.newId n)).mapIdx (fun i draft =>
    lifecycleEvent jenv (n + p.draft.size + i) draft)
  eventsFirst := p.eventsFirst
  effect := p.effect

/-- Draws the identifiers of a plan. -/
def takePlan (jenv : JournalEnv F) (d : PlanDraft) : JournalOp F PolicyPlan := fun s =>
  (Except.ok (d.plan jenv s.drawn), { s with drawn := s.drawn + d.size })

/-- Draws the identifiers of a plan and of its events. -/
def takeCommit (jenv : JournalEnv F) (p : PreparedPolicy F) :
    JournalOp F (PolicyCommit F) := fun s =>
  let c := p.commit jenv s.drawn
  (Except.ok c, { s with drawn := s.drawn + p.draft.size + c.events.length })

/-- The transaction of a policy either fails and changes nothing or commits. -/
def commitPolicy (env : Env F) (jenv : JournalEnv F) (c : PolicyCommit F) : JournalOp F Unit :=
  fun s =>
    match env.fault s.world.ticks with
    | some e => (Except.error e, { s with world := { s.world with ticks := s.world.ticks + 1 } })
    | none =>
        match c.transaction jenv.json (s.world.tables, s.journal) with
        | Except.error e =>
            (Except.error e, { s with world := { s.world with ticks := s.world.ticks + 1 } })
        | Except.ok (t, j) =>
            (Except.ok (), { s with
              world := { s.world with tables := t, ticks := s.world.ticks + 1 }
              journal := j })

def applyPrepared (env : Env F) (jenv : JournalEnv F) (prepare : Op F (PreparedPolicy F)) :
    JournalOp F PolicyReport := do
  let p ← onWorld prepare
  let c ← takeCommit jenv p
  commitPolicy env jenv c
  onWorld (Prog.modify (fun w => { w with graph := p.onGraph w.graph }))
  pure c.report

namespace JournalWorld

section Interface

variable [Scalar F] (env : Env F) (jenv : JournalEnv F)

def previewCorrectionPolicy (request : CorrectionRequest) : JournalOp F PolicyPlan := do
  let drafted ← onWorld (draftCorrection env request false)
  takePlan jenv drafted.1

def applyCorrectionPolicy (request : CorrectionRequest) : JournalOp F PolicyReport :=
  applyPrepared env jenv (prepareCorrection env request)

def previewEnrichmentPolicy (request : EnrichmentRequest F) : JournalOp F PolicyPlan := do
  let drafted ← onWorld (draftEnrichment env jenv request false)
  takePlan jenv drafted.1

def applyEnrichmentPolicy (request : EnrichmentRequest F) : JournalOp F PolicyReport :=
  applyPrepared env jenv (prepareEnrichment env jenv request)

def previewForgetPolicy (scope : ForgetScope) (mode : ForgetMode) : JournalOp F PolicyPlan := do
  let draft ← onWorld (draftForget scope mode)
  takePlan jenv draft

def applyForgetPolicy (scope : ForgetScope) (mode : ForgetMode) : JournalOp F PolicyReport :=
  applyPrepared env jenv (prepareForget env scope mode)

def applyDecayPolicyGlobal : JournalOp F PolicyReport :=
  applyPrepared env jenv (prepareDecay env jenv)

def applyArchivePolicyGlobal : JournalOp F PolicyReport :=
  applyPrepared env jenv (prepareArchive env jenv)

end Interface

end JournalWorld

end Facade
end MenteDb
