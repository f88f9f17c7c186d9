import MenteDb.Facade.ExtractionJobs
import MenteDb.Facade.Policies

/-!
# The journal of policies

A policy is recorded in the transaction that applies it: one row for the run, one for each of
its actions, and lifecycle events for the memories it is about.  The rows are checked before
they are written.  A run or an action that is written again keeps when it was first written;
an event is only written once.
-/

namespace MenteDb
namespace Facade

open Foundation
open Sqlite
open Cognitive

variable {F : Type}

/-- A row of {lit}`policy_runs`. -/
structure PolicyRun where
  runId : String
  policyName : String
  policyVersion : String
  mode : String
  status : String
  scopeJson : String
  resultJson : String
  startedAt : Timestamp
  completedAt : Option Timestamp
deriving DecidableEq

/-- A row of {lit}`policy_actions`. -/
structure PolicyAction where
  actionId : String
  runId : String
  actionType : String
  targetType : String
  targetId : Option String
  beforeJson : String
  afterJson : String
  status : String
  createdAt : Timestamp
deriving DecidableEq

/-- A row of {lit}`memory_lifecycle_events`. -/
structure LifecycleEvent where
  eventId : String
  memoryId : MemoryId
  eventType : String
  reason : Option String
  policy : Option String
  payloadJson : String
  createdAt : Timestamp
deriving DecidableEq

structure Journal where
  runs : Assoc String PolicyRun
  actions : Assoc String PolicyAction
  events : Assoc String LifecycleEvent

/-- A transaction over the tables and their journal. -/
abbrev JournalTx (F : Type) := Atomic (Tables F × Journal) MenteError

/-- {lit}`trim().is_empty()`. -/
def isBlank (s : String) : Bool := s.toList.all isWhitespace

namespace Journal

def empty : Journal where
  runs := Assoc.empty
  actions := Assoc.empty
  events := Assoc.empty

/-!
## Checks
-/

section Statements

variable (json : JsonOps)

def validateJsonObject (value field : String) : Check :=
  match json.parse value with
  | Except.error err =>
      Except.error (MenteError.invalidInput (field ++ " must be valid JSON: " ++ err))
  | Except.ok (Json.object _) => Except.ok ()
  | Except.ok _ => Except.error (MenteError.invalidInput (field ++ " must be a JSON object"))

def validatePolicyRun (run : PolicyRun) : Check := do
  if isBlank run.runId || isBlank run.policyName || isBlank run.policyVersion || isBlank run.mode
      || isBlank run.status then
    Except.error (MenteError.invalidInput "policy run identity fields cannot be empty")
  validateJsonObject json run.scopeJson "policy run scope_json"
  validateJsonObject json run.resultJson "policy run result_json"

def validatePolicyAction (action : PolicyAction) : Check := do
  if isBlank action.actionId || isBlank action.runId || isBlank action.actionType
      || isBlank action.targetType || isBlank action.status then
    Except.error (MenteError.invalidInput "policy action identity fields cannot be empty")
  validateJsonObject json action.beforeJson "policy action before_json"
  validateJsonObject json action.afterJson "policy action after_json"

def validateLifecycleEvent (event : LifecycleEvent) : Check := do
  if isBlank event.eventId then
    Except.error (MenteError.invalidInput "lifecycle event_id cannot be empty")
  if isBlank event.eventType then
    Except.error (MenteError.invalidInput "lifecycle event_type cannot be empty")
  validateJsonObject json event.payloadJson "lifecycle payload_json"

/-!
## Statements
-/

def upsertPolicyRunOn (run : PolicyRun) : Atomic Journal MenteError := fun j =>
  match validatePolicyRun json run with
  | Except.error e => Except.error e
  | Except.ok _ =>
      Except.ok { j with
        runs := j.runs.upsert run.runId (fun old =>
          match old with
          | none => run
          | some row => { run with startedAt := row.startedAt }) }

/-- An action that is new needs its run. -/
def insertPolicyActionOn (action : PolicyAction) : Atomic Journal MenteError := fun j =>
  match validatePolicyAction json action with
  | Except.error e => Except.error e
  | Except.ok _ =>
      if j.actions.contains action.actionId || j.runs.contains action.runId then
        Except.ok { j with
          actions := j.actions.upsert action.actionId (fun old =>
            match old with
            | none => action
            | some row => { action with runId := row.runId, createdAt := row.createdAt }) }
      else Except.error (MenteError.storage "FOREIGN KEY constraint failed")

def insertMemoryLifecycleEventOn (event : LifecycleEvent) : Atomic Journal MenteError := fun j =>
  match validateLifecycleEvent json event with
  | Except.error e => Except.error e
  | Except.ok _ =>
      if j.events.contains event.eventId then
        Except.error (MenteError.storage
          "UNIQUE constraint failed: memory_lifecycle_events.event_id")
      else Except.ok { j with events := j.events.insert event.eventId event }

end Statements

end Journal

/-!
## The transaction of a policy
-/

structure PolicyPlan where
  run : PolicyRun
  actions : List PolicyAction
  affected : PolicyAffected

/-- What a policy commits.  A forget records its events before it takes effect, since they are
about memories it may delete; the others record them afterwards. -/
structure PolicyCommit (F : Type) where
  plan : PolicyPlan
  events : List LifecycleEvent
  eventsFirst : Bool
  effect : Tx F

def onTables (tx : Tx F) : JournalTx F := fun s =>
  match tx s.1 with
  | Except.error e => Except.error e
  | Except.ok t => Except.ok (t, s.2)

def onJournal (f : Atomic Journal MenteError) : JournalTx F := fun s =>
  match f s.2 with
  | Except.error e => Except.error e
  | Except.ok j => Except.ok (s.1, j)

namespace PolicyCommit

def recordPlan (json : JsonOps) (c : PolicyCommit F) : Atomic Journal MenteError :=
  Atomic.andThen (Journal.upsertPolicyRunOn json c.plan.run)
    (Atomic.forEach c.plan.actions (Journal.insertPolicyActionOn json))

def recordEvents (json : JsonOps) (c : PolicyCommit F) : Atomic Journal MenteError :=
  Atomic.forEach c.events (Journal.insertMemoryLifecycleEventOn json)

def transaction (json : JsonOps) (c : PolicyCommit F) : JournalTx F :=
  Atomic.andThen (onJournal (c.recordPlan json))
    (if c.eventsFirst then
      Atomic.andThen (onJournal (c.recordEvents json)) (onTables c.effect)
    else Atomic.andThen (onTables c.effect) (onJournal (c.recordEvents json)))

end PolicyCommit

end Facade
end MenteDb
