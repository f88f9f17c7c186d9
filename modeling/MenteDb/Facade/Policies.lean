import MenteDb.Facade.Write
import MenteDb.Facade.ForgetScope

/-!
# Policies and maintenance

Corrections, enrichments and forgets resolve what they affect by reading, commit
one transaction and then adjust the graph.  Maintenance passes load memories,
compute outside any transaction and write the loaded copies back.
-/

namespace MenteDb
namespace Facade

open Foundation
open Sqlite
open MenteDb.Graph
open Cognitive
open Consolidation

variable {F : Type}

structure CorrectionRequest where
  newMemoryId : MemoryId
  oldMemoryId : Option MemoryId
  claimIds : List String
  relationshipIds : List String
  reason : Option String

structure EnrichmentRequest (F : Type) where
  sourceMemoryId : MemoryId
  targetMemoryId : MemoryId
  reason : Option String
  weight : F

inductive ForgetMode where
  | soft
  | hard
deriving DecidableEq

/-!
## Corrections
-/

section Corrections

variable [Scalar F]

def sortedStrings (values : List String) : List String :=
  values.dedup.insertionSort (fun a b => a <= b)

/-- Active claims of the entities of a memory without evidence in that memory. -/
def correctionClaimCandidates (t : Tables F) (newMemoryId : MemoryId) : List String :=
  (t.memoryEntityLinks newMemoryId).flatMap (fun link =>
    ((t.claimsForEntity link.1.2.1).filter (fun claim =>
      decide (claim.2.status = "active")
        && !(t.claimEvidenceFor claim.1).any (fun ev => decide (ev.2.memoryId = newMemoryId)))).map
      Prod.fst)

/-- Active relationships of the entities of a memory without evidence in that memory. -/
def correctionRelationshipCandidates (t : Tables F) (newMemoryId : MemoryId) : List String :=
  (t.memoryEntityLinks newMemoryId).flatMap (fun link =>
    ((t.relationshipsForEntity link.1.2.1).filter (fun relationship =>
      decide (relationship.2.status = "active")
        && !(t.relationshipEvidenceFor relationship.1).any
          (fun ev => decide (ev.2.memoryId = newMemoryId)))).map Prod.fst)

omit [Scalar F] in
/-- The claims asked for and the active ones with evidence in the old memory. -/
def requestedClaims (t : Tables F) (request : CorrectionRequest) : List String :=
  request.claimIds ++ request.oldMemoryId.toList.flatMap (fun old =>
    ((t.claimsForMemory old).filter (fun c => decide (c.2.status = "active"))).map Prod.fst)

omit [Scalar F] in
/-- The relationships asked for and the active ones with evidence in the old memory. -/
def requestedRelationships (t : Tables F) (request : CorrectionRequest) : List String :=
  request.relationshipIds ++ request.oldMemoryId.toList.flatMap (fun old =>
    ((t.relationshipsForMemory old).filter (fun r => decide (r.2.status = "active"))).map Prod.fst)

/-- Candidates are only looked for when nothing was named. -/
def buildCorrectionPlan (t : Tables F) (request : CorrectionRequest) : PolicyAffected :=
  let claims := requestedClaims t request
  let relationships := requestedRelationships t request
  let unnamed := claims.isEmpty && relationships.isEmpty
  { memoryIds := request.oldMemoryId.toList
    claimIds := sortedStrings
      (if unnamed then correctionClaimCandidates t request.newMemoryId else claims)
    relationshipIds := sortedStrings
      (if unnamed then correctionRelationshipCandidates t request.newMemoryId else relationships)
    entityIds := [] }

def correctionEdges (request : CorrectionRequest) (now : Timestamp) : List (MemoryEdge F) :=
  request.oldMemoryId.toList.map (fun old =>
    inferredEdge now request.newMemoryId old EdgeType.supersedes 1 request.reason)

def correctionMutation (request : CorrectionRequest) (affected : PolicyAffected)
    (now : Timestamp) : CorrectionPolicyMutation F where
  memoryInvalidations := affected.memoryIds.map (fun id => (id, now))
  correctedClaimIds := affected.claimIds
  correctedRelationshipIds := affected.relationshipIds
  edges := correctionEdges request now
  appliedAt := now

/-- Mirror edges into the graph; an edge it refuses is skipped. -/
def mirrorEdges (edges : List (MemoryEdge F)) : Op F Unit :=
  Prog.modify (fun w => { w with graph := edges.foldl GraphManager.addRelationshipOrSkip w.graph })

def applyCorrectionPolicy (env : Env F) (request : CorrectionRequest) : Op F PolicyAffected := do
  let _ ← getMemory request.newMemoryId
  let affected ← Prog.gets (fun w => buildCorrectionPlan w.tables request)
  let now ← currentTimeUs env
  transact env (Tables.applyCorrectionPolicy (correctionMutation request affected now))
  mirrorEdges (correctionEdges request now)
  pure affected

/-!
## Enrichments
-/

def enrichmentEdge (request : EnrichmentRequest F) (now : Timestamp) : MemoryEdge F :=
  inferredEdge now request.sourceMemoryId request.targetMemoryId EdgeType.supports
    (clampUnit request.weight) request.reason

def enrichmentMutation (request : EnrichmentRequest F) (now : Timestamp) :
    CorrectionPolicyMutation F where
  memoryInvalidations := []
  correctedClaimIds := []
  correctedRelationshipIds := []
  edges := [enrichmentEdge request now]
  appliedAt := now

def applyEnrichmentPolicy (env : Env F) (request : EnrichmentRequest F) :
    Op F PolicyAffected := do
  let _ ← getMemory request.sourceMemoryId
  let _ ← getMemory request.targetMemoryId
  let now ← currentTimeUs env
  transact env (Tables.applyCorrectionPolicy (enrichmentMutation request now))
  mirrorEdges [enrichmentEdge request now]
  pure { PolicyAffected.none with
    memoryIds := [request.sourceMemoryId, request.targetMemoryId] }

end Corrections

/-!
## Forgets
-/

section Forgets

variable [Scalar F]

def forgetMutation (affected : PolicyAffected) (mode : ForgetMode) (now : Timestamp) :
    ForgetPolicyMutation where
  affected := affected
  hardDelete := decide (mode = ForgetMode.hard)
  appliedAt := now

omit [Scalar F] in
/-- Drop memories from the graph. -/
def dropMemories (memoryIds : List MemoryId) : Op F Unit :=
  Prog.modify (fun w => { w with graph := memoryIds.foldl GraphManager.removeMemory w.graph })

def applyForgetPolicy (env : Env F) (scope : ForgetScope) (mode : ForgetMode) :
    Op F PolicyAffected := do
  let affected ← Prog.gets (fun w => buildForgetPlan w.tables scope)
  let now ← currentTimeUs env
  transact env (Tables.applyForgetPolicy (forgetMutation affected mode now))
  dropMemories (if mode = ForgetMode.hard then affected.memoryIds else [])
  pure affected

/-- The state after a forget whose transaction committed the given tables. -/
def forgottenWorld (w : World F) (mode : ForgetMode) (affected : PolicyAffected)
    (t : Tables F) : World F :=
  { w with
    tables := t
    graph := (if mode = ForgetMode.hard then affected.memoryIds else []).foldl
      GraphManager.removeMemory w.graph
    ticks := w.ticks + 2 }

/-- A forget either fails with nothing changed or commits its whole plan. -/
theorem applyForgetPolicy_cases (env : Env F) (scope : ForgetScope) (mode : ForgetMode)
    (w : World F) :
    (exists e, applyForgetPolicy env scope mode w =
      (Except.error e, { w with ticks := w.ticks + 2 })) ∨
    (exists t, Tables.applyForgetPolicy
        (forgetMutation (buildForgetPlan w.tables scope) mode (env.clock w.ticks)) w.tables =
          Except.ok t ∧
      applyForgetPolicy env scope mode w =
        (Except.ok (buildForgetPlan w.tables scope),
          forgottenWorld w mode (buildForgetPlan w.tables scope) t)) := by
  simp only [applyForgetPolicy, bind, Prog.bind, Prog.gets, currentTimeUs, transact]
  cases hfault : env.fault (w.ticks + 1) with
  | some e => exact Or.inl ⟨e, rfl⟩
  | none =>
      cases hrun : Tables.applyForgetPolicy
          (forgetMutation (buildForgetPlan w.tables scope) mode (env.clock w.ticks)) w.tables with
      | error e => exact Or.inl ⟨e, rfl⟩
      | ok t => exact Or.inr ⟨t, rfl, rfl⟩

def forget (env : Env F) (id : MemoryId) : Op F Unit := do
  let _ ← applyForgetPolicy env (ForgetScope.memory id) ForgetMode.hard
  pure ()

end Forgets

/-!
## Maintenance
-/

section Maintenance

variable [Scalar F]

/-- Write a pass's updates in one transaction. -/
def writeLifecycle (env : Env F) (updates : List (MemoryNode F)) : Op F (List MemoryId) := do
  let dim ← Prog.gets World.embeddingDim
  transact env (Tables.applyLifecyclePolicy dim updates)
  pure (updates.map MemoryNode.id)

def applyDecayPolicyGlobal (env : Env F) : Op F (List MemoryId) := do
  let now ← currentTimeUs env
  let nodes ← Prog.gets (fun w => w.tables.allMemories)
  writeLifecycle env (decayUpdates env.config.decayConfig (ratio 1 1000) now nodes)

def applyArchivePolicyGlobal (env : Env F) : Op F (List MemoryId) := do
  let now ← currentTimeUs env
  let nodes ← Prog.gets (fun w => w.tables.allMemories)
  writeLifecycle env (archiveUpdates now nodes)

omit [Scalar F] in
def loadSleepMaintenanceMemories (t : Tables F) (maxMemories : Nat) : List (MemoryNode F) :=
  (orderBy (fun a b => idLe a.id b.id) t.allMemories).take maxMemories

/-- The decay stage of sleep maintenance: one transaction per changed memory. -/
def applySleepDecay (env : Env F) (maxMemories : Nat) (decayWriteEpsilon : F) :
    Op F Unit := do
  let loaded ← Prog.gets (fun w => loadSleepMaintenanceMemories w.tables maxMemories)
  let now ← currentTimeUs env
  Prog.forEach (decayUpdates env.config.decayConfig decayWriteEpsilon now loaded)
    (dbStoreMemory env)

/-- A source of a consolidation is closed and linked; failures are ignored. -/
def retireSource (env : Env F) (consolidatedId : MemoryId) (now : Timestamp)
    (sourceId : MemoryId) : Op F Unit := do
  let _ ← Prog.attempt (invalidateMemory env sourceId now)
  let _ ← Prog.attempt
    (relate env (inferredEdge now consolidatedId sourceId EdgeType.derived 1 none))
  let _ ← Prog.attempt (emitLifecycleEvent env)
  pure ()

/-- The node a cluster is merged into. -/
def consolidatedNode (env : Env F) (cluster : List (MemoryNode F)) (agentId : AgentId)
    (id : MemoryId) (createdAt : Timestamp) : MemoryNode F :=
  let result := consolidate env.text cluster
  { MemoryNode.new id createdAt agentId result.newType result.summary result.combinedEmbedding
    with confidence := result.combinedConfidence }

def consolidateCluster (env : Env F) (memoryIds : List MemoryId) : Op F MemoryId := do
  let cluster ← Prog.gets (fun w => memoryIds.filterMap w.tables.getMemory)
  match cluster with
  | first :: _ :: _ =>
      let id ← Prog.gets (fun w => env.freshMemoryId w.ticks)
      let createdAt ← currentTimeUs env
      store env (consolidatedNode env cluster first.agentId id createdAt)
      emitLifecycleEvent env
      let now ← currentTimeUs env
      Prog.forEach (consolidate env.text cluster).sourceMemories (retireSource env id now)
      pure id
  | _ => Prog.fail (MenteError.query "consolidation requires at least 2 memories")

end Maintenance

/-!
## Closing and opening again
-/

/-- Everything durable is in the tables; the cache comes back from its snapshot. -/
def reopen [Scalar F] (speculative : SpeculativeCache F) : Op F Unit :=
  Prog.modify (fun w =>
    openWithConfig w.tables speculative RetrievalConfig.default w.phantom.config w.ticks)

end Facade
end MenteDb
