import MenteDb.Consolidation.Clusters
import MenteDb.Facade.Turn

/-!
# Maintenance

Three paths look after the stored memories: the passes a conversation triggers
every so many turns, a sleep run over a bounded number of memories, and the
archive policy.  The counters they report are left out.
-/

namespace MenteDb
namespace Facade

open Foundation
open Sqlite
open MenteDb.Graph
open Cognitive
open Consolidation

variable {F : Type} [Scalar F]

/-!
## Archival decisions
-/

def evaluateBatch (memories : List (MemoryNode F)) (now : Timestamp) :
    List (MemoryId × ArchivalDecision) :=
  memories.map (fun m => (m.id, evaluate m now))

/-- Without archival evaluation everything is kept. -/
def evaluateArchivalBatch (env : Env F) (memories : List (MemoryNode F)) :
    Op F (List (MemoryId × ArchivalDecision)) :=
  if env.config.archivalEvaluation then do
    let now ← currentTimeUs env
    pure (evaluateBatch memories now)
  else pure (memories.map (fun m => (m.id, ArchivalDecision.keep)))

def evaluateArchivalGlobal (env : Env F) : Op F (List (MemoryId × ArchivalDecision)) := do
  let now ← currentTimeUs env
  let memories ← Prog.gets (fun w => w.tables.allMemories)
  pure (evaluateBatch memories now)

/-!
## Consolidation
-/

def findConsolidationCandidates (env : Env F) (minClusterSize : Nat) (similarityThreshold : F) :
    Op F (List (ConsolidationCandidate F)) := do
  let now ← currentTimeUs env
  let eligible ← Prog.gets (fun w =>
    w.tables.allMemories.filter (fun node => shouldConsolidate node now))
  if eligible.isEmpty then pure []
  else pure (findCandidates env.hashOrder env.text eligible minClusterSize similarityThreshold)

/-- Merge each cluster; a cluster that fails is skipped. -/
def consolidateAll (env : Env F) (candidates : List (ConsolidationCandidate F)) : Op F Unit :=
  Prog.forEach candidates (fun candidate => do
    let _ ← Prog.attempt (consolidateCluster env candidate.memories)
    pure ())

/-!
## Turns
-/

/-- What happens every so many turns. -/
def everyTurns (turnId : UInt64) (period : Nat) (pass : Op F Unit) : Op F Unit :=
  if turnId.toNat % period = 0 then pass else pure ()

def turnDecay (env : Env F) : Op F Unit := do
  let _ ← Prog.attempt (applyDecayPolicyGlobal env)
  pure ()

/-- Forget what was decided to be archived or deleted. -/
def turnArchival (env : Env F) : Op F Unit := do
  let decisions ← evaluateArchivalGlobal env
  Prog.forEach decisions (fun d =>
    if d.2 = ArchivalDecision.delete ∨ d.2 = ArchivalDecision.archive then do
      let _ ← Prog.attempt (forget env d.1)
      pure ()
    else pure ())

def turnConsolidation (env : Env F) : Op F Unit := do
  let candidates ← findConsolidationCandidates env 2 (ratio 85 100)
  consolidateAll env candidates

def maybeRunMaintenance (env : Env F) (turnId : UInt64) : Op F Unit :=
  if turnId = 0 then pure ()
  else do
    everyTurns turnId 50 (turnDecay env)
    everyTurns turnId 100 (turnArchival env)
    everyTurns turnId 200 (turnConsolidation env)

/-!
## Sleep
-/

structure SleepMaintenanceConfig (F : Type) where
  maxMemories : Nat
  applyDecay : Bool
  decayWriteEpsilon : F
  evaluateArchival : Bool
  applyArchivalDeletes : Bool
  runConsolidation : Bool
  maxConsolidationClusters : Nat
  consolidationMinClusterSize : Nat
  consolidationSimilarityThreshold : F
  linkEntities : Bool

def SleepMaintenanceConfig.default : SleepMaintenanceConfig F where
  maxMemories := 1000
  applyDecay := true
  decayWriteEpsilon := ratio 1 1000
  evaluateArchival := true
  applyArchivalDeletes := false
  runConsolidation := true
  maxConsolidationClusters := 4
  consolidationMinClusterSize := 2
  consolidationSimilarityThreshold := ratio 85 100
  linkEntities := true

/-- Only deletions are applied, and only when asked for. -/
def evaluateSleepArchival (env : Env F) (loaded : List (MemoryNode F))
    (config : SleepMaintenanceConfig F) : Op F Unit := do
  let decisions ← evaluateArchivalBatch env loaded
  Prog.forEach decisions (fun d =>
    match d.2 with
    | ArchivalDecision.keep => pure ()
    | ArchivalDecision.archive => pure ()
    | ArchivalDecision.delete =>
        if config.applyArchivalDeletes then forget env d.1 else pure ()
    | ArchivalDecision.consolidate _ => pure ())

/-- Candidates among the loaded copies. -/
def findSleepConsolidationCandidates (env : Env F) (loaded : List (MemoryNode F))
    (config : SleepMaintenanceConfig F) : Op F (List (ConsolidationCandidate F)) := do
  let now ← currentTimeUs env
  let eligible := loaded.filter (fun node => shouldConsolidate node now)
  if eligible.isEmpty then pure []
  else pure (findCandidates env.hashOrder env.text eligible config.consolidationMinClusterSize
    config.consolidationSimilarityThreshold)

def runSleepConsolidation (env : Env F) (loaded : List (MemoryNode F))
    (config : SleepMaintenanceConfig F) : Op F Unit := do
  let candidates ← findSleepConsolidationCandidates env loaded config
  consolidateAll env (candidates.take config.maxConsolidationClusters)

/-!
### Linking entities
-/

/-- The name in a tag of the form {lit}`entity:name`. -/
def entityTag (tag : String) : Option String :=
  if "entity:".toList.isPrefixOf tag.toList then some (String.ofList (tag.toList.drop 7))
  else none

omit [Scalar F] in
/-- Memories by the name in their first entity tag. -/
def buildEntityMemoryMap (text : TextOps F) (t : Tables F) : Assoc String (List MemoryId) :=
  t.allMemories.foldl (fun map mem =>
    match mem.tags.findSome? entityTag with
    | none => map
    | some name =>
        map.upsert (text.trim (text.toLowercase name)) (fun ids => ids.getD [] ++ [mem.id]))
    Assoc.empty

/-- Names by the canonical name the resolver has for them. -/
def canonicalGroups (o : HashOrder) (resolve : String -> Option String)
    (map : Assoc String (List MemoryId)) : Assoc String (List String) :=
  (o.order map.keys).foldl (fun groups name =>
    match resolve name with
    | none => groups
    | some canonical => groups.upsert canonical (fun names => names.getD [] ++ [name]))
    Assoc.empty

/-- The memories of a group of names, once each and in order. -/
def groupMemoryIds (map : Assoc String (List MemoryId)) (group : String × List String) :
    List MemoryId :=
  let named := fun name => (map.find? name).getD []
  orderBy idLe (group.2.flatMap named ++ named group.1).dedup

omit [Scalar F] in
def alreadyLinked (g : CsrGraph F) (a b : MemoryId) : Bool :=
  (g.outgoing a).any (fun p => decide (p.1 = b) &&
    decide (p.2.edgeType = EdgeType.related) &&
    p.2.label.any (fun label => "entity_link:".toList.isPrefixOf label.toList))

def linkPair (env : Env F) (now : Timestamp) (canonical : String) (pair : MemoryId × MemoryId) :
    Op F Unit := do
  let linked ← Prog.gets (fun w => alreadyLinked w.graph pair.1 pair.2)
  if linked then pure ()
  else do
    let _ ← Prog.attempt (relate env (inferredEdge now pair.1 pair.2 EdgeType.related 1
      (some ("entity_link:" ++ canonical))))
    pure ()

/-- The resolver answers with a canonical name for the names it knows. -/
def linkEntities (env : Env F) (resolve : String -> Option String) : Op F Unit := do
  let map ← Prog.gets (fun w => buildEntityMemoryMap env.text w.tables)
  let now ← currentTimeUs env
  Prog.forEach (env.hashOrder.order (canonicalGroups env.hashOrder resolve map).entries)
    (fun group => Prog.forEach (laterPairs (groupMemoryIds map group))
      (linkPair env now group.1))

/-- A stage that the configuration switches on. -/
def whenOn (switch : Bool) (stage : Op F Unit) : Op F Unit :=
  if switch then stage else pure ()

def runSleepMaintenance (env : Env F) (resolve : String -> Option String)
    (config : SleepMaintenanceConfig F) : Op F Unit := do
  whenOn config.applyDecay
    (applySleepDecay env config.maxMemories config.decayWriteEpsilon)
  let loaded ← Prog.gets (fun w => loadSleepMaintenanceMemories w.tables config.maxMemories)
  whenOn config.evaluateArchival (evaluateSleepArchival env loaded config)
  whenOn config.runConsolidation (runSleepConsolidation env loaded config)
  whenOn config.linkEntities (linkEntities env resolve)

/-!
## Assertions that survive the passes
-/

section Closed

variable {env : Env F} {I : World F -> Prop}

omit [Scalar F] in
theorem keeps_whenOn (switch : Bool) {stage : Op F Unit} (h : Prog.Keeps I stage) :
    Prog.Keeps I (whenOn switch stage) :=
  Prog.triple_ite (fun _ => h) (fun _ => Prog.keeps_pure ())

omit [Scalar F] in
theorem keeps_everyTurns (turnId : UInt64) (period : Nat) {pass : Op F Unit}
    (h : Prog.Keeps I pass) : Prog.Keeps I (everyTurns turnId period pass) :=
  Prog.triple_ite (fun _ => h) (fun _ => Prog.keeps_pure ())

namespace WriteClosed

variable (h : WriteClosed env I)

include h

theorem keeps_applyDecayPolicyGlobal : Prog.Keeps I (applyDecayPolicyGlobal env) := by
  apply Prog.Keeps.bind h.keeps_now
  intro now
  exact Prog.Keeps.bind (Prog.keeps_gets _) (fun _ => h.keeps_writeLifecycle _)

theorem keeps_applyArchivePolicyGlobal : Prog.Keeps I (applyArchivePolicyGlobal env) := by
  apply Prog.Keeps.bind h.keeps_now
  intro now
  exact Prog.Keeps.bind (Prog.keeps_gets _) (fun _ => h.keeps_writeLifecycle _)

theorem keeps_turnDecay : Prog.Keeps I (turnDecay env) :=
  Prog.Keeps.bind h.keeps_applyDecayPolicyGlobal.attempt (fun _ => Prog.keeps_pure ())

theorem keeps_applySleepDecay (maxMemories : Nat) (decayWriteEpsilon : F) :
    Prog.Keeps I (applySleepDecay env maxMemories decayWriteEpsilon) := by
  apply Prog.Keeps.bind (Prog.keeps_gets _)
  intro loaded
  apply Prog.Keeps.bind h.keeps_now
  intro now
  exact Prog.Keeps.forEach (fun node _ => h.keeps_dbStoreMemory node)

theorem keeps_consolidateAll (candidates : List (ConsolidationCandidate F)) :
    Prog.Keeps I (consolidateAll env candidates) := by
  apply Prog.Keeps.forEach
  intro candidate _
  exact Prog.Keeps.bind (h.keeps_consolidateCluster _).attempt (fun _ => Prog.keeps_pure ())

theorem keeps_findConsolidationCandidates (minClusterSize : Nat) (similarityThreshold : F) :
    Prog.Keeps I (findConsolidationCandidates env minClusterSize similarityThreshold) := by
  apply Prog.Keeps.bind h.keeps_now
  intro now
  apply Prog.Keeps.bind (Prog.keeps_gets _)
  intro eligible
  exact Prog.triple_ite (fun _ => Prog.keeps_pure _) (fun _ => Prog.keeps_pure _)

theorem keeps_turnConsolidation : Prog.Keeps I (turnConsolidation env) :=
  Prog.Keeps.bind (h.keeps_findConsolidationCandidates _ _) (fun _ => h.keeps_consolidateAll _)

theorem keeps_runSleepConsolidation (loaded : List (MemoryNode F))
    (config : SleepMaintenanceConfig F) :
    Prog.Keeps I (runSleepConsolidation env loaded config) := by
  apply Prog.Keeps.bind
  · apply Prog.Keeps.bind h.keeps_now
    intro now
    exact Prog.triple_ite (fun _ => Prog.keeps_pure _) (fun _ => Prog.keeps_pure _)
  · intro candidates
    exact h.keeps_consolidateAll _

theorem keeps_linkEntities (resolve : String -> Option String) :
    Prog.Keeps I (linkEntities env resolve) := by
  apply Prog.Keeps.bind (Prog.keeps_gets _)
  intro map
  apply Prog.Keeps.bind h.keeps_now
  intro now
  apply Prog.Keeps.forEach
  intro group _
  apply Prog.Keeps.forEach
  intro pair _
  apply Prog.Keeps.bind (Prog.keeps_gets _)
  intro linked
  apply Prog.triple_ite
  · intro _
    exact Prog.keeps_pure ()
  · intro _
    exact Prog.Keeps.bind (h.relate _).attempt (fun _ => Prog.keeps_pure ())

end WriteClosed

end Closed

end Facade
end MenteDb
