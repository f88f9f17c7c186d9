import MenteDb.Facade.EnrichmentProgress
import MenteDb.Foundation.Lease

/-!
# The lease of maintenance

Background workers run sleep maintenance and enrichment under one lease.  A worker that does not
get it leaves the database alone.  The lease is given back at the end of the run, also of one
that fails, and when the worker goes away in the middle of it.
-/

namespace MenteDb
namespace Facade

open Foundation
open Sqlite
open Cognitive
open Consolidation

variable {F : Type}

/-- A run that asks for the lease. -/
inductive LeasedJob (F : Type) where
  | sleep (config : SleepMaintenanceConfig F)
  | enrichment (currentTurn : UInt64) (skipExtraction : Bool)

/-- What is left of a run. -/
inductive LeasedRun (F : Type) where
  | decaying (config : SleepMaintenanceConfig F)
  | loading (config : SleepMaintenanceConfig F)
  | evaluating (config : SleepMaintenanceConfig F) (loaded : List (MemoryNode F))
  | consolidating (config : SleepMaintenanceConfig F) (loaded : List (MemoryNode F))
  | linking (config : SleepMaintenanceConfig F)
  | enriching (currentTurn : UInt64) (skipExtraction : Bool)
  | finished

def LeasedJob.start : LeasedJob F -> LeasedRun F
  | sleep config => LeasedRun.decaying config
  | enrichment currentTurn skipExtraction => LeasedRun.enriching currentTurn skipExtraction

section Runs

variable [Scalar F] (env : Env F) (services : EnrichmentServices F)

/-- What a run makes of the database. -/
def LeasedJob.whole (db : Database F) : LeasedJob F -> Database F
  | sleep config => db.run (runSleepMaintenance env services.resolve config)
  | enrichment currentTurn skipExtraction =>
      db.runEnrichment env services currentTurn skipExtraction

omit [Scalar F] in
/-- A stage that fails ends the run. -/
def afterStage (stage : Op F Unit) (later : LeasedRun F) (db : Database F) :
    LeasedRun F × Database F :=
  match stage db.world with
  | (Except.ok _, w) => (later, { db with world := w })
  | (Except.error _, w) => (LeasedRun.finished, { db with world := w })

/-- Sleep maintenance goes from stage to stage, and in between others may look in. -/
def LeasedRun.next : JobStep (Database F) (LeasedRun F)
  | decaying config, db =>
      some (afterStage (whenOn config.applyDecay
        (applySleepDecay env config.maxMemories config.decayWriteEpsilon)) (loading config) db)
  | loading config, db =>
      some (evaluating config
        (loadSleepMaintenanceMemories db.world.tables config.maxMemories), db)
  | evaluating config loaded, db =>
      some (afterStage (whenOn config.evaluateArchival (evaluateSleepArchival env loaded config))
        (consolidating config loaded) db)
  | consolidating config loaded, db =>
      some (afterStage (whenOn config.runConsolidation (runSleepConsolidation env loaded config))
        (linking config) db)
  | linking config, db =>
      some (afterStage (whenOn config.linkEntities (linkEntities env services.resolve)) finished db)
  | enriching currentTurn skipExtraction, db =>
      some (finished, db.runEnrichment env services currentTurn skipExtraction)
  | finished, _ => none

/-!
## Stages and whole runs
-/

/-- What becomes of the database when nobody interferes with the rest of a run. -/
def LeasedRun.result (db : Database F) : LeasedRun F -> Database F
  | decaying config => db.run (runSleepMaintenance env services.resolve config)
  | loading config => db.run (do
      let loaded ← Prog.gets (fun w => loadSleepMaintenanceMemories w.tables config.maxMemories)
      whenOn config.evaluateArchival (evaluateSleepArchival env loaded config)
      whenOn config.runConsolidation (runSleepConsolidation env loaded config)
      whenOn config.linkEntities (linkEntities env services.resolve))
  | evaluating config loaded => db.run (do
      whenOn config.evaluateArchival (evaluateSleepArchival env loaded config)
      whenOn config.runConsolidation (runSleepConsolidation env loaded config)
      whenOn config.linkEntities (linkEntities env services.resolve))
  | consolidating config loaded => db.run (do
      whenOn config.runConsolidation (runSleepConsolidation env loaded config)
      whenOn config.linkEntities (linkEntities env services.resolve))
  | linking config => db.run (whenOn config.linkEntities (linkEntities env services.resolve))
  | enriching currentTurn skipExtraction =>
      db.runEnrichment env services currentTurn skipExtraction
  | finished => db

variable {env services}

end Runs

end Facade
end MenteDb
