import MenteDb.Cognitive.Phantoms
import MenteDb.Cognitive.Speculative
import MenteDb.Consolidation.Engine
import MenteDb.Graph.Manager
import MenteDb.Graph.Belief
import MenteDb.Sqlite.Search

/-!
# The database facade

A {lit}`World` is an open database: the tables, the in-memory graph, the
speculative cache and the phantom tracker, which writes tell of entities.  What the
facade does not decide itself is collected in an {lit}`Env`: the clock, fresh
identifiers, failures of write transactions, the rankers, and the order in which hash
tables are iterated.  The clock and the failures are indexed by a counter that advances
whenever one of them is asked, so one environment is one possible history.  Reads do not
fail.
-/

namespace MenteDb
namespace Facade

open Foundation
open Sqlite
open MenteDb.Graph
open Cognitive
open Consolidation

/-!
## Configuration
-/

structure EntityExtractionConfig (F : Type) where
  enabled : Bool
  recallEnabled : Bool
  maxEntitiesPerMemory : Nat
  maxAliasesPerEntity : Nat
  minPhraseChars : Nat
  maxPhraseChars : Nat
  maxAliasWords : Nat
  tagConfidence : F
  structuredConfidence : F
  minConfidence : F
  recallBoost : F
  recallFetchLimit : Nat

structure WriteInferenceConfig (F : Type) where
  contradictionThreshold : F
  obsoleteThreshold : F
  relatedMin : F
  relatedMax : F
  correctionThreshold : F
  confidenceDecayFactor : F
  confidenceFloor : F

structure CognitiveConfig (F : Type) where
  writeInference : Bool
  decayOnRecall : Bool
  speculativeCache : Bool
  archivalEvaluation : Bool
  inferenceConfig : WriteInferenceConfig F
  decayConfig : DecayConfig F
  entityExtractionConfig : EntityExtractionConfig F
  speculativeCacheSize : Nat

section Defaults

variable {F : Type} [Scalar F]

def EntityExtractionConfig.default : EntityExtractionConfig F where
  enabled := true
  recallEnabled := true
  maxEntitiesPerMemory := 16
  maxAliasesPerEntity := 8
  minPhraseChars := 2
  maxPhraseChars := 80
  maxAliasWords := 5
  tagConfidence := ratio 98 100
  structuredConfidence := ratio 95 100
  minConfidence := ratio 55 100
  recallBoost := 1
  recallFetchLimit := 32

def WriteInferenceConfig.default : WriteInferenceConfig F where
  contradictionThreshold := ratio 95 100
  obsoleteThreshold := ratio 85 100
  relatedMin := ratio 6 10
  relatedMax := ratio 85 100
  correctionThreshold := ratio 1 2
  confidenceDecayFactor := ratio 1 2
  confidenceFloor := ratio 1 10

def CognitiveConfig.default : CognitiveConfig F where
  writeInference := true
  decayOnRecall := true
  speculativeCache := true
  archivalEvaluation := true
  inferenceConfig := WriteInferenceConfig.default
  decayConfig := DecayConfig.default
  entityExtractionConfig := EntityExtractionConfig.default
  speculativeCacheSize := 10

end Defaults

/-!
## Environment and state
-/

/-- A mention of an entity found in a memory. -/
structure ExtractedEntity (F : Type) where
  canonical : String
  entityType : String
  aliases : List String
  role : Option String
  confidence : F
  evidence : Option String

structure Env (F : Type) where
  config : CognitiveConfig F
  clock : Nat -> Timestamp
  /-- The failure, if any, of a write transaction. -/
  fault : Nat -> Option MenteError
  freshMemoryId : Nat -> MemoryId
  freshEntityId : Nat -> Nat -> String
  rankers : Rankers F
  hashOrder : HashOrder
  text : TextOps F
  /-- The surface linker that finds explicit entities in a memory. -/
  extractMemory : MemoryNode F -> List (ExtractedEntity F)

structure World (F : Type) where
  tables : Tables F
  /-- Dimension of the vector index the backend works with. -/
  embeddingDim : Nat
  retrievalConfig : RetrievalConfig F
  graph : CsrGraph F
  speculative : SpeculativeCache F
  phantom : PhantomTracker
  ticks : Nat

/-- A facade operation: it may fail half way and keep what it has done. -/
abbrev Op (F α : Type) := Prog (World F) MenteError α

variable {F : Type}

def currentTimeUs (env : Env F) : Op F Timestamp := fun w =>
  (Except.ok (env.clock w.ticks), { w with ticks := w.ticks + 1 })

/-- A write transaction either fails and changes nothing or commits. -/
def transact (env : Env F) (tx : Tx F) : Op F Unit := fun w =>
  match env.fault w.ticks with
  | some e => (Except.error e, { w with ticks := w.ticks + 1 })
  | none =>
      match tx w.tables with
      | Except.error e => (Except.error e, { w with ticks := w.ticks + 1 })
      | Except.ok t => (Except.ok (), { w with tables := t, ticks := w.ticks + 1 })

theorem transact_eq {env : Env F} (hcalm : forall n, env.fault n = none) {tx : Tx F}
    {w : World F} {t : Tables F} (h : tx w.tables = Except.ok t) :
    transact env tx w = (Except.ok (), { w with tables := t, ticks := w.ticks + 1 }) := by
  unfold transact
  rw [hcalm, h]

theorem transact_error {env : Env F} (hcalm : forall n, env.fault n = none) {tx : Tx F}
    {w : World F} {e : MenteError} (h : tx w.tables = Except.error e) :
    transact env tx w = (Except.error e, { w with ticks := w.ticks + 1 }) := by
  unfold transact
  rw [hcalm, h]

/-- A transaction succeeds when it commits. -/
theorem transact_ok {env : Env F} {tx : Tx F} {w w' : World F}
    (h : transact env tx w = (Except.ok (), w')) :
    exists t, tx w.tables = Except.ok t ∧
      w' = { w with tables := t, ticks := w.ticks + 1 } := by
  unfold transact at h
  split at h
  · cases h
  · split at h
    · cases h
    · rename_i t htx
      cases h
      exact ⟨t, htx, rfl⟩

/-- A step of the graph manager that can fail. -/
def onGraph (f : CsrGraph F -> Except MenteError (CsrGraph F)) : Op F Unit := fun w =>
  match f w.graph with
  | Except.error e => (Except.error e, w)
  | Except.ok g => (Except.ok (), { w with graph := g })

/-!
## Opening

The graph is hydrated from the stored memories and edges; an edge whose end
points are not both stored is dropped.
-/

def hydrateGraph (t : Tables F) : CsrGraph F := GraphManager.hydrate t.allMemoryIds t.allEdges

/-- Open the stored tables; the cache is what its snapshot holds, and no entity is known to the
phantom tracker. -/
def openWithConfig (t : Tables F) (speculative : SpeculativeCache F)
    (retrievalConfig : RetrievalConfig F) (phantomConfig : PhantomConfig) (ticks : Nat) :
    World F where
  tables := t.init 0
  embeddingDim := t.effectiveDim 0
  retrievalConfig := retrievalConfig
  graph := hydrateGraph (t.init 0)
  speculative := speculative
  phantom := PhantomTracker.new phantomConfig
  ticks := ticks

/-- Concrete runs: time advances by one microsecond per reading up to the largest
timestamp, nothing fails, words are separated by blanks, and no entity is
mentioned. -/
def calmEnv (config : CognitiveConfig Rat) : Env Rat where
  config := config
  clock n := UInt64.ofNat (min (1000 + n) (2 ^ 64 - 1))
  fault _ := none
  freshMemoryId n := ⟨BitVec.ofNat 128 (1000 + n % 2 ^ 64)⟩
  freshEntityId n i := toString n ++ "-" ++ toString i
  rankers :=
    { limits := Limits.default
      ftsMatch := fun rows query k =>
        ((rows.filter (fun r => decide (r.2 = query))).map Prod.fst).take k
      vecMatch := fun v query k =>
        ((rank (v.rows.map (fun r => (r.1, dot query r.2)))).map Prod.fst).take k }
  hashOrder := HashOrder.insertion
  text :=
    { splitWhitespace := fun s =>
        ((s.toList.splitOnP (fun c => decide (c = ' '))).filter (fun w => !w.isEmpty)).map
          String.ofList
      toLowercase := String.toLower
      trim := fun s => s.trimAscii.toString
      fixed2 := fun _ => "1.00"
      fixed3 := fun _ => "1.000" }
  extractMemory _ := []

def emptyWorld : World Rat :=
  openWithConfig Tables.empty (SpeculativeCache.new 10 (1 / 2) (4 / 10)) RetrievalConfig.default
    PhantomConfig.default 0

/-!
## Rules for the primitive steps
-/

section Rules

variable {I : World F -> Prop} {env : Env F}

/-- The counter is not part of what an invariant says, except for the clock. -/
def IgnoresTicks (I : World F -> Prop) : Prop :=
  forall w n, w.ticks <= n -> I w -> I { w with ticks := n }

theorem keeps_currentTimeUs (hI : IgnoresTicks I) : Prog.Keeps I (currentTimeUs env) := by
  intro w hw
  exact hI w (w.ticks + 1) (Nat.le_succ _) hw

/-- A failed transaction leaves the precondition, a committed one what its body
establishes. -/
theorem triple_transact (hI : IgnoresTicks I) {tx : Tx F} {Q : World F -> Prop}
    (h : forall w t, I w -> tx w.tables = Except.ok t -> Q { w with tables := t }) :
    Prog.Triple I (transact env tx) (fun _ => Q) I := by
  intro w hw
  have hnext := hI w (w.ticks + 1) (Nat.le_succ _) hw
  unfold transact
  cases hfault : env.fault w.ticks with
  | some e => exact hnext
  | none =>
      cases hrun : tx w.tables with
      | error e => exact hnext
      | ok t => exact h { w with ticks := w.ticks + 1 } t hnext hrun

theorem keeps_transact (hI : IgnoresTicks I) {tx : Tx F}
    (h : forall w t, I w -> tx w.tables = Except.ok t -> I { w with tables := t }) :
    Prog.Keeps I (transact env tx) := triple_transact hI h

theorem keeps_onGraph {f : CsrGraph F -> Except MenteError (CsrGraph F)}
    (h : forall w g, I w -> I { w with graph := g }) : Prog.Keeps I (onGraph f) := by
  intro w hw
  unfold onGraph
  cases f w.graph with
  | ok g => exact h w g hw
  | error e => exact hw

end Rules

end Facade
end MenteDb
