import MenteDb.Cognitive.Pain
import MenteDb.Cognitive.Predictions
import MenteDb.Consolidation.Facts
import MenteDb.Context.Delta
import MenteDb.Facade.Enrichment
import MenteDb.Facade.StreamChecks
import MenteDb.Facade.TurnInference
import MenteDb.Foundation.Parts

/-!
# A conversation turn

One turn reads the context of a message, stores what was said, and tells the cognitive engines.
It goes step by step: a step that fails ends the turn, and what the steps before it did stays.
The model that embeds texts is a parameter; it may fail at any time.
-/

namespace MenteDb
namespace Facade

open Foundation
open Sqlite
open MenteDb.Graph
open Cognitive
open Consolidation
open MenteDb.Context

variable {F : Type}

/-!
## What goes in and what comes out
-/

structure ProcessTurnInput where
  userMessage : String
  assistantResponse : Option String
  turnId : UInt64
  projectContext : Option String
  agentId : Option AgentId

structure DetectedAction where
  actionType : String
  detail : String
deriving DecidableEq

structure ProactiveRecall (F : Type) where
  memoryId : MemoryId
  content : String
  relevance : F
  actionType : String

structure ProcessTurnResult (F : Type) where
  context : List (ScoredMemory F)
  storedIds : List MemoryId
  episodicId : Option MemoryId
  painWarnings : List (PainTracking.PainWarning F)
  cacheHit : Bool
  inferenceActions : Nat
  detectedActions : List DetectedAction
  proactiveRecalls : List (ProactiveRecall F)
  correctionId : Option MemoryId
  sentiment : F
  phantomCount : Nat
  contradictionCount : Nat
  predictedTopics : List String
  factsExtracted : Nat
  edgesCreated : Nat
  enrichmentPending : Bool
  deltaAdded : List MemoryId
  deltaRemoved : List MemoryId

namespace ProcessTurnInput

def agent (input : ProcessTurnInput) : AgentId := input.agentId.getD AgentId.nil

def response (input : ProcessTurnInput) : String := input.assistantResponse.getD ""

def conversation (input : ProcessTurnInput) : String :=
  "User: " ++ input.userMessage ++ "\nAssistant: " ++ input.response

def combinedText (input : ProcessTurnInput) : String := input.userMessage ++ " " ++ input.response

def scopeTags (input : ProcessTurnInput) : List String :=
  input.projectContext.toList.map (fun ctx => "scope:project:" ++ ctx)

end ProcessTurnInput

/-!
## Keywords
-/

def actionKeywords : List (String × String) :=
  [("deploy", "deployment"), ("release", "release"), ("migrate", "migration"),
    ("refactor", "refactoring"), ("debug", "debugging"), ("install", "installation"),
    ("configure", "configuration"), ("test", "testing"), ("build", "building"),
    ("commit", "version_control"), ("merge", "version_control"), ("review", "code_review")]

def correctionIndicators : List String :=
  ["actually", "correction", "i was wrong", "that's not right", "let me correct", "i meant",
    "not quite", "to clarify", "i misspoke", "update:", "scratch that"]

def speculationIndicators : List String :=
  ["might be", "probably", "seems like", "i think", "looks like", "considering", "planning to",
    "thinking about", "maybe"]

def positiveWords : List String :=
  ["great", "excellent", "perfect", "thanks", "awesome", "love", "good", "nice", "wonderful",
    "fantastic", "helpful", "amazing", "brilliant", "works", "solved"]

def negativeWords : List String :=
  ["bad", "terrible", "awful", "hate", "wrong", "broken", "fail", "error", "bug", "frustrating",
    "annoying", "useless", "horrible", "worst", "disappointed"]

section Keywords

variable (text : TextOps F)

/-- The first sentence with the keyword, at most 200 characters of it. -/
def extractSentenceContaining (s keyword : String) : String :=
  let sentences := (s.toList.splitOnP (fun c => c == '.')).map String.ofList
  let sentence := (sentences.find? (fun part => containsText part keyword)).getD keyword
  String.ofList ((text.trim sentence).toList.take 200)

def detectActions (combinedText : String) : List DetectedAction :=
  let lower := text.toLowercase combinedText
  (actionKeywords.filter (fun k => containsText lower k.1)).map (fun k =>
    { actionType := k.2, detail := extractSentenceContaining text lower k.1 })

def isCorrection (combinedText : String) : Bool :=
  correctionIndicators.any (containsText (text.toLowercase combinedText))

/-- The words in which one of the others occurs. -/
def countContaining (words others : List String) : Nat :=
  (words.filter (fun w => others.any (containsText w))).length

def analyzeSentiment [Scalar F] (s : String) : F :=
  let words := text.splitWhitespace (text.toLowercase s)
  let total : F := (max words.length 1 : Nat)
  let positive : F := countContaining words positiveWords
  let negative : F := countContaining words negativeWords
  clamp (-1) 1 ((positive - negative) / total)

end Keywords

/-!
## Steps on the database
-/

structure TurnServices (F : Type) where
  /-- The embedding model, asked at some instant. -/
  embedText : Nat -> String -> Except MenteError (Option (List F))
  classes : CharClasses
  build : Build
  phantomTracking : Bool
  enrichmentEnabled : Bool
  triggerInterval : UInt64

section Steps

variable (env : Env F) (services : TurnServices F)

def embedText (s : String) : Op F (Option (List F)) := fun w =>
  (services.embedText w.ticks s, { w with ticks := w.ticks + 1 })

variable [Scalar F]

def embedOrZeros (s : String) : Op F (List F) := do
  let embedding ← embedText services s
  pure (embedding.getD (List.replicate 384 0))

def storeConversation (input : ProcessTurnInput) : Op F MemoryId := do
  let embedding ← embedText services input.conversation
  storeEpisodic env
    { agentId := input.agent
      conversation := input.conversation
      projectContext := input.projectContext
      embedding := Except.ok embedding }

/-- An edge to each of the memories, whether or not it can be drawn. -/
def linkAll (now : Timestamp) (id : MemoryId) : List (MemoryNode F) -> Nat -> Op F Nat
  | [], edges => pure edges
  | other :: rest, edges => do
      let drawn ← relateOrSkip env
        (inferredEdge now id other.id EdgeType.related (ratio 1 2) none)
      linkAll now id rest (edges + drawn)

def linkFacts (target : MemoryNode F) (id : MemoryId) (facts : List (ExtractedFact F)) :
    Op F (Nat × Nat) :=
  if facts.isEmpty then pure (0, 0)
  else do
    let recalledAt ← currentTimeUs env
    let nearby ← Prog.gets (fun w => turnCandidates env w recalledAt target id)
    let now ← currentTimeUs env
    let edges ← linkAll env now id (facts.flatMap (fun fact =>
      nearby.filter (fun other =>
        containsText other.content fact.subject || containsText other.content fact.object))) 0
    pure (facts.length, edges)

/-- How many facts the memory states, and how many edges were drawn for them. -/
def extractAndLinkFacts (id : MemoryId) : Prog (World F) Stop (Nat × Nat) := do
  let target ← Prog.mapError Stop.failed (getMemory id)
  match extractFacts env.text target with
  | none => Prog.fail Stop.panicked
  | some facts => Prog.mapError Stop.failed (linkFacts env target id facts)

/-- The memories similar to an action; without an embedding there are none. -/
def recallForAction (action : DetectedAction) : Op F (List (ProactiveRecall F)) := do
  let embedding ← embedText services (action.actionType ++ " " ++ action.detail)
  match embedding with
  | none => pure []
  | some e => do
      let now ← currentTimeUs env
      Prog.gets (fun w => (openRecall env w e none 3 now).filterMap (fun hit =>
        (w.tables.getMemory hit.1).map (fun mem =>
          { memoryId := hit.1
            content := mem.content
            relevance := hit.2
            actionType := action.actionType })))

def proactiveRecall : List DetectedAction -> Op F (List (ProactiveRecall F))
  | [] => pure []
  | action :: rest => do
      let here ← recallForAction env services action
      let later ← proactiveRecall rest
      pure (here ++ later)

def autoDetectCorrection (input : ProcessTurnInput) : Op F (Option MemoryId) :=
  if isCorrection env.text input.combinedText then do
    let embedding ← embedOrZeros services ("Correction: " ++ input.userMessage)
    let node ← newNode env input.agent MemoryType.semantic ("Correction: " ++ input.userMessage)
      embedding
    store env { node with tags := "auto-correction" :: "anti_pattern" :: input.scopeTags }
    pure (some node.id)
  else pure none

def ghostContent (input : ProcessTurnInput) : String :=
  "Unconfirmed: " ++ String.ofList (input.userMessage.toList.take 300)

/-- Speculation about an action is stored with low confidence, if it can be. -/
def storeGhost (input : ProcessTurnInput) (actions : List DetectedAction) : Op F Unit :=
  if speculationIndicators.any (containsText input.combinedText) && !actions.isEmpty then do
    let embedding ← Prog.attempt (embedText services (ghostContent input))
    match embedding with
    | Except.ok (some e) => do
        let node ← newNode env input.agent MemoryType.semantic (ghostContent input) e
        let _ ← Prog.attempt (store env { node with
          confidence := ratio 3 10
          tags := "ghost-memory" :: "unconfirmed" :: input.scopeTags })
        pure ()
    | _ => pure ()
  else pure ()

/-- The context of a predicted topic: the memories similar to it. -/
def buildTopic (topic : String) : Op F (Option (String × List MemoryId × Option (List F))) := do
  let embedding ← Prog.attempt (embedText services topic)
  match embedding with
  | Except.ok (some e) => do
      let now ← currentTimeUs env
      Prog.gets (fun w =>
        let loaded := (openRecall env w e none 5 now).filterMap (fun hit =>
          (w.tables.getMemory hit.1).map (fun mem => (mem.content, hit.1)))
        if loaded.isEmpty then none
        else some ("\n---\n".intercalate (loaded.map Prod.fst), loaded.map Prod.snd, none))
  | _ => pure none

def buildTopics : List String ->
    Op F (Assoc String (Option (String × List MemoryId × Option (List F))))
  | [] => pure Assoc.empty
  | topic :: rest => do
      let built ← buildTopic env services topic
      let later ← buildTopics rest
      pure (later.insert topic built)

def updateSpeculativeCacheFromPredictions (predictions : List String) : Op F Unit :=
  if predictions.isEmpty then pure ()
  else if env.config.speculativeCache then do
    let now ← currentTimeUs env
    let built ← buildTopics env services predictions
    Prog.modify (fun w => { w with
      speculative := w.speculative.preAssemble now predictions (fun topic =>
        (built.find? topic).join) })
  else pure ()

end Steps

/-!
## The engines
-/

/-- The cognitive engines of a database that writes do not tell of anything. -/
structure Engines (F : Type) where
  pain : PainTracking F
  trajectory : TrajectoryTracker F
  stream : CognitionStream F

/-- A database with its engines, and the delta tracker that the caller brings. -/
structure Serving (F : Type) where
  db : Database F
  engines : Engines F
  tracker : DeltaTracker

abbrev Turn (F α : Type) := Prog (Serving F) Stop α

/-- The world of the database. -/
def worldPart : Part (Serving F) (World F) where
  get s := s.db.world
  set w s := { s with db := { s.db with world := w } }
  get_set _ _ := rfl

def inWorld {α : Type} (x : Op F α) : Turn F α := worldPart.run Stop.failed x

def needsEnrichment (services : TurnServices F) (db : Database F) : Bool :=
  services.enrichmentEnabled && db.enrichmentPending

/-- {lit}`a.saturating_sub(b)`. -/
def saturatingSub (a b : UInt64) : UInt64 := if b <= a then a - b else 0

/-- The number of turns since the last enrichment has reached the interval. -/
def enrichmentDue (services : TurnServices F) (turnId last : UInt64) : Bool :=
  decide (turnId ≠ 0) && services.enrichmentEnabled && decide (0 < services.triggerInterval) &&
    decide (services.triggerInterval <= saturatingSub turnId last)

def triggerEnrichment (services : TurnServices F) (turnId : UInt64) (db : Database F) :
    Database F :=
  if enrichmentDue services turnId db.lastEnrichmentTurn && !needsEnrichment services db then
    db.requestEnrichment
  else db

/-- The words of the context, which are taken to be known. -/
def knownWords (text : TextOps F) (context : List (ScoredMemory F)) : List String :=
  context.flatMap (fun sm => (text.splitWhitespace sm.1.content).map text.toLowercase)

/-- The topic of a turn is what the user said, cut at 100 characters. -/
def rawTopic (input : ProcessTurnInput) : String :=
  if 100 < input.userMessage.toList.length then
    String.ofList (input.userMessage.toList.take 100) ++ "..."
  else input.userMessage

section Stages

variable [Scalar F] (env : Env F) (services : TurnServices F)

/-- What a turn serves. -/
structure ServedContext (F : Type) where
  context : TurnContext F
  painWarnings : List (PainTracking.PainWarning F)
  delta : DeltaResult

/-- What a turn writes. -/
structure WrittenTurn (F : Type) where
  episodicId : MemoryId
  inferenceActions : Nat
  facts : Nat × Nat
  actions : List DetectedAction
  recalls : List (ProactiveRecall F)
  correctionId : Option MemoryId

def serveContext (input : ProcessTurnInput) : Turn F (ServedContext F) := do
  let queryEmbedding ← inWorld (embedOrZeros services input.userMessage)
  let context ← inWorld (retrieveContext env input.userMessage queryEmbedding)
  let painWarnings ← Prog.gets (fun s =>
    s.engines.pain.checkPainSignals env.text input.userMessage)
  let delta ← Prog.gets (fun s =>
    DeltaTracker.computeDelta env.hashOrder context.ids s.tracker.lastServed)
  Prog.modify (fun s => { s with tracker := s.tracker.update context.ids })
  pure { context := context, painWarnings := painWarnings, delta := delta }

def writeTurn (input : ProcessTurnInput) : Turn F (WrittenTurn F) := do
  let episodicId ← inWorld (storeConversation env services input)
  let inferenceActions ← inWorld (runExplicitWriteInference env episodicId)
  let facts ← worldPart.run id (extractAndLinkFacts env episodicId)
  let actions := detectActions env.text input.combinedText
  let recalls ← inWorld (proactiveRecall env services actions)
  let correctionId ← inWorld (autoDetectCorrection env services input)
  pure
    { episodicId := episodicId
      inferenceActions := inferenceActions
      facts := facts
      actions := actions
      recalls := recalls
      correctionId := correctionId }

/-- The number of gaps in what was said. -/
def detectPhantoms (input : ProcessTurnInput) (context : List (ScoredMemory F)) :
    Op F Nat := fun w =>
  if services.phantomTracking then
    let gaps := w.phantom.detectGaps services.classes env.text env.hashOrder
      input.conversation (knownWords env.text context) input.turnId (env.clock w.ticks)
      (fun i => env.freshMemoryId (w.ticks + i))
    (Except.ok gaps.1.length,
      { w with phantom := gaps.2, ticks := w.ticks + gaps.1.length + 1 })
  else (Except.ok 0, w)

/-- The number of contradictions in what the assistant said. -/
def checkResponse (input : ProcessTurnInput) (context : List (ScoredMemory F)) :
    Turn F Nat := fun s =>
  let checked := checkStream env.text s.engines.stream input.response context
  (Except.ok checked.1, { s with engines := { s.engines with stream := checked.2 } })

def recordTrajectoryTurn (turn : TrajectoryNode F) : Turn F Unit := fun s =>
  match s.engines.trajectory.recordTurn env.text services.build turn with
  | none => (Except.error Stop.panicked, s)
  | some trajectory =>
      (Except.ok (), { s with engines := { s.engines with trajectory := trajectory } })

def topicNode (input : ProcessTurnInput) : Op F (TrajectoryNode F) := do
  let topicEmbedding ← embedOrZeros services (rawTopic input)
  let now ← currentTimeUs env
  pure
    { turnId := input.turnId
      topicEmbedding := topicEmbedding
      topicSummary := rawTopic input
      decisionState := DecisionState.completed
      openQuestions := []
      timestamp := now }

def updateTrajectory (input : ProcessTurnInput) (actions : List DetectedAction) :
    Turn F (List String) := do
  let node ← inWorld (topicNode env services input)
  recordTrajectoryTurn env services node
  let predictions ← Prog.gets (fun s =>
    s.engines.trajectory.predictNextTopics env.text env.hashOrder)
  inWorld (storeGhost env services input actions)
  pure predictions

def maintain (turnId : UInt64) : Turn F Unit := do
  inWorld (maybeRunMaintenance env turnId)
  Prog.modify (fun s => { s with db := triggerEnrichment services turnId s.db })

def processTurn (input : ProcessTurnInput) : Turn F (ProcessTurnResult F) := do
  let served ← serveContext env services input
  let written ← writeTurn env services input
  let phantomCount ← inWorld (detectPhantoms env services input served.context.scored)
  let contradictionCount ← checkResponse env input served.context.scored
  let predictedTopics ← updateTrajectory env services input written.actions
  inWorld (updateSpeculativeCacheFromPredictions env services predictedTopics)
  maintain env services input.turnId
  let enrichmentPending ← Prog.gets (fun s => needsEnrichment services s.db)
  pure
    { context := served.context.scored
      storedIds := [written.episodicId]
      episodicId := some written.episodicId
      painWarnings := served.painWarnings
      cacheHit := served.context.cacheHit
      inferenceActions := written.inferenceActions
      detectedActions := written.actions
      proactiveRecalls := written.recalls
      correctionId := written.correctionId
      sentiment := analyzeSentiment env.text input.userMessage
      phantomCount := phantomCount
      contradictionCount := contradictionCount
      predictedTopics := predictedTopics
      factsExtracted := written.facts.1
      edgesCreated := written.facts.2
      enrichmentPending := enrichmentPending
      deltaAdded := served.delta.added
      deltaRemoved := served.delta.removed }

end Stages

end Facade
end MenteDb
