import MenteDb.Cognitive.StreamHistory
import MenteDb.Foundation.Relay
import MenteDb.Server.Auth

/-!
# The cognition service

A client sends the tokens of a text that is being written, and facts that are known.  A task
compares the text with the facts after each token and at the end of each turn, and sends alerts
back through a bounded channel.  A flush is answered with the text, which then starts again.
-/

namespace MenteDb
namespace Server

open Foundation
open Cognitive

variable {F : Type}

inductive CognitionPayload where
  | token (fragment : String)
  | knownFact (memoryId content : String)
  | endOfTurn
  | flush
deriving DecidableEq, Repr

/-- A message may come without a payload. -/
abbrev CognitionRequest := Option CognitionPayload

inductive CognitionAlert where
  | contradiction (memoryId aiSaid stored : String)
  | forgotten (memoryId summary : String)
  | correction (memoryId oldContent newContent : String)
  | reinforcement (memoryId : String)
  | bufferFlushed (accumulatedText : String)
deriving DecidableEq, Repr

inductive GrpcStatus where
  | unauthenticated (message : String)
deriving DecidableEq, Repr

/-- What a stream keeps while it is open. -/
structure CognitionState (F : Type) where
  engine : CognitionStream F
  facts : List (MemoryId × String)

def alertCapacity : Nat := 128

def streamAlertToProto : StreamAlert -> CognitionAlert
  | StreamAlert.contradiction memoryId aiSaid stored =>
      CognitionAlert.contradiction (uuidText memoryId.uuid) aiSaid stored
  | StreamAlert.forgotten memoryId summary =>
      CognitionAlert.forgotten (uuidText memoryId.uuid) summary
  | StreamAlert.correction memoryId old new =>
      CognitionAlert.correction (uuidText memoryId.uuid) old new
  | StreamAlert.reinforcement memoryId => CognitionAlert.reinforcement (uuidText memoryId.uuid)

/-!
## Opening a stream
-/

def ApiError.display : ApiError -> String
  | ApiError.badRequest message => "bad request: " ++ message
  | ApiError.unauthorized message => "unauthorized: " ++ message
  | ApiError.forbidden message => "forbidden: " ++ message

section Service

variable [Scalar F] (env : AuthEnv) (config : AuthConfig) (text : TextOps F)

/-- The agent a stream is opened for, if a secret is configured. -/
def authenticateGrpcStreaming (authorization : Option String) (now : UInt64) :
    Except GrpcStatus (Option String) :=
  match config.jwtSecret with
  | none => Except.ok none
  | some secret =>
      match authorization.bind bearer with
      | none =>
          Except.error (GrpcStatus.unauthenticated
            "missing or invalid authorization metadata")
      | some token =>
          match validateToken env secret token now with
          | Except.ok claims => Except.ok (some claims.agentId)
          | Except.error e =>
              Except.error (GrpcStatus.unauthenticated ("invalid token: " ++ e.display))

def cognitionConfig : StreamConfig F := { StreamConfig.default with bufferSize := 1000 }

/-- The engine has seen no token, and no fact is known. -/
def CognitionState.start : CognitionState F where
  engine := CognitionStream.withConfig cognitionConfig
  facts := []

def parseMemoryId (s : String) : MemoryId := ((env.parseUuid s).map MemoryId.mk).getD MemoryId.nil

/-- What the task does with a request, and what it sends. -/
def cognition : Machine (CognitionState F) CognitionRequest CognitionAlert where
  next s request :=
    match request with
    | some (CognitionPayload.token fragment) => { s with engine := s.engine.feedToken fragment }
    | some (CognitionPayload.knownFact memoryId content) =>
        { s with facts := s.facts ++ [(parseMemoryId env memoryId, content)] }
    | some CognitionPayload.endOfTurn => s
    | some CognitionPayload.flush => { s with engine := s.engine.drainBuffer.2 }
    | none => s
  answer s request :=
    match request with
    | some (CognitionPayload.token fragment) =>
        ((s.engine.feedToken fragment).checkAlerts text s.facts).map streamAlertToProto
    | some (CognitionPayload.knownFact _ _) => []
    | some CognitionPayload.endOfTurn =>
        (s.engine.checkAlerts text s.facts).map streamAlertToProto
    | some CognitionPayload.flush => [CognitionAlert.bufferFlushed s.engine.drainBuffer.1]
    | none => []

abbrev CognitionRelay (F : Type) := Relay (CognitionState F) CognitionRequest CognitionAlert

/-- The stream between the client and the task that was spawned for it. -/
def streamCognition (authorization : Option String) (now : UInt64) :
    Except GrpcStatus (CognitionRelay F) :=
  (authenticateGrpcStreaming env config authorization now).map
    (fun _ => Relay.opened CognitionState.start)

end Service

/-!
## What the requests call for
-/

/-- The call of the engine that a request makes. -/
def engineOp : CognitionRequest -> Option StreamOp
  | some (CognitionPayload.token fragment) => some (StreamOp.feedToken fragment)
  | some CognitionPayload.flush => some StreamOp.drainBuffer
  | _ => none

/-- The tokens since the last flush. -/
def spokenBy (past : List CognitionRequest) : String := fedText (past.filterMap engineOp)

section Alerts

variable [Scalar F] (env : AuthEnv) (text : TextOps F)

def factOf : CognitionRequest -> Option (MemoryId × String)
  | some (CognitionPayload.knownFact memoryId content) =>
      some (parseMemoryId env memoryId, content)
  | _ => none

def factsOf (past : List CognitionRequest) : List (MemoryId × String) :=
  past.filterMap (factOf env)

/-- The alerts that some facts raise against a text. -/
def alertsFor (facts : List (MemoryId × String)) (spoken : String) : List CognitionAlert :=
  (facts.filterMap (CognitionStream.alertFor text cognitionConfig spoken)).map streamAlertToProto

/-- The alerts that a request calls for after others. -/
def alertsOf (past : List CognitionRequest) : CognitionRequest -> List CognitionAlert
  | some (CognitionPayload.token fragment) =>
      alertsFor text (factsOf env past) (spokenBy past ++ fragment)
  | some (CognitionPayload.knownFact _ _) => []
  | some CognitionPayload.endOfTurn => alertsFor text (factsOf env past) (spokenBy past)
  | some CognitionPayload.flush => [CognitionAlert.bufferFlushed (spokenBy past)]
  | none => []

/-- The alerts that some requests call for, one request after the other. -/
def alertsOfAll (past : List CognitionRequest) : List CognitionRequest -> List CognitionAlert
  | [] => []
  | request :: rest => alertsOf env text past request ++ alertsOfAll (past ++ [request]) rest

end Alerts

section Histories

variable [Scalar F] {env : AuthEnv} {config : AuthConfig} {text : TextOps F}

theorem engine_after (past : List CognitionRequest) :
    ((cognition env text).after CognitionState.start past).engine =
      streamAfter text cognitionConfig (past.filterMap engineOp) := by
  induction past using List.reverseRecOn with
  | nil => rfl
  | append_singleton past request ih =>
      have hstep : forall op, engineOp request = some op ->
          streamAfter text cognitionConfig ((past ++ [request]).filterMap engineOp) =
            (op.step text ((cognition env text).after CognitionState.start past).engine).2 := by
        intro op hop
        rw [List.filterMap_append, List.filterMap_cons_some hop, List.filterMap_nil,
          streamAfter_append_singleton, ← ih]
      have hskip : engineOp request = none ->
          streamAfter text cognitionConfig ((past ++ [request]).filterMap engineOp) =
            ((cognition env text).after CognitionState.start past).engine := by
        intro hop
        rw [List.filterMap_append, List.filterMap_cons_none hop, List.filterMap_nil,
          List.append_nil, ih]
      rw [Machine.after_concat]
      cases request with
      | none => exact (hskip rfl).symm
      | some payload =>
          cases payload with
          | token fragment => exact (hstep _ rfl).symm
          | knownFact memoryId content => exact (hskip rfl).symm
          | endOfTurn => exact (hskip rfl).symm
          | flush => exact (hstep _ rfl).symm

theorem facts_after (past : List CognitionRequest) :
    ((cognition env text).after CognitionState.start past).facts = factsOf env past := by
  induction past using List.reverseRecOn with
  | nil => rfl
  | append_singleton past request ih =>
      rw [Machine.after_concat]
      unfold factsOf at ih ⊢
      rw [List.filterMap_append, ← ih]
      cases request with
      | none => exact (List.append_nil _).symm
      | some payload =>
          cases payload with
          | token fragment => exact (List.append_nil _).symm
          | knownFact memoryId content => rfl
          | endOfTurn => exact (List.append_nil _).symm
          | flush => exact (List.append_nil _).symm

/-- A check compares the known facts with the whole text. -/
theorem checkAlerts_eq {s : CognitionStream F} (hconfig : s.config = cognitionConfig)
    (facts : List (MemoryId × String)) :
    (s.checkAlerts text facts).map streamAlertToProto = alertsFor text facts s.fullText := by
  unfold CognitionStream.checkAlerts alertsFor
  rw [hconfig]

/-- What the task sends for a request is a function of the requests so far. -/
theorem answer_after (past : List CognitionRequest) (request : CognitionRequest) :
    (cognition env text).answer ((cognition env text).after CognitionState.start past) request =
      alertsOf env text past request := by
  have hengine : ((cognition env text).after CognitionState.start past).engine =
      streamAfter text cognitionConfig (past.filterMap engineOp) := engine_after past
  have hfacts : ((cognition env text).after CognitionState.start past).facts = factsOf env past :=
    facts_after past
  generalize (cognition env text).after CognitionState.start past = s at hengine hfacts
  have hconfig : s.engine.config = cognitionConfig := by
    rw [hengine]
    exact config_streamAfter _
  have hspoken : s.engine.fullText = spokenBy past := by
    rw [hengine]
    exact fullText_streamAfter _
  cases request with
  | none => rfl
  | some payload =>
      cases payload with
      | token fragment =>
          show ((s.engine.feedToken fragment).checkAlerts text s.facts).map _ = alertsFor _ _ _
          rw [checkAlerts_eq ((CognitionStream.config_feedToken _ _).trans hconfig),
            CognitionStream.fullText_feedToken, hspoken, hfacts]
      | knownFact memoryId content => rfl
      | endOfTurn =>
          show (s.engine.checkAlerts text s.facts).map _ = alertsFor _ _ _
          rw [checkAlerts_eq hconfig, hspoken, hfacts]
      | flush => exact congrArg (fun all => [CognitionAlert.bufferFlushed all]) hspoken

theorem answers_after (past rest : List CognitionRequest) :
    (cognition env text).answers ((cognition env text).after CognitionState.start past) rest =
      alertsOfAll env text past rest := by
  induction rest generalizing past with
  | nil => rfl
  | cons request rest ih =>
      show (cognition env text).answer _ request ++ (cognition env text).answers _ rest = _
      rw [answer_after, ← Machine.after_concat, ih]
      rfl

/-- A stream is opened for those who present a token, if tokens are asked for. -/
theorem opened_of_streamCognition {authorization : Option String} {now : UInt64}
    {r : CognitionRelay F} (h : streamCognition env config authorization now = Except.ok r) :
    r = Relay.opened CognitionState.start ∧
      forall secret, config.jwtSecret = some secret -> exists token claims,
        authorization.bind bearer = some token ∧
          env.decode secret now token = Except.ok claims := by
  unfold streamCognition at h
  cases hagent : authenticateGrpcStreaming env config authorization now with
  | error status =>
      rw [hagent] at h
      cases h
  | ok agent =>
      rw [hagent] at h
      cases h
      refine ⟨rfl, ?_⟩
      intro secret hsecret
      unfold authenticateGrpcStreaming at hagent
      simp only [hsecret] at hagent
      cases htoken : authorization.bind bearer with
      | none =>
          simp only [htoken] at hagent
          cases hagent
      | some token =>
          simp only [htoken, validateToken] at hagent
          cases hdecode : env.decode secret now token with
          | error e =>
              simp only [hdecode] at hagent
              cases hagent
          | ok claims => exact ⟨token, claims, rfl, hdecode⟩

/-- However client and task take turns: only one who may open the stream does; at most as many
alerts wait as the channel holds; the client reads the alerts that the requests call for, in order
and without gaps; and when nothing can move any more, it has read them all.  Task and reader
cannot move for ever. -/
theorem cognition_is_relayed {authorization : Option String} {now : UInt64}
    {r s : CognitionRelay F} {moves : List (RelayMove CognitionRequest)}
    (hopen : streamCognition env config authorization now = Except.ok r)
    (hrun : r.run alertCapacity (cognition env text) moves = some s) :
    (forall secret, config.jwtSecret = some secret -> exists token claims,
      authorization.bind bearer = some token ∧
        env.decode secret now token = Except.ok claims) ∧
      s.channel.length <= 128 ∧
      s.taken ++ s.inbound <+: s.sent ∧
      (s.source ≠ Source.broken -> s.taken ++ s.inbound = s.sent) ∧
      s.received <+: alertsOfAll env text [] s.taken ∧
      (s.reading = true ->
        s.received ++ s.channel ++ s.task.unsent = alertsOfAll env text [] s.taken) ∧
      (s.AtRest alertCapacity (cognition env text) -> s.reading = true ->
        s.received = alertsOfAll env text [] s.taken ∧ s.inbound = [] ∧
          (s.task = RelayTask.finished <-> s.source ≠ Source.flowing)) ∧
      forall later s', (forall move, move ∈ later -> move.isInternal = true) ->
        s.run alertCapacity (cognition env text) later = some s' ->
          later.length <= s.load (cognition env text) := by
  rcases opened_of_streamCognition hopen with ⟨hstart, hentitled⟩
  rw [hstart] at hrun
  have hsound : s.Sound alertCapacity (cognition env text) CognitionState.start :=
    (Relay.sound_opened alertCapacity (cognition env text) CognitionState.start).run hrun
  have hanswers : (cognition env text).answers CognitionState.start s.taken =
      alertsOfAll env text [] s.taken := answers_after [] s.taken
  rw [← hanswers]
  refine ⟨hentitled, hsound.room, hsound.arrived, hsound.whole, hsound.received, hsound.relayed,
    ?_, ?_⟩
  · intro hrest hreading
    exact hsound.delivered (by decide) hrest hreading
  · intro later s' hinternal hlater
    exact Relay.length_le_load hinternal hlater

end Histories

/-!
## A text about a harbour
-/

def openConfig : AuthConfig where
  jwtSecret := none
  adminKey := none

/-- The client names a fact, feeds two tokens, asks for the text and closes its half. -/
def harbourMoves : List (RelayMove CognitionRequest) :=
  [RelayMove.send (some (CognitionPayload.knownFact (uuidText 7) "Turin is inland")),
    RelayMove.send (some (CognitionPayload.token "turin is ")), RelayMove.take, RelayMove.take,
    RelayMove.send (some (CognitionPayload.token "inland")), RelayMove.take, RelayMove.push,
    RelayMove.send (some CognitionPayload.flush), RelayMove.close, RelayMove.take, RelayMove.push,
    RelayMove.read, RelayMove.read, RelayMove.stop]

def harbourAlerts : List CognitionAlert :=
  [CognitionAlert.reinforcement (uuidText 7), CognitionAlert.bufferFlushed "turin is inland"]

theorem cognition_is_relayed_harbour :
    exists s : CognitionRelay Rat,
      Relay.run alertCapacity (cognition plainAuth asciiOps) (Relay.opened CognitionState.start)
        harbourMoves = some s ∧
      s.received = harbourAlerts ∧ s.received <+: alertsOfAll plainAuth asciiOps [] s.taken := by
  have hread : (Relay.run alertCapacity (cognition plainAuth asciiOps)
      (Relay.opened (CognitionState.start : CognitionState Rat)) harbourMoves).map
        Relay.received = some harbourAlerts := by
    decide +kernel
  rcases Option.map_eq_some_iff.mp hread with ⟨s, hrun, hreceived⟩
  have hopen : streamCognition plainAuth openConfig none 0 =
      Except.ok (Relay.opened (CognitionState.start : CognitionState Rat)) := rfl
  exact ⟨s, hrun, hreceived, (cognition_is_relayed hopen hrun).2.2.2.2.1⟩

end Server
end MenteDb
