import MenteDb.Cognitive.Stream
import MenteDb.Facade.Context
import MenteDb.Facade.EntityExtraction

/-!
# Contradictions counted in a turn

A turn with a context feeds the assistant's response to the stream of the database and
counts the contradictions it raises.  No turn drains the stream: what earlier turns and
other callers fed since the last drain is compared with the context again.
-/

namespace MenteDb
namespace Facade

open Foundation
open Cognitive
open MenteDb.Context

variable {F : Type}

/-- What a turn checks the stream against. -/
def knownFacts (context : List (ScoredMemory F)) : List (MemoryId × String) :=
  context.map (fun sm => (sm.1.id, sm.1.content))

section Checks

variable [Scalar F] (text : TextOps F)

def countContradictions (alerts : List StreamAlert) : Nat :=
  (alerts.filter StreamAlert.isContradiction).length

/-- The contradictions of a turn, and the stream it leaves. -/
def checkStream (stream : CognitionStream F) (assistantResp : String)
    (context : List (ScoredMemory F)) : Nat × CognitionStream F :=
  if (knownFacts context).isEmpty then (0, stream)
  else
    (countContradictions ((stream.feedToken assistantResp).checkAlerts text (knownFacts context)),
      stream.feedToken assistantResp)

/-- The contradictions a new stream raises for a text. -/
def freshContradictions (config : StreamConfig F) (said : String)
    (context : List (ScoredMemory F)) : Nat :=
  countContradictions (((CognitionStream.withConfig config).feedToken said).checkAlerts text
    (knownFacts context))

/-- What uses the stream of a database. -/
inductive StreamCall (F : Type) where
  | turn (assistantResponse : Option String) (context : List (ScoredMemory F))
  | feed (token : String)
  | check (facts : List (MemoryId × String))
  | drain

namespace StreamCall

def step (stream : CognitionStream F) : StreamCall F -> CognitionStream F
  | turn response context => (checkStream text stream (response.getD "") context).2
  | feed token => stream.feedToken token
  | check _ => stream
  | drain => stream.drainBuffer.2

omit [Scalar F] in
/-- The text since the last drain, after a call. -/
def pending (said : String) : StreamCall F -> String
  | turn response context => if context.isEmpty then said else said ++ response.getD ""
  | feed token => said ++ token
  | check _ => said
  | drain => ""

end StreamCall

/-- The text fed since the last drain. -/
def pendingText (calls : List (StreamCall F)) : String := calls.foldl StreamCall.pending ""

end Checks

section History

variable [Scalar F] {text : TextOps F}

theorem config_step (stream : CognitionStream F) (call : StreamCall F) :
    (StreamCall.step text stream call).config = stream.config := by
  cases call with
  | turn response context =>
      simp only [StreamCall.step, checkStream]
      split
      · rfl
      · exact CognitionStream.config_feedToken _ _
  | feed token => exact CognitionStream.config_feedToken _ _
  | check facts => rfl
  | drain => rfl

/-- Each call leaves the text it should. -/
theorem fullText_step (stream : CognitionStream F) (call : StreamCall F) :
    (StreamCall.step text stream call).fullText = call.pending stream.fullText := by
  cases call with
  | turn response context =>
      cases context with
      | nil => rfl
      | cons first rest => exact CognitionStream.fullText_feedToken _ _
  | feed token => exact CognitionStream.fullText_feedToken _ _
  | check facts => rfl
  | drain => rfl

/-- After any history the stream holds the text fed since the last drain. -/
theorem stream_after (text : TextOps F) (config : StreamConfig F) (calls : List (StreamCall F)) :
    (calls.foldl (StreamCall.step text) (CognitionStream.withConfig config)).config = config ∧
      (calls.foldl (StreamCall.step text) (CognitionStream.withConfig config)).fullText =
        pendingText calls := by
  induction calls using List.reverseRecOn with
  | nil => exact ⟨rfl, rfl⟩
  | append_singleton past call ih =>
      unfold pendingText
      rw [List.foldl_append, List.foldl_append]
      constructor
      · exact (config_step _ call).trans ih.1
      · refine (fullText_step _ call).trans ?_
        rw [ih.2]
        rfl

/-- After any history, a turn counts what a new stream would raise for the text fed since the
last drain and the response together. -/
theorem contradictions_of_pending (config : StreamConfig F) (calls : List (StreamCall F))
    (response : Option String) (context : List (ScoredMemory F)) :
    (checkStream text (calls.foldl (StreamCall.step text) (CognitionStream.withConfig config))
      (response.getD "") context).1 =
        freshContradictions text config (pendingText calls ++ response.getD "") context := by
  rcases stream_after text config calls with ⟨hconfig, htext⟩
  cases context with
  | nil => rfl
  | cons first rest =>
      show countContradictions _ = countContradictions _
      congr 1
      apply CognitionStream.checkAlerts_congr
      · rw [CognitionStream.config_feedToken, CognitionStream.config_feedToken, hconfig]
        rfl
      · rw [CognitionStream.fullText_feedToken, CognitionStream.fullText_feedToken, htext,
          CognitionStream.fullText_withConfig, String.empty_append]

end History

section Examples

/-- Cuts at white space; the texts below are in lower case. -/
def lowerText : TextOps Rat :=
  TextOps.atWhitespace
    { splitWhitespace := fun s => [s]
      toLowercase := fun s => s
      trim := fun s => s
      fixed2 := fun _ => "1.00"
      fixed3 := fun _ => "1.000" }

def postgresContext : List (ScoredMemory Rat) :=
  [(MemoryNode.new ⟨7⟩ 1000 AgentId.nil MemoryType.semantic "the system uses postgresql" [], 1)]

/-- The negation of an earlier turn makes the next response a contradiction. -/
theorem contradictions_not_local :
    (checkStream lowerText
      ([StreamCall.turn (some "i do not know. ") postgresContext].foldl
        (StreamCall.step lowerText) (CognitionStream.withConfig StreamConfig.default))
      "the system uses mysql" postgresContext).1 = 1 ∧
    freshContradictions lowerText StreamConfig.default "the system uses mysql"
      postgresContext = 0 := by
  constructor
  · decide +kernel
  · decide +kernel

end Examples

end Facade
end MenteDb
