import Mathlib.Data.List.Induction
import MenteDb.Cognitive.Stream

/-!
# The text of a stream

What a stream answers depends on the tokens that were fed since it was drained, and on nothing
else: not on the size of its buffer, and not on the checks in between.
-/

namespace MenteDb
namespace Cognitive

open Foundation

inductive StreamOp where
  | feedToken (token : String)
  | checkAlerts (knownFacts : List (MemoryId × String))
  | drainBuffer

inductive StreamOutput where
  | done
  | alerts (raised : List StreamAlert)
  | drained (all : String)
deriving DecidableEq

namespace StreamOp

variable {F : Type}

def isDrain : StreamOp -> Bool
  | feedToken _ => false
  | checkAlerts _ => false
  | drainBuffer => true

def token? : StreamOp -> Option String
  | feedToken token => some token
  | checkAlerts _ => none
  | drainBuffer => none

def step [Scalar F] (text : TextOps F) (s : CognitionStream F) :
    StreamOp -> StreamOutput × CognitionStream F
  | feedToken token => (StreamOutput.done, s.feedToken token)
  | checkAlerts knownFacts => (StreamOutput.alerts (s.checkAlerts text knownFacts), s)
  | drainBuffer => (StreamOutput.drained s.drainBuffer.1, s.drainBuffer.2)

/-- What is answered when some text was fed. -/
def answer [Scalar F] (text : TextOps F) (config : StreamConfig F) (fed : String) :
    StreamOp -> StreamOutput
  | feedToken _ => StreamOutput.done
  | checkAlerts knownFacts =>
      StreamOutput.alerts (knownFacts.filterMap (CognitionStream.alertFor text config fed))
  | drainBuffer => StreamOutput.drained fed

end StreamOp

/-- The operations since the last drain. -/
def sinceDrain (ops : List StreamOp) : List StreamOp :=
  (ops.reverse.takeWhile (fun op => !op.isDrain)).reverse

/-- The tokens fed since the last drain, one after the other. -/
def fedText (ops : List StreamOp) : String :=
  String.join ((sinceDrain ops).filterMap StreamOp.token?)

section Histories

variable {F : Type} [Scalar F] {text : TextOps F} {config : StreamConfig F}

def streamAfter (text : TextOps F) (config : StreamConfig F) (ops : List StreamOp) :
    CognitionStream F :=
  ops.foldl (fun s op => (op.step text s).2) (CognitionStream.withConfig config)

theorem streamAfter_append_singleton (past : List StreamOp) (op : StreamOp) :
    streamAfter text config (past ++ [op]) = (op.step text (streamAfter text config past)).2 := by
  unfold streamAfter
  rw [List.foldl_append]
  rfl

theorem sinceDrain_append_singleton (past : List StreamOp) (op : StreamOp) :
    sinceDrain (past ++ [op]) = if op.isDrain then [] else sinceDrain past ++ [op] := by
  unfold sinceDrain
  rw [List.reverse_append, List.reverse_singleton, List.singleton_append, List.takeWhile_cons]
  cases op.isDrain with
  | true => rfl
  | false => exact List.reverse_cons

theorem fedText_append_singleton (past : List StreamOp) (op : StreamOp) :
    fedText (past ++ [op]) =
      if op.isDrain then "" else fedText past ++ op.token?.getD "" := by
  unfold fedText
  rw [sinceDrain_append_singleton]
  cases op with
  | feedToken token =>
      show String.join ((sinceDrain past ++ [StreamOp.feedToken token]).filterMap _) = _
      rw [List.filterMap_append]
      unfold String.join
      exact List.foldl_append
  | checkAlerts knownFacts =>
      show String.join ((sinceDrain past ++ [StreamOp.checkAlerts knownFacts]).filterMap _) = _
      rw [List.filterMap_append]
      show String.join (_ ++ []) = _ ++ ""
      rw [List.append_nil, String.append_empty]
  | drainBuffer => rfl

theorem config_streamAfter (ops : List StreamOp) :
    (streamAfter text config ops).config = config := by
  induction ops using List.reverseRecOn with
  | nil => rfl
  | append_singleton past op ih =>
      rw [streamAfter_append_singleton]
      cases op with
      | feedToken token => exact (CognitionStream.config_feedToken _ token).trans ih
      | checkAlerts knownFacts => exact ih
      | drainBuffer => exact ih

/-- Whatever the size of the buffer, the evicted tokens and those in it are the text. -/
theorem fullText_streamAfter (ops : List StreamOp) :
    (streamAfter text config ops).fullText = fedText ops := by
  induction ops using List.reverseRecOn with
  | nil => rfl
  | append_singleton past op ih =>
      rw [streamAfter_append_singleton, fedText_append_singleton]
      cases op with
      | feedToken token =>
          show ((streamAfter text config past).feedToken token).fullText = fedText past ++ token
          rw [CognitionStream.fullText_feedToken, ih]
      | checkAlerts knownFacts =>
          show (streamAfter text config past).fullText = fedText past ++ ""
          rw [ih, String.append_empty]
      | drainBuffer => exact CognitionStream.fullText_drainBuffer _

/-- After any history a drain returns the tokens fed since the last one, and a check examines that
text and leaves the stream as it was. -/
theorem streamed_text_is_kept (text : TextOps F) (config : StreamConfig F)
    (ops : List StreamOp) :
    (forall op : StreamOp,
      (op.step text (streamAfter text config ops)).1 = op.answer text config (fedText ops)) ∧
    forall knownFacts, streamAfter text config (ops ++ [StreamOp.checkAlerts knownFacts]) =
      streamAfter text config ops := by
  constructor
  · intro op
    cases op with
    | feedToken token => rfl
    | checkAlerts knownFacts =>
        show StreamOutput.alerts (knownFacts.filterMap (CognitionStream.alertFor text _ _)) = _
        rw [config_streamAfter, fullText_streamAfter]
        rfl
    | drainBuffer => exact congrArg StreamOutput.drained (fullText_streamAfter ops)
  · intro knownFacts
    exact streamAfter_append_singleton ops (StreamOp.checkAlerts knownFacts)

end Histories

end Cognitive
end MenteDb
