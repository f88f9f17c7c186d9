import MenteDb.Cognitive.Text
import MenteDb.Foundation.Strings

/-!
# Cognition stream

Text produced by an assistant is held in a ring buffer of tokens.  A token that is
evicted goes to the accumulated text, so nothing is lost until the buffer is drained.
Alerts compare the whole text with known facts by their keywords.
-/

namespace MenteDb
namespace Cognitive

open Foundation

variable {F : Type}

inductive StreamAlert where
  | contradiction (memoryId : MemoryId) (aiSaid stored : String)
  | forgotten (memoryId : MemoryId) (summary : String)
  | correction (memoryId : MemoryId) (old new : String)
  | reinforcement (memoryId : MemoryId)
deriving DecidableEq

def StreamAlert.isContradiction : StreamAlert -> Bool
  | StreamAlert.contradiction _ _ _ => true
  | StreamAlert.forgotten _ _ => false
  | StreamAlert.correction _ _ _ => false
  | StreamAlert.reinforcement _ => false

structure StreamConfig (F : Type) where
  contradictionKeywordRatio : F
  reinforcementThreshold : F
  bufferSize : Nat

def StreamConfig.default [Scalar F] : StreamConfig F where
  contradictionKeywordRatio := ratio 1 2
  reinforcementThreshold := ratio 4 5
  bufferSize := 1000

structure CognitionStream (F : Type) where
  buffer : List String
  accumulated : String
  config : StreamConfig F

/-- {lit}`haystack.contains(needle)`. -/
def containsText (haystack needle : String) : Bool :=
  (Strings.splitOnce needle.toList haystack.toList).isSome

def negationPatterns : List String :=
  ["not ", "never ", "don't ", "doesn't ", "isn't ", "actually ", "instead "]

/-- Words of at least three bytes. -/
def factKeywords (text : TextOps F) (fact : String) : List String :=
  (text.splitWhitespace (text.toLowercase fact)).filter (fun w => decide (3 <= w.utf8ByteSize))

namespace CognitionStream

def withConfig (config : StreamConfig F) : CognitionStream F where
  buffer := []
  accumulated := ""
  config := config

/-- The oldest token makes room for the new one. -/
def evict (s : CognitionStream F) : CognitionStream F :=
  match s.buffer with
  | [] => s
  | old :: rest => { s with buffer := rest, accumulated := s.accumulated ++ old }

def feedToken (s : CognitionStream F) (token : String) : CognitionStream F :=
  if s.config.bufferSize <= s.buffer.length then
    { s.evict with buffer := s.evict.buffer ++ [token] }
  else { s with buffer := s.buffer ++ [token] }

/-- The evicted tokens and then those in the buffer. -/
def fullText (s : CognitionStream F) : String :=
  s.buffer.foldl (fun all t => all ++ t) s.accumulated

section Alerts

variable [Scalar F] (text : TextOps F) (config : StreamConfig F)

/-- The share of a fact's keywords that occur in the text. -/
def keywordRatio (fullLower : String) (keywords : List String) : F :=
  ratio (keywords.filter (containsText fullLower)).length keywords.length

/-- The alert a known fact raises. -/
def alertFor (all : String) (known : MemoryId × String) : Option StreamAlert :=
  let fullLower := text.toLowercase all
  let keywords := factKeywords text known.2
  let overlap : F := keywordRatio fullLower keywords
  if keywords.isEmpty then none
  else if config.contradictionKeywordRatio < overlap ∧
      containsText fullLower (text.toLowercase known.2) = false then
    if negationPatterns.any (containsText fullLower) then
      some (StreamAlert.contradiction known.1 all known.2)
    else if config.reinforcementThreshold < overlap then
      some (StreamAlert.reinforcement known.1)
    else none
  else if config.reinforcementThreshold < overlap then some (StreamAlert.reinforcement known.1)
  else none

def checkAlerts (s : CognitionStream F) (knownFacts : List (MemoryId × String)) :
    List StreamAlert :=
  knownFacts.filterMap (alertFor text s.config s.fullText)

end Alerts

def drainBuffer (s : CognitionStream F) : String × CognitionStream F :=
  (s.fullText, { s with buffer := [], accumulated := "" })

/-!
## Nothing is lost
-/

@[simp] theorem fullText_withConfig (config : StreamConfig F) :
    (withConfig config).fullText = "" := rfl

@[simp] theorem fullText_evict (s : CognitionStream F) : s.evict.fullText = s.fullText := by
  unfold evict
  split
  · rfl
  · rename_i old rest hbuffer
    unfold fullText
    rw [hbuffer, List.foldl_cons]

@[simp] theorem fullText_feedToken (s : CognitionStream F) (token : String) :
    (s.feedToken token).fullText = s.fullText ++ token := by
  have hpush : forall v : CognitionStream F,
      ({ v with buffer := v.buffer ++ [token] } : CognitionStream F).fullText =
        v.fullText ++ token := by
    intro v
    unfold fullText
    rw [List.foldl_append]
    rfl
  unfold feedToken
  split
  · rw [hpush, fullText_evict]
  · exact hpush s

@[simp] theorem config_feedToken (s : CognitionStream F) (token : String) :
    (s.feedToken token).config = s.config := by
  unfold feedToken evict
  split
  · split <;> rfl
  · rfl

@[simp] theorem fullText_drainBuffer (s : CognitionStream F) : s.drainBuffer.2.fullText = "" := rfl

/-- The alerts depend on the text, not on how it is spread over the buffer. -/
theorem checkAlerts_congr [Scalar F] (text : TextOps F) {s v : CognitionStream F}
    (hconfig : s.config = v.config) (htext : s.fullText = v.fullText)
    (knownFacts : List (MemoryId × String)) :
    s.checkAlerts text knownFacts = v.checkAlerts text knownFacts := by
  unfold checkAlerts
  rw [hconfig, htext]

end CognitionStream
end Cognitive
end MenteDb
