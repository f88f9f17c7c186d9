import Mathlib.Algebra.BigOperators.Group.List.Basic
import MenteDb.Cognitive.Stream
import MenteDb.Foundation.Ranking

/-!
# Pain signals

Failures that were recorded, with the words that call them to mind.  A signal that one of the
words of a context contains is warned of, the most intense and most relevant first.  A decay
takes the intensity from what the last decay left, and the age of the signal from its creation.
-/

namespace MenteDb
namespace Cognitive

open Foundation

variable {F : Type}

structure PainSignal (F : Type) where
  id : MemoryId
  memoryId : MemoryId
  intensity : F
  triggerKeywords : List String
  description : String
  createdAt : Timestamp
  decayRate : F
deriving DecidableEq

structure PainRegistry (F : Type) where
  signals : List (PainSignal F)
  maxWarnings : Nat

namespace PainRegistry

def new (maxWarnings : Nat) : PainRegistry F where
  signals := []
  maxWarnings := maxWarnings

def recordPain (r : PainRegistry F) (signal : PainSignal F) : PainRegistry F :=
  { r with signals := r.signals ++ [signal] }

section Warnings

variable [Scalar F] (text : TextOps F)

/-- The triggers that one of the words contains. -/
def matchedTriggers (words : List String) (signal : PainSignal F) : List String :=
  signal.triggerKeywords.filter (fun trigger =>
    words.any (fun word => containsText word (text.toLowercase trigger)))

/-- The intensity times the share of the triggers that matched. -/
def scoreOf (words : List String) (signal : PainSignal F) : F :=
  signal.intensity * (((matchedTriggers text words signal).length : F) /
    (max signal.triggerKeywords.length 1 : Nat))

/-- The signals that match the words, with their scores. -/
def scoredSignals (words : List String) (signals : List (PainSignal F)) :
    List (PainSignal F × F) :=
  signals.filterMap (fun signal =>
    if 0 < (matchedTriggers text words signal).length then
      some (signal, scoreOf text words signal)
    else none)

def getPainForContext (r : PainRegistry F) (contextKeywords : List String) :
    List (PainSignal F) :=
  (rank (scoredSignals text (contextKeywords.map text.toLowercase) r.signals)).map Prod.fst

end Warnings

section Decay

variable [Scalar F] (exp : F -> F)

def computeDecayed (signal : PainSignal F) (now : Timestamp) : F :=
  if now <= signal.createdAt then signal.intensity
  else signal.intensity * exp (-signal.decayRate * ((now - signal.createdAt).toNat : F))

def decayAll (r : PainRegistry F) (now : Timestamp) : PainRegistry F :=
  { r with
    signals := r.signals.map (fun s => { s with intensity := computeDecayed exp s now }) }

end Decay

end PainRegistry

/-!
## Histories
-/

inductive PainCall (F : Type) where
  | record (signal : PainSignal F)
  | decay (now : Timestamp)

/-- The database records signals only when it tracks pain. -/
structure PainTracking (F : Type) where
  enabled : Bool
  registry : PainRegistry F

namespace PainTracking

section Calls

variable [Scalar F] (text : TextOps F) (exp : F -> F)

def step (p : PainTracking F) : PainCall F -> PainTracking F
  | PainCall.record signal =>
      if p.enabled then { p with registry := p.registry.recordPain signal } else p
  | PainCall.decay now => { p with registry := p.registry.decayAll exp now }

def run (enabled : Bool) (maxWarnings : Nat) (calls : List (PainCall F)) : PainTracking F :=
  calls.foldl (step exp) { enabled := enabled, registry := PainRegistry.new maxWarnings }

omit [Scalar F] in
def allPainSignals (p : PainTracking F) : List (PainSignal F) := p.registry.signals

def getPainWarnings (p : PainTracking F) (contextKeywords : List String) : List (PainSignal F) :=
  if p.enabled then p.registry.getPainForContext text contextKeywords else []

/-- The signal, its intensity and its description. -/
structure PainWarning (F : Type) where
  signalId : MemoryId
  intensity : F
  description : String
deriving DecidableEq

omit [Scalar F] in
def warningOf (s : PainSignal F) : PainWarning F where
  signalId := s.id
  intensity := s.intensity
  description := s.description

/-- What a turn warns of: it goes through all signals by itself. -/
def checkPainSignals (p : PainTracking F) (userMessage : String) : List (PainWarning F) :=
  let contextWords := (text.splitWhitespace userMessage).map text.toLowercase
  (rank (PainRegistry.scoredSignals text contextWords p.allPainSignals)).map
    (fun scored => warningOf scored.1)

/-- What one decay leaves of a signal. -/
def decayFactor (s : PainSignal F) (now : Timestamp) : F :=
  if now <= s.createdAt then 1
  else exp (-s.decayRate * ((now - s.createdAt).toNat : F))

omit [Scalar F] in
def decayTimes (calls : List (PainCall F)) : List Timestamp :=
  calls.filterMap (fun call =>
    match call with
    | PainCall.record _ => none
    | PainCall.decay now => some now)

/-- A signal after decays. -/
def wornDown (s : PainSignal F) (times : List Timestamp) : PainSignal F :=
  { s with intensity := s.intensity * (times.map (decayFactor exp s)).prod }

/-- The recorded signals in their order, each with what all later decays left of it. -/
def recordedSignals : List (PainCall F) -> List (PainSignal F)
  | [] => []
  | PainCall.record s :: later => wornDown exp s (decayTimes later) :: recordedSignals later
  | PainCall.decay _ :: later => recordedSignals later

end Calls

section Runs

variable [Scalar F] {text : TextOps F} {exp : F -> F}

theorem computeDecayed_eq (s : PainSignal F) (now : Timestamp) :
    PainRegistry.computeDecayed exp s now = s.intensity * decayFactor exp s now := by
  unfold PainRegistry.computeDecayed decayFactor
  split
  · rw [mul_one]
  · rfl

omit [Scalar F] in
theorem decayTimes_append (calls later : List (PainCall F)) :
    decayTimes (calls ++ later) = decayTimes calls ++ decayTimes later :=
  List.filterMap_append

theorem wornDown_nil (s : PainSignal F) : wornDown exp s [] = s := by
  unfold wornDown
  rw [List.map_nil, List.prod_nil, mul_one]

theorem wornDown_append_singleton (s : PainSignal F) (times : List Timestamp) (now : Timestamp) :
    wornDown exp s (times ++ [now]) =
      { wornDown exp s times with
        intensity := PainRegistry.computeDecayed exp (wornDown exp s times) now } := by
  rw [computeDecayed_eq]
  unfold wornDown
  rw [List.map_append, List.prod_append, List.map_singleton, List.prod_singleton, ← mul_assoc]
  rfl

theorem recordedSignals_record (calls : List (PainCall F)) (s : PainSignal F) :
    recordedSignals exp (calls ++ [PainCall.record s]) = recordedSignals exp calls ++ [s] := by
  induction calls with
  | nil => exact congrArg (fun first => [first]) (wornDown_nil s)
  | cons call rest ih =>
      cases call with
      | record first =>
          show wornDown exp first (decayTimes (rest ++ [PainCall.record s])) ::
            recordedSignals exp (rest ++ [PainCall.record s]) = _
          rw [ih, decayTimes_append]
          exact congrArg (fun times => wornDown exp first times :: _) (List.append_nil _)
      | decay now => exact ih

theorem recordedSignals_decay (calls : List (PainCall F)) (now : Timestamp) :
    recordedSignals exp (calls ++ [PainCall.decay now]) =
      (recordedSignals exp calls).map (fun s =>
        { s with intensity := PainRegistry.computeDecayed exp s now }) := by
  induction calls with
  | nil => rfl
  | cons call rest ih =>
      cases call with
      | record first =>
          show wornDown exp first (decayTimes (rest ++ [PainCall.decay now])) ::
            recordedSignals exp (rest ++ [PainCall.decay now]) = _
          rw [ih, decayTimes_append]
          exact congrArg (fun s => s :: _) (wornDown_append_singleton first _ now)
      | decay earlier => exact ih

theorem run_append_singleton (enabled : Bool) (maxWarnings : Nat) (past : List (PainCall F))
    (call : PainCall F) :
    run exp enabled maxWarnings (past ++ [call]) =
      step exp (run exp enabled maxWarnings past) call := by
  unfold run
  rw [List.foldl_append]
  rfl

theorem enabled_step (p : PainTracking F) (call : PainCall F) :
    (step exp p call).enabled = p.enabled := by
  cases call with
  | record s =>
      show (if p.enabled then _ else p).enabled = p.enabled
      split <;> rfl
  | decay now => rfl

theorem enabled_run (enabled : Bool) (maxWarnings : Nat) (calls : List (PainCall F)) :
    (run exp enabled maxWarnings calls).enabled = enabled := by
  induction calls using List.reverseRecOn with
  | nil => rfl
  | append_singleton past call ih =>
      rw [run_append_singleton, enabled_step]
      exact ih

/-- Without tracking there is never a signal. -/
theorem signals_run (enabled : Bool) (maxWarnings : Nat) (calls : List (PainCall F)) :
    (run exp enabled maxWarnings calls).registry.signals =
      if enabled then recordedSignals exp calls else [] := by
  induction calls using List.reverseRecOn with
  | nil => cases enabled <;> rfl
  | append_singleton past call ih =>
      have henabled : (run exp enabled maxWarnings past).enabled = enabled :=
        enabled_run enabled maxWarnings past
      rw [run_append_singleton]
      cases call with
      | record s =>
          unfold step
          rw [henabled, recordedSignals_record]
          cases enabled with
          | false => exact ih
          | true => exact congrArg (fun signals => signals ++ [s]) ih
      | decay now =>
          rw [recordedSignals_decay]
          show List.map _ (run exp enabled maxWarnings past).registry.signals = _
          rw [ih]
          cases enabled <;> rfl

theorem mem_scoredSignals {words : List String} {signals : List (PainSignal F)}
    {s : PainSignal F} {score : F} :
    (s, score) ∈ PainRegistry.scoredSignals text words signals <->
      s ∈ signals ∧
        (exists trigger word, trigger ∈ s.triggerKeywords ∧ word ∈ words ∧
          containsText word (text.toLowercase trigger) = true) ∧
        score = PainRegistry.scoreOf text words s := by
  have hpos : 0 < (PainRegistry.matchedTriggers text words s).length <->
      exists trigger word, trigger ∈ s.triggerKeywords ∧ word ∈ words ∧
        containsText word (text.toLowercase trigger) = true := by
    unfold PainRegistry.matchedTriggers
    rw [List.length_pos_iff_exists_mem]
    simp only [List.mem_filter, List.any_eq_true]
    constructor
    · rintro ⟨trigger, htrigger, word, hword, hin⟩
      exact ⟨trigger, word, htrigger, hword, hin⟩
    · rintro ⟨trigger, word, htrigger, hword, hin⟩
      exact ⟨trigger, htrigger, word, hword, hin⟩
  unfold PainRegistry.scoredSignals
  rw [List.mem_filterMap, ← hpos]
  constructor
  · rintro ⟨s', hs', hscore⟩
    split at hscore
    · rename_i hmatched
      cases hscore
      exact ⟨hs', hmatched, rfl⟩
    · cases hscore
  · rintro ⟨hs, hmatched, hscore⟩
    refine ⟨s, hs, ?_⟩
    rw [if_pos hmatched, hscore]

/-- After any calls the signals are the recorded ones, worn down by every later decay.  A context
is warned of exactly the signals with a trigger in one of its words, by falling score, and a turn
is warned of the same signals as a query with its words. -/
theorem pain_is_remembered (enabled : Bool) (maxWarnings : Nat) (calls : List (PainCall F)) :
    let p := run exp enabled maxWarnings calls
    p.allPainSignals = (if enabled then recordedSignals exp calls else []) ∧
      (forall contextKeywords s, s ∈ p.getPainWarnings text contextKeywords <->
        s ∈ p.allPainSignals ∧ exists trigger word, trigger ∈ s.triggerKeywords ∧
          word ∈ contextKeywords ∧
            containsText (text.toLowercase word) (text.toLowercase trigger) = true) ∧
      (forall contextKeywords, (p.getPainWarnings text contextKeywords).Pairwise (fun a b =>
        PainRegistry.scoreOf text (contextKeywords.map text.toLowercase) b <=
          PainRegistry.scoreOf text (contextKeywords.map text.toLowercase) a)) ∧
      forall message, p.checkPainSignals text message =
        (p.getPainWarnings text (text.splitWhitespace message)).map warningOf := by
  dsimp only
  have hsignals : (run exp enabled maxWarnings calls).registry.signals =
      if enabled then recordedSignals exp calls else [] := signals_run enabled maxWarnings calls
  have henabled : (run exp enabled maxWarnings calls).enabled = enabled :=
    enabled_run enabled maxWarnings calls
  have hnone : enabled = false -> (run exp enabled maxWarnings calls).registry.signals = [] := by
    intro hoff
    rw [hsignals, hoff]
    rfl
  have hwarned : forall contextKeywords,
      (run exp enabled maxWarnings calls).getPainWarnings text contextKeywords =
        (rank (PainRegistry.scoredSignals text (contextKeywords.map text.toLowercase)
          (run exp enabled maxWarnings calls).registry.signals)).map Prod.fst := by
    intro contextKeywords
    unfold getPainWarnings
    rw [henabled]
    cases enabled with
    | true => rfl
    | false =>
        rw [hnone rfl]
        rfl
  refine ⟨hsignals, ?_, ?_, ?_⟩
  · intro contextKeywords s
    rw [hwarned, List.mem_map]
    constructor
    · rintro ⟨⟨s', score⟩, hmem, rfl⟩
      rcases mem_scoredSignals.mp (mem_rank.mp hmem) with ⟨hs, ⟨trigger, word, ht, hw, hin⟩, _⟩
      rcases List.mem_map.mp hw with ⟨raw, hraw, rfl⟩
      exact ⟨hs, trigger, raw, ht, hraw, hin⟩
    · rintro ⟨hs, trigger, word, ht, hw, hin⟩
      refine ⟨(s, _), mem_rank.mpr (mem_scoredSignals.mpr ⟨hs, ?_, rfl⟩), rfl⟩
      exact ⟨trigger, _, ht, List.mem_map_of_mem hw, hin⟩
  · intro contextKeywords
    rw [hwarned, List.pairwise_map]
    have hsorted := pairwise_rank (PainRegistry.scoredSignals text
      (contextKeywords.map text.toLowercase) (run exp enabled maxWarnings calls).registry.signals)
    refine hsorted.imp_of_mem ?_
    intro a b ha hb hle
    rw [(mem_scoredSignals.mp (mem_rank.mp ha)).2.2,
      (mem_scoredSignals.mp (mem_rank.mp hb)).2.2] at hle
    exact hle
  · intro message
    rw [hwarned, List.map_map]
    rfl

end Runs

end PainTracking
end Cognitive
end MenteDb
