import Mathlib.Algebra.Order.BigOperators.Group.List
import MenteDb.Cognitive.Text
import MenteDb.Foundation.Assoc
import MenteDb.Foundation.Outcome
import MenteDb.Foundation.Overflow
import MenteDb.Foundation.Ranking

/-!
# Trajectories

The last turns of a conversation, and how often one topic followed another over all of them.
Topics are written in lower case with single blanks; a topic that was given a label is counted
under the label.
-/

namespace MenteDb
namespace Cognitive

open Foundation

variable {F : Type}

inductive DecisionState where
  | investigating
  | narrowedTo (choice : String)
  | decided (decision : String)
  | interrupted
  | completed
deriving DecidableEq

structure TrajectoryNode (F : Type) where
  turnId : UInt64
  topicEmbedding : List F
  topicSummary : String
  decisionState : DecisionState
  openQuestions : List String
  timestamp : Timestamp
deriving DecidableEq

def reinforcementBonus : Nat := 2

def normalizeTopic (text : TextOps F) (raw : String) : String :=
  " ".intercalate ((text.splitWhitespace raw).map text.toLowercase)

/-- The tables of a hash map are listed in the order in which their keys were first inserted. -/
structure TransitionMap where
  transitions : Assoc String (Assoc String Nat)
  topicCache : Assoc String String

namespace TransitionMap

def default : TransitionMap where
  transitions := Assoc.empty
  topicCache := Assoc.empty

/-- How often a topic followed another, if it did. -/
def count (m : TransitionMap) (source target : String) : Option Nat :=
  (m.transitions.find? source).bind (fun targets => targets.find? target)

section Topics

variable (text : TextOps F) (build : Build)

def resolveTopic (m : TransitionMap) (raw : String) : String :=
  (m.topicCache.find? (normalizeTopic text raw)).getD (normalizeTopic text raw)

/-- Adds to the count of a transition; the counts have 32 bits. -/
def addTo (bonus : Nat) (m : TransitionMap) (source target : String) : Option TransitionMap :=
  let source := m.resolveTopic text source
  let target := m.resolveTopic text target
  let targets := (m.transitions.find? source).getD Assoc.empty
  (build.addU32 ((targets.find? target).getD 0) bonus).map (fun n =>
    { m with transitions := m.transitions.insert source (targets.insert target n) })

def record (m : TransitionMap) (source target : String) : Option TransitionMap :=
  addTo text build 1 m source target

def reinforce (m : TransitionMap) (source target : String) : Option TransitionMap :=
  addTo text build reinforcementBonus m source target

def decay (m : TransitionMap) (source target : String) : TransitionMap :=
  let source := m.resolveTopic text source
  let target := m.resolveTopic text target
  match m.transitions.find? source with
  | none => m
  | some targets =>
      let left :=
        match targets.find? target with
        | none => targets
        | some n => if n - 1 = 0 then targets.erase target else targets.insert target (n - 1)
      if left.entries.isEmpty then { m with transitions := m.transitions.erase source }
      else { m with transitions := m.transitions.insert source left }

/-- The most frequent first; equals in the order of the hash table. -/
def predictFrom (o : HashOrder) (m : TransitionMap) (topic : String) (limit : Nat) :
    List (String × Nat) :=
  match m.transitions.find? (m.resolveTopic text topic) with
  | none => []
  | some targets =>
      ((o.order targets.entries).mergeSort (fun a b => decide (b.2 <= a.2))).take limit

def learnCanonical (m : TransitionMap) (raw canonical : String) : TransitionMap :=
  if normalizeTopic text raw ≠ normalizeTopic text canonical then
    { m with
      topicCache := m.topicCache.insert (normalizeTopic text raw) (normalizeTopic text canonical) }
  else m

def getCanonical (m : TransitionMap) (raw : String) : Option String :=
  m.topicCache.find? (normalizeTopic text raw)

/-- The labels, and the topics that were counted. -/
def knownTopics (m : TransitionMap) : List String :=
  (m.topicCache.entries.map Prod.snd ++
    m.transitions.entries.flatMap (fun e => e.1 :: e.2.keys)).eraseDups.mergeSort
      (fun a b => decide (a <= b))

def totalTransitions (m : TransitionMap) : Nat :=
  (m.transitions.entries.map (fun e => e.2.entries.length)).sum

end Topics

/-!
## Counts
-/

theorem find?_targets (m : TransitionMap) (source target : String) :
    ((m.transitions.find? source).getD Assoc.empty).find? target = m.count source target := by
  unfold count
  cases m.transitions.find? source with
  | none => rfl
  | some targets => rfl

/-- One count changes, and no label. -/
theorem addTo_eq_some {text : TextOps F} {build : Build} {bonus : Nat} {m m' : TransitionMap}
    {source target : String} (h : addTo text build bonus m source target = some m') :
    m'.topicCache = m.topicCache ∧
      exists n, build.addU32
        ((m.count (m.resolveTopic text source) (m.resolveTopic text target)).getD 0) bonus =
          some n ∧
      forall a b, m'.count a b =
        if a = m.resolveTopic text source ∧ b = m.resolveTopic text target then some n
        else m.count a b := by
  rcases Option.map_eq_some_iff.mp h with ⟨n, hn, heq⟩
  rw [find?_targets] at hn
  rw [← heq]
  refine ⟨rfl, n, hn, ?_⟩
  intro a b
  unfold count
  rw [Assoc.find?_insert]
  by_cases ha : a = m.resolveTopic text source
  · rw [if_pos ha, Option.bind_some, Assoc.find?_insert]
    by_cases hb : b = m.resolveTopic text target
    · rw [if_pos hb, if_pos ⟨ha, hb⟩]
    · rw [if_neg hb, if_neg (fun h => hb h.2), find?_targets, ha]
      rfl
  · rw [if_neg ha, if_neg (fun h => ha h.1)]

theorem addTo_isSome_iff {text : TextOps F} {build : Build} {bonus : Nat} {m : TransitionMap}
    {source target : String} :
    (addTo text build bonus m source target).isSome = true <->
      (build.addU32
        ((m.count (m.resolveTopic text source) (m.resolveTopic text target)).getD 0)
          bonus).isSome = true := by
  unfold addTo
  rw [Option.isSome_map, find?_targets]

@[simp] theorem topicCache_decay (text : TextOps F) (m : TransitionMap) (source target : String) :
    (m.decay text source target).topicCache = m.topicCache := by
  unfold decay
  simp only
  split
  · rfl
  · rw [apply_ite topicCache, ite_self]

theorem resolveTopic_congr {text : TextOps F} {m m' : TransitionMap}
    (h : m'.topicCache = m.topicCache) (raw : String) :
    m'.resolveTopic text raw = m.resolveTopic text raw := by
  unfold resolveTopic
  rw [h]

/-- Without a limit every count is reported. -/
theorem mem_predictFrom {text : TextOps F} {o : HashOrder} {m : TransitionMap}
    {topic : String} {limit : Nat} (hlimit : m.totalTransitions <= limit) {target : String}
    {n : Nat} :
    (target, n) ∈ m.predictFrom text o topic limit <->
      m.count (m.resolveTopic text topic) target = some n := by
  unfold predictFrom count
  cases htargets : m.transitions.find? (m.resolveTopic text topic) with
  | none => simp
  | some targets =>
      have hmem := Assoc.find?_eq_some_iff.mp htargets
      have hlength : targets.entries.length <= m.totalTransitions := by
        unfold totalTransitions
        exact List.single_le_sum (fun _ _ => Nat.zero_le _) _ (List.mem_map.mpr ⟨_, hmem, rfl⟩)
      simp only [Option.bind_some]
      have horder := (o.perm targets.entries).length_eq
      rw [List.take_of_length_le (by rw [List.length_mergeSort]; omega), List.mem_mergeSort,
        HashOrder.mem_order, Assoc.find?_eq_some_iff]

end TransitionMap

structure TrajectoryTracker (F : Type) where
  trajectory : List (TrajectoryNode F)
  maxTurns : Nat
  transitions : TransitionMap

namespace TrajectoryTracker

def new (maxTurns : Nat) : TrajectoryTracker F where
  trajectory := []
  maxTurns := maxTurns
  transitions := TransitionMap.default

section Turns

variable (text : TextOps F) (build : Build)

/-- {lit}`Vec::remove(0)`, which panics on an empty list. -/
def removeFirst (turns : List (TrajectoryNode F)) : Option (List (TrajectoryNode F)) :=
  match turns with
  | [] => none
  | _ :: rest => some rest

def recordTurn (t : TrajectoryTracker F) (turn : TrajectoryNode F) :
    Option (TrajectoryTracker F) :=
  let counted :=
    match t.trajectory.getLast? with
    | none => some t.transitions
    | some prev => t.transitions.record text build prev.topicSummary turn.topicSummary
  counted.bind (fun transitions =>
    (if t.maxTurns <= t.trajectory.length then removeFirst t.trajectory
      else some t.trajectory).map (fun kept =>
        { t with trajectory := kept ++ [turn], transitions := transitions }))

def reinforceTransition (t : TrajectoryTracker F) (hitTopic : String) :
    Option (TrajectoryTracker F) :=
  match t.trajectory.getLast? with
  | none => some t
  | some last =>
      (t.transitions.reinforce text build last.topicSummary hitTopic).map (fun transitions =>
        { t with transitions := transitions })

/-- The label of a topic: from the cache, or from the model, which is asked with the topics that
are known. -/
def canonicalizeTopic (llm : String -> List String -> Option String)
    (m : TransitionMap) (raw : String) : String × TransitionMap :=
  match m.getCanonical text raw with
  | some cached => (cached, m)
  | none =>
      match llm raw m.knownTopics with
      | some label => (normalizeTopic text label, m.learnCanonical text raw label)
      | none => (normalizeTopic text raw, m)

def recordTurnWithLlm (llm : String -> List String -> Option String)
    (t : TrajectoryTracker F) (turn : TrajectoryNode F) : Option (TrajectoryTracker F) :=
  let canonical := canonicalizeTopic text llm t.transitions turn.topicSummary
  recordTurn text build { t with transitions := canonical.2 }
    { turn with topicSummary := canonical.1 }

end Turns

end TrajectoryTracker
end Cognitive
end MenteDb
