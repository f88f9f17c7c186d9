import Mathlib.Data.List.Induction
import MenteDb.Cognitive.Trajectory

/-!
# Recorded conversations

A tracker remembers the last turns of a conversation, as many as it has room for, and counts
every pair of turns that follow each other.
-/

namespace MenteDb
namespace Cognitive

open Foundation

variable {F : Type}

namespace TrajectoryTracker

/-- A new tracker whose topics already have labels. -/
def labelled (maxTurns : Nat) (labels : Assoc String String) : TrajectoryTracker F :=
  { new maxTurns with transitions := { TransitionMap.default with topicCache := labels } }

/-- How often a turn on one topic was followed by a turn on another. -/
def pairsOf (topic : String -> String) (turns : List (TrajectoryNode F))
    (source target : String) : Nat :=
  (turns.zip turns.tail).countP (fun p =>
    decide (topic p.1.topicSummary = source ∧ topic p.2.topicSummary = target))

/-- The last turns, at most so many. -/
def lastTurns (maxTurns : Nat) (turns : List (TrajectoryNode F)) : List (TrajectoryNode F) :=
  turns.drop (turns.length - min turns.length maxTurns)

/-!
## One more turn
-/

theorem zip_tail_append {α : Type} (xs : List α) (x y : α) :
    (xs ++ [x] ++ [y]).zip (xs ++ [x] ++ [y]).tail =
      (xs ++ [x]).zip (xs ++ [x]).tail ++ [(x, y)] := by
  induction xs with
  | nil => rfl
  | cons z rest ih =>
      cases rest with
      | nil => rfl
      | cons w more =>
          simp only [List.cons_append, List.tail_cons, List.zip_cons_cons] at ih ⊢
          rw [ih]

theorem pairsOf_append (topic : String -> String) (turns : List (TrajectoryNode F))
    (prev turn : TrajectoryNode F) (source target : String) :
    pairsOf topic (turns ++ [prev] ++ [turn]) source target =
      pairsOf topic (turns ++ [prev]) source target +
        (if topic prev.topicSummary = source ∧ topic turn.topicSummary = target then 1 else 0) := by
  unfold pairsOf
  rw [zip_tail_append, List.countP_append, List.countP_singleton]
  simp only [decide_eq_true_eq]

theorem lastTurns_append {maxTurns : Nat} (hroom : 1 <= maxTurns)
    (turns : List (TrajectoryNode F)) (turn : TrajectoryNode F) :
    lastTurns maxTurns (turns ++ [turn]) =
      (if maxTurns <= (lastTurns maxTurns turns).length then (lastTurns maxTurns turns).tail
        else lastTurns maxTurns turns) ++ [turn] := by
  unfold lastTurns
  rw [List.length_drop, List.length_append, List.length_singleton]
  rcases Nat.lt_or_ge turns.length maxTurns with hlt | hge
  · have h1 : turns.length + 1 - min (turns.length + 1) maxTurns = 0 := by omega
    have h2 : turns.length - min turns.length maxTurns = 0 := by omega
    rw [h1, h2, if_neg (by omega)]
    rfl
  · have h1 : turns.length + 1 - min (turns.length + 1) maxTurns = turns.length + 1 - maxTurns := by
      omega
    have h2 : turns.length - min turns.length maxTurns = turns.length - maxTurns := by omega
    have h3 : turns.length + 1 - maxTurns = turns.length - maxTurns + 1 := by omega
    rw [h1, h2, if_pos (by omega), List.drop_append_of_le_length (by omega), h3, List.tail_drop]

theorem getLast?_lastTurns {maxTurns : Nat} (hroom : 1 <= maxTurns)
    (turns : List (TrajectoryNode F)) : (lastTurns maxTurns turns).getLast? = turns.getLast? := by
  unfold lastTurns
  cases turns with
  | nil => rfl
  | cons turn rest =>
      rw [List.getLast?_drop, if_neg]
      simp only [List.length_cons]
      omega

/-!
## The whole conversation
-/

section Conversation

variable (text : TextOps F) (build : Build)

def recordTurns (t : TrajectoryTracker F) (turns : List (TrajectoryNode F)) :
    Option (TrajectoryTracker F) :=
  turns.foldlM (recordTurn text build) t

theorem recordTurns_append (t : TrajectoryTracker F) (turns : List (TrajectoryNode F))
    (turn : TrajectoryNode F) :
    recordTurns text build t (turns ++ [turn]) =
      (recordTurns text build t turns).bind (fun t' => recordTurn text build t' turn) := by
  unfold recordTurns
  rw [List.foldlM_append]
  cases turns.foldlM (recordTurn text build) t with
  | none => rfl
  | some t' =>
      show (recordTurn text build t' turn).bind some = recordTurn text build t' turn
      cases recordTurn text build t' turn with
      | none => rfl
      | some t'' => rfl

/-- The topic that a turn is counted under. -/
def topicUnder (labels : Assoc String String) : String -> String :=
  TransitionMap.resolveTopic text { TransitionMap.default with topicCache := labels }

/-- What a tracker is after a conversation: the last turns, and every pair counted, up to the
width of the counts. -/
structure Tracks (labels : Assoc String String) (maxTurns : Nat)
    (turns : List (TrajectoryNode F)) (t : TrajectoryTracker F) : Prop where
  trajectory : t.trajectory = lastTurns maxTurns turns
  room : t.maxTurns = maxTurns
  cached : t.transitions.topicCache = labels
  counts : forall source target, (t.transitions.count source target).getD 0 =
    pairsOf (topicUnder text labels) turns source target % 2 ^ 32

variable {text} {build} {labels : Assoc String String} {maxTurns : Nat}

theorem Tracks.resolveTopic {turns : List (TrajectoryNode F)} {t : TrajectoryTracker F}
    (h : Tracks text labels maxTurns turns t) (raw : String) :
    t.transitions.resolveTopic text raw = topicUnder text labels raw :=
  TransitionMap.resolveTopic_congr h.cached raw

theorem tracks_labelled :
    Tracks text labels maxTurns [] (labelled maxTurns labels : TrajectoryTracker F) :=
  ⟨rfl, rfl, rfl, fun _ _ => rfl⟩

/-- The first turn of a conversation is not counted. -/
theorem recordTurn_first (hroom : 1 <= maxTurns) (turn : TrajectoryNode F) :
    recordTurn text build (labelled maxTurns labels) turn =
      some { (labelled maxTurns labels : TrajectoryTracker F) with trajectory := [turn] } := by
  have hempty : ¬ maxTurns <= (labelled maxTurns labels : TrajectoryTracker F).trajectory.length :=
    Nat.not_le.mpr hroom
  unfold recordTurn
  rw [show (labelled maxTurns labels : TrajectoryTracker F).maxTurns = maxTurns from rfl,
    if_neg hempty]
  rfl

/-- The turn after another one. -/
theorem recordTurn_next {turns : List (TrajectoryNode F)} {prev turn : TrajectoryNode F}
    {t : TrajectoryTracker F} (hroom : 1 <= maxTurns)
    (h : Tracks text labels maxTurns (turns ++ [prev]) t) :
    recordTurn text build t turn =
      (t.transitions.record text build prev.topicSummary turn.topicSummary).map
        (fun transitions =>
          { t with
            trajectory := lastTurns maxTurns (turns ++ [prev] ++ [turn])
            transitions := transitions }) := by
  have hlast : t.trajectory.getLast? = some prev := by
    rw [h.trajectory, getLast?_lastTurns hroom, List.getLast?_concat]
  have hkept : (if t.maxTurns <= t.trajectory.length then removeFirst t.trajectory
      else some t.trajectory) =
        some (if maxTurns <= (lastTurns maxTurns (turns ++ [prev])).length then
          (lastTurns maxTurns (turns ++ [prev])).tail
            else lastTurns maxTurns (turns ++ [prev])) := by
    rw [h.room, h.trajectory]
    split
    · rename_i hfull
      cases hlist : lastTurns maxTurns (turns ++ [prev]) with
      | nil =>
          rw [hlist] at hfull
          exact absurd hfull (by simp only [List.length_nil]; omega)
      | cons first rest => rfl
    · rfl
  unfold recordTurn
  simp only [hlast, hkept]
  rw [lastTurns_append hroom (turns ++ [prev]) turn]
  cases t.transitions.record text build prev.topicSummary turn.topicSummary with
  | none => rfl
  | some transitions => rfl

/-- What is recorded without a panic is tracked. -/
theorem tracks_of_recordTurns (hroom : 1 <= maxTurns) {turns : List (TrajectoryNode F)}
    {t : TrajectoryTracker F}
    (h : recordTurns text build (labelled maxTurns labels) turns = some t) :
    Tracks text labels maxTurns turns t := by
  induction turns using List.reverseRecOn generalizing t with
  | nil =>
      cases h
      exact tracks_labelled
  | append_singleton turns turn ih =>
      rw [recordTurns_append] at h
      rcases Option.bind_eq_some_iff.mp h with ⟨t', ht', hturn⟩
      have htracks := ih ht'
      cases turns using List.reverseRecOn with
      | nil =>
          cases ht'
          rw [recordTurn_first hroom] at hturn
          cases hturn
          constructor
          · show [turn] = lastTurns maxTurns [turn]
            have hdrop : [turn].length - min [turn].length maxTurns = 0 := by
              simp only [List.length_singleton]
              omega
            unfold lastTurns
            rw [hdrop]
            rfl
          · rfl
          · rfl
          · exact fun _ _ => rfl
      | append_singleton turns prev =>
          rw [recordTurn_next hroom htracks] at hturn
          rcases Option.map_eq_some_iff.mp hturn with ⟨transitions, hrecord, heq⟩
          rcases TransitionMap.addTo_eq_some hrecord with ⟨hcache, n, hn, hcount⟩
          rw [htracks.resolveTopic, htracks.resolveTopic] at hn hcount
          rw [← heq]
          refine ⟨rfl, htracks.room, hcache.trans htracks.cached, ?_⟩
          intro source target
          show (transitions.count source target).getD 0 = _
          rw [hcount, pairsOf_append]
          by_cases hpair : source = topicUnder text labels prev.topicSummary ∧
              target = topicUnder text labels turn.topicSummary
          · rw [if_pos hpair, if_pos ⟨hpair.1.symm, hpair.2.symm⟩, Option.getD_some,
              Build.addU32_eq_some hn, htracks.counts, ← hpair.1, ← hpair.2]
            exact Nat.mod_add_mod _ _ _
          · rw [if_neg hpair, if_neg (fun h => hpair ⟨h.1.symm, h.2.symm⟩), htracks.counts]
            rfl

/-- Where no pair is too frequent, nothing panics. -/
theorem recordTurns_isSome (hroom : 1 <= maxTurns) {turns : List (TrajectoryNode F)}
    (hfew : forall source target,
      pairsOf (topicUnder text labels) turns source target < 2 ^ 32) :
    (recordTurns text build (labelled maxTurns labels) turns).isSome = true := by
  induction turns using List.reverseRecOn with
  | nil => rfl
  | append_singleton turns turn ih =>
      rw [recordTurns_append]
      cases turns using List.reverseRecOn with
      | nil =>
          show (recordTurn text build (labelled maxTurns labels) turn).isSome = true
          rw [recordTurn_first hroom]
          rfl
      | append_singleton turns prev =>
          have hbefore : forall source target,
              pairsOf (topicUnder text labels) (turns ++ [prev]) source target < 2 ^ 32 := by
            intro source target
            have hmore := hfew source target
            rw [pairsOf_append] at hmore
            omega
          rcases Option.isSome_iff_exists.mp (ih hbefore) with ⟨t, ht⟩
          have htracks := tracks_of_recordTurns hroom ht
          rw [ht, Option.bind_some, recordTurn_next hroom htracks, Option.isSome_map]
          apply TransitionMap.addTo_isSome_iff.mpr
          rw [htracks.resolveTopic, htracks.resolveTopic, htracks.counts]
          have hlast := hfew (topicUnder text labels prev.topicSummary)
            (topicUnder text labels turn.topicSummary)
          rw [pairsOf_append, if_pos ⟨rfl, rfl⟩] at hlast
          rw [Nat.mod_eq_of_lt (hbefore _ _), Build.addU32_of_lt build hlast]
          rfl

/-- A conversation is remembered: nothing panics, the trajectory is the last turns and the
counts are those of the pairs. -/
def Remembered (text : TextOps F) (build : Build) (labels : Assoc String String) (maxTurns : Nat)
    (turns : List (TrajectoryNode F)) : Prop :=
  exists t, recordTurns text build (labelled maxTurns labels) turns = some t ∧
    t.trajectory = lastTurns maxTurns turns ∧
    forall source target, (t.transitions.count source target).getD 0 =
      pairsOf (topicUnder text labels) turns source target

/-- Conversations are remembered exactly when there is room for a turn, if there is one, and no
pair of topics is as frequent as the counts can hold. -/
theorem conversation_remembered_iff (text : TextOps F) (build : Build)
    (labels : Assoc String String) (maxTurns : Nat) (turns : List (TrajectoryNode F)) :
    Remembered text build labels maxTurns turns <->
      (turns = [] ∨ 1 <= maxTurns) ∧
        forall source target, pairsOf (topicUnder text labels) turns source target < 2 ^ 32 := by
  rcases Nat.eq_zero_or_pos maxTurns with hzero | hroom
  · cases turns with
    | nil =>
        refine iff_of_true ⟨labelled maxTurns labels, rfl, rfl, fun _ _ => rfl⟩ ⟨Or.inl rfl, ?_⟩
        intro source target
        exact Nat.two_pow_pos 32
    | cons turn rest =>
        apply iff_of_false
        · rintro ⟨t, ht, -, -⟩
          have hfirst : recordTurn text build (labelled maxTurns labels) turn = none := by
            rw [hzero]
            rfl
          unfold recordTurns at ht
          rw [List.foldlM_cons, hfirst] at ht
          cases ht
        · rintro ⟨hnil | hpos, -⟩
          · cases hnil
          · omega
  · constructor
    · rintro ⟨t, ht, -, hcounts⟩
      refine ⟨Or.inr hroom, ?_⟩
      intro source target
      have htracks := (tracks_of_recordTurns hroom ht).counts source target
      rw [hcounts] at htracks
      rw [htracks]
      exact Nat.mod_lt _ (Nat.two_pow_pos 32)
    · rintro ⟨-, hfew⟩
      rcases Option.isSome_iff_exists.mp
        (recordTurns_isSome hroom hfew) with ⟨t, ht⟩
      have htracks := tracks_of_recordTurns hroom ht
      refine ⟨t, ht, htracks.trajectory, ?_⟩
      intro source target
      rw [htracks.counts, Nat.mod_eq_of_lt (hfew source target)]

end Conversation

/-- The first turn of a tracker without room. -/
theorem no_room_panics : ¬ forall (maxTurns : Nat) (turns : List (TrajectoryNode Rat)),
    Remembered asciiOps Build.wrapping Assoc.empty maxTurns turns := by
  intro h
  rcases h 0 [⟨1, [], "auth", DecisionState.investigating, [], 10⟩] with ⟨t, ht, -, -⟩
  cases ht

end TrajectoryTracker
end Cognitive
end MenteDb
