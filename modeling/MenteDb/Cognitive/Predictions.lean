import MenteDb.Cognitive.Conversations
import MenteDb.Foundation.FirstSeen
import MenteDb.Foundation.Ranking

/-!
# Predicted topics

After a turn up to three topics are predicted: those that followed its topic most often, then its
open questions, then that it is continued or that the topic before it comes back.
-/

namespace MenteDb
namespace Cognitive

open Foundation

variable {F : Type}

namespace TrajectoryTracker

/-!
## The loops
-/

section Loops

/-- A topic is predicted once. -/
def offer (predictions : List String) (topic : String) : List String :=
  if topic ∈ predictions then predictions else predictions ++ [topic]

def offerIfRoom (predictions : List String) (topic : String) : List String :=
  if predictions.length < 3 then offer predictions topic else predictions

variable (text : TextOps F) (o : HashOrder)

def predictNextTopics (t : TrajectoryTracker F) : List String :=
  match t.trajectory.getLast? with
  | none => []
  | some last =>
      let learned := ((t.transitions.predictFrom text o last.topicSummary 3).map Prod.fst).foldl
        offer []
      let asked := last.openQuestions.foldl offerIfRoom learned
      let continued := offerIfRoom asked (last.topicSummary ++ " (continued)")
      let revisited :=
        match t.trajectory.dropLast.getLast? with
        | none => continued
        | some prev => offerIfRoom continued (prev.topicSummary ++ " (revisit)")
      revisited.take 3

theorem offer_isPrefix (predictions : List String) (topic : String) :
    predictions <+: offer predictions topic := by
  unfold offer
  split
  · exact List.prefix_rfl
  · exact List.prefix_append _ _

theorem foldl_offer_isPrefix (topics predictions : List String) :
    predictions <+: topics.foldl offer predictions := by
  induction topics generalizing predictions with
  | nil => exact List.prefix_rfl
  | cons topic rest ih => exact (offer_isPrefix predictions topic).trans (ih _)

theorem take_of_isPrefix {xs ys : List String} {k : Nat} (h : xs <+: ys) (hlen : k <= xs.length) :
    ys.take k = xs.take k := by
  rcases h with ⟨more, rfl⟩
  exact List.take_append_of_le_length hlen

/-- To stop at three predictions is to keep the first three. -/
theorem take_foldl_offerIfRoom (topics predictions : List String) :
    (topics.foldl offerIfRoom predictions).take 3 = (topics.foldl offer predictions).take 3 := by
  induction topics generalizing predictions with
  | nil => rfl
  | cons topic rest ih =>
      rw [List.foldl_cons, List.foldl_cons, ih]
      unfold offerIfRoom
      split
      · rfl
      · rename_i hfull
        have hlen : 3 <= predictions.length := Nat.le_of_not_lt hfull
        rw [take_of_isPrefix (foldl_offer_isPrefix rest predictions) hlen]
        exact (take_of_isPrefix ((offer_isPrefix predictions topic).trans
          (foldl_offer_isPrefix rest _)) hlen).symm

theorem foldl_offer_eq (topics predictions : List String) :
    topics.foldl offer predictions =
      predictions ++ (firstOfEach id predictions.reverse topics).1 := by
  induction topics generalizing predictions with
  | nil => exact (List.append_nil predictions).symm
  | cons topic rest ih =>
      rw [List.foldl_cons, ih, firstOfEach, id_eq]
      unfold offer
      by_cases hseen : topic ∈ predictions
      · rw [if_pos hseen, if_pos (List.mem_reverse.mpr hseen)]
      · rw [if_neg hseen, if_neg (fun h => hseen (List.mem_reverse.mp h)), List.reverse_append,
          List.append_assoc]
        rfl

/-- What is considered, in its order. -/
def candidateTopics (t : TrajectoryTracker F) (last : TrajectoryNode F) : List String :=
  (t.transitions.predictFrom text o last.topicSummary 3).map Prod.fst ++
    (last.openQuestions ++ (last.topicSummary ++ " (continued)") ::
      t.trajectory.dropLast.getLast?.toList.map (fun prev => prev.topicSummary ++ " (revisit)"))

/-- The first three different ones are predicted. -/
theorem predictNextTopics_eq {t : TrajectoryTracker F} {last : TrajectoryNode F}
    (hlast : t.trajectory.getLast? = some last) :
    t.predictNextTopics text o = (firstOfEach id [] (candidateTopics text o t last)).1.take 3 := by
  have hloops : t.predictNextTopics text o =
      ((last.openQuestions ++ (last.topicSummary ++ " (continued)") ::
        t.trajectory.dropLast.getLast?.toList.map
          (fun prev => prev.topicSummary ++ " (revisit)")).foldl offerIfRoom
            (((t.transitions.predictFrom text o last.topicSummary 3).map Prod.fst).foldl
              offer [])).take 3 := by
    unfold predictNextTopics
    rw [hlast, List.foldl_append]
    cases t.trajectory.dropLast.getLast? with
    | none => rfl
    | some prev => rfl
  rw [hloops, take_foldl_offerIfRoom, ← List.foldl_append, foldl_offer_eq]
  rfl

end Loops

/-!
## After a conversation
-/

section Conversation

variable {text : TextOps F} {build : Build} {labels : Assoc String String} {maxTurns : Nat}
  {o : HashOrder}

/-- What was counted was counted at least once. -/
theorem count_pos_of_recordTurns (hroom : 1 <= maxTurns) {turns : List (TrajectoryNode F)}
    {t : TrajectoryTracker F}
    (h : recordTurns text build (labelled maxTurns labels) turns = some t)
    (hfew : forall source target,
      pairsOf (topicUnder text labels) turns source target < 2 ^ 32) {source target : String}
    {n : Nat} (hcount : t.transitions.count source target = some n) : 0 < n := by
  induction turns using List.reverseRecOn generalizing t n with
  | nil =>
      cases h
      cases hcount
  | append_singleton turns turn ih =>
      rw [recordTurns_append] at h
      rcases Option.bind_eq_some_iff.mp h with ⟨t', ht', hturn⟩
      have htracks := tracks_of_recordTurns hroom ht'
      cases turns using List.reverseRecOn with
      | nil =>
          cases ht'
          rw [recordTurn_first hroom] at hturn
          cases hturn
          cases hcount
      | append_singleton turns prev =>
          rw [recordTurn_next hroom htracks] at hturn
          rcases Option.map_eq_some_iff.mp hturn with ⟨transitions, hrecord, heq⟩
          rcases TransitionMap.addTo_eq_some hrecord with ⟨_, sum, hsum, hcounts⟩
          rw [← heq] at hcount
          have hbefore : forall source target,
              pairsOf (topicUnder text labels) (turns ++ [prev]) source target < 2 ^ 32 := by
            intro source target
            have hmore := hfew source target
            rw [pairsOf_append] at hmore
            omega
          change transitions.count source target = some n at hcount
          rw [hcounts] at hcount
          split at hcount
          · -- the sum fits, so it is not zero
            have hlast := hfew (topicUnder text labels prev.topicSummary)
              (topicUnder text labels turn.topicSummary)
            rw [pairsOf_append, if_pos ⟨rfl, rfl⟩] at hlast
            rw [htracks.resolveTopic, htracks.resolveTopic, htracks.counts,
              Nat.mod_eq_of_lt (hbefore _ _), Build.addU32_of_lt build hlast] at hsum
            cases hsum
            cases hcount
            exact Nat.succ_pos _
          · exact ih ht' hbefore hcount

/-- The turn before the last one, if there was room for it. -/
theorem getLast?_dropLast_lastTurns (hroom : 1 <= maxTurns) (turns : List (TrajectoryNode F))
    (last : TrajectoryNode F) :
    (lastTurns maxTurns (turns ++ [last])).dropLast.getLast? =
      if 1 < maxTurns then turns.getLast? else none := by
  have hlength : (lastTurns maxTurns turns).length = min turns.length maxTurns := by
    unfold lastTurns
    rw [List.length_drop]
    omega
  rw [lastTurns_append hroom, List.dropLast_concat]
  split
  · rename_i hfull
    rw [List.getLast?_tail, getLast?_lastTurns hroom]
    by_cases hmore : 1 < maxTurns
    · rw [if_pos hmore, if_neg (by omega)]
    · rw [if_neg hmore, if_pos (by omega)]
  · rename_i hfull
    rw [getLast?_lastTurns hroom]
    by_cases hmore : 1 < maxTurns
    · rw [if_pos hmore]
    · have hnil : turns = [] := by
        apply List.eq_nil_of_length_eq_zero
        omega
      rw [if_neg hmore, hnil]
      rfl

/-- The topics that followed one, with how often they did. -/
def FollowersOf (text : TextOps F) (labels : Assoc String String)
    (turns : List (TrajectoryNode F)) (topic : String) (table : List (String × Nat)) : Prop :=
  (table.map Prod.fst).Nodup ∧ forall target n, (target, n) ∈ table <->
    0 < n ∧ n = pairsOf (topicUnder text labels) turns (topicUnder text labels topic) target

theorem exists_followers (hroom : 1 <= maxTurns) {turns : List (TrajectoryNode F)}
    {t : TrajectoryTracker F}
    (h : recordTurns text build (labelled maxTurns labels) turns = some t)
    (hfew : forall source target,
      pairsOf (topicUnder text labels) turns source target < 2 ^ 32) (topic : String) :
    exists table, FollowersOf text labels turns topic table ∧
      TopOf 3 table (t.transitions.predictFrom text o topic 3) := by
  have htracks := tracks_of_recordTurns hroom h
  have htable : forall target n,
      (target, n) ∈ ((t.transitions.transitions.find? (topicUnder text labels topic)).getD
        Assoc.empty).entries <->
      t.transitions.count (topicUnder text labels topic) target = some n := by
    intro target n
    rw [← TransitionMap.find?_targets]
    exact Assoc.find?_eq_some_iff.symm
  refine ⟨((t.transitions.transitions.find? (topicUnder text labels topic)).getD
    Assoc.empty).entries, ⟨Assoc.nodup _, ?_⟩, ?_⟩
  · intro target n
    have hcounts := htracks.counts (topicUnder text labels topic) target
    rw [Nat.mod_eq_of_lt (hfew _ _)] at hcounts
    rw [htable]
    constructor
    · intro hcount
      rw [hcount] at hcounts
      exact ⟨count_pos_of_recordTurns hroom h hfew hcount, hcounts⟩
    · rintro ⟨hpos, heq⟩
      rw [← hcounts] at heq
      cases hcount : t.transitions.count (topicUnder text labels topic) target with
      | none =>
          rw [hcount] at heq
          exact absurd heq (Nat.ne_of_gt hpos)
      | some m =>
          rw [hcount] at heq
          rw [heq]
          rfl
  · unfold TransitionMap.predictFrom
    rw [htracks.resolveTopic]
    cases t.transitions.transitions.find? (topicUnder text labels topic) with
    | none => exact ⟨[], List.Perm.refl _, List.Pairwise.nil, rfl⟩
    | some targets =>
        refine ⟨_, (List.mergeSort_perm _ _).trans (o.perm _), ?_, rfl⟩
        have hsorted : ((o.order targets.entries).mergeSort
            (fun a b => decide (b.2 <= a.2))).Pairwise
              (fun a b => decide (b.2 <= a.2) = true) := by
          apply List.pairwise_mergeSort
          · intro a b c hab hbc
            exact decide_eq_true (Nat.le_trans (of_decide_eq_true hbc) (of_decide_eq_true hab))
          · intro a b
            rw [Bool.or_eq_true, decide_eq_true_iff, decide_eq_true_iff]
            exact Nat.le_total b.2 a.2
        exact hsorted.imp of_decide_eq_true

variable (text build labels) in
/-- After a conversation the first three different ones are predicted of: the three topics that
followed the last one most often, in some order of equals, the open questions, that the last
topic is continued and, if there was room for the turn before, that its topic comes back. -/
theorem predictions_follow_conversation (o : HashOrder) (hroom : 1 <= maxTurns)
    (turns : List (TrajectoryNode F)) (last : TrajectoryNode F) {t : TrajectoryTracker F}
    (h : recordTurns text build (labelled maxTurns labels) (turns ++ [last]) = some t)
    (hfew : forall source target,
      pairsOf (topicUnder text labels) (turns ++ [last]) source target < 2 ^ 32) :
    (t.predictNextTopics text o).Nodup ∧ (t.predictNextTopics text o).length <= 3 ∧
      exists table followers,
        FollowersOf text labels (turns ++ [last]) last.topicSummary table ∧
        TopOf 3 table followers ∧
        t.predictNextTopics text o =
          (firstOfEach id [] (followers.map Prod.fst ++
            (last.openQuestions ++ (last.topicSummary ++ " (continued)") ::
              (if 1 < maxTurns then turns.getLast? else none).toList.map
                (fun prev => prev.topicSummary ++ " (revisit)")))).1.take 3 := by
  have htracks := tracks_of_recordTurns hroom h
  have hlast : t.trajectory.getLast? = some last := by
    rw [htracks.trajectory, getLast?_lastTurns hroom, List.getLast?_concat]
  have hpredicted := predictNextTopics_eq text o hlast
  refine ⟨?_, ?_, ?_⟩
  · rw [hpredicted]
    have hnodup : ((firstOfEach id [] (candidateTopics text o t last)).1.map id).Nodup :=
      nodup_firstOfEach [] (candidateTopics text o t last)
    rw [List.map_id] at hnodup
    exact hnodup.sublist (List.take_sublist 3 _)
  · rw [hpredicted]
    exact List.length_take_le 3 _
  · rcases exists_followers hroom h hfew last.topicSummary with ⟨table, htable, htop⟩
    refine ⟨table, _, htable, htop, ?_⟩
    rw [hpredicted, candidateTopics, htracks.trajectory, getLast?_dropLast_lastTurns hroom]

def deployTurn : TrajectoryNode Rat := ⟨1, [], "deploy", DecisionState.completed, [], 10⟩

theorem predictions_follow_conversation_deploy :
    exists t, recordTurns asciiOps Build.wrapping (labelled 100 Assoc.empty)
        ([deployTurn, deployTurn] ++ [deployTurn]) = some t ∧
      (t.predictNextTopics asciiOps HashOrder.insertion).Nodup := by
  refine ⟨_, rfl, ?_⟩
  refine (predictions_follow_conversation asciiOps Build.wrapping Assoc.empty
    HashOrder.insertion (show 1 <= 100 by decide) [deployTurn, deployTurn] deployTurn rfl ?_).1
  intro source target
  exact Nat.lt_of_le_of_lt List.countP_le_length (by decide)

end Conversation

end TrajectoryTracker
end Cognitive
end MenteDb
