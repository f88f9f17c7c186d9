import MenteDb.Cognitive.Stream
import MenteDb.Facade.Write

/-!
# Write inference with a judge

An LLM is asked about each memory of the same agent that resembles the new one: whether it still
holds, and if it does, whether the two contradict each other.  A call may fail, and no answer is
trusted to agree with another.
-/

namespace MenteDb
namespace Facade

open Foundation
open Cognitive

variable {F : Type}

structure MemorySummary (F : Type) where
  id : MemoryId
  content : String
  memoryType : MemoryType
  confidence : F
  createdAt : Timestamp

inductive InvalidationVerdict where
  | keep (reason : String)
  | enrich (reason : String)
  | invalidate (reason : String)
  | update (mergedContent reason : String)
deriving DecidableEq, Repr

inductive ContradictionVerdict where
  | compatible (reason : String)
  | contradicts (reason : String)
  | supersedes (winner reason : String)
deriving DecidableEq, Repr

/-- None stands for a call that fails or an answer that does not parse. -/
structure PairJudge (F : Type) where
  judgeInvalidation : MemorySummary F -> MemorySummary F -> Option InvalidationVerdict
  detectContradiction : MemorySummary F -> MemorySummary F -> Option ContradictionVerdict

def memoryToSummary (m : MemoryNode F) : MemorySummary F where
  id := m.id
  content := m.content
  memoryType := m.memoryType
  confidence := m.confidence
  createdAt := m.createdAt

def temporalReplacementCues : List String :=
  ["now ", "currently", "no longer", "switched", "migrated", "upgraded", "replaced", "moved",
    "relocated", "renamed", "rewrote", "launched version", "started at", "joined", "changed to",
    "instead"]

def hasTemporalReplacementCue (text : String) : Bool :=
  temporalReplacementCues.any (containsText text.toLower)

def temporalSupersessionWinner (a b : MemorySummary F) : Option MemoryId :=
  if a.createdAt = b.createdAt then none
  else
    let newer := if b.createdAt < a.createdAt then a else b
    if hasTemporalReplacementCue newer.content = true then some newer.id else none

section Inference

variable [Scalar F]

def supersessionActions (obsolete superseder : MemoryId) (validUntil : Timestamp) :
    List (InferredAction F) :=
  [InferredAction.markObsolete obsolete superseder,
    InferredAction.invalidateMemory obsolete superseder validUntil,
    InferredAction.createEdge superseder obsolete EdgeType.supersedes 1]

/-- The one that is not the winner is superseded. -/
def superseded (winnerIsNew : Bool) (new existing : MemoryNode F) : List (InferredAction F) :=
  if winnerIsNew = true then supersessionActions existing.id new.id new.createdAt
  else supersessionActions new.id existing.id new.createdAt

def judgedContradiction (judge : PairJudge F) (new existing : MemoryNode F) :
    List (InferredAction F) :=
  if ratio 7 10 < cosineSimilarity new.embedding existing.embedding ∧
      existing.content ≠ new.content then
    match judge.detectContradiction (memoryToSummary existing) (memoryToSummary new) with
    | some (ContradictionVerdict.contradicts reason) =>
        match temporalSupersessionWinner (memoryToSummary existing) (memoryToSummary new) with
        | some winner => superseded (winner = new.id) new existing
        | none => [InferredAction.flagContradiction existing.id new.id reason]
    | some (ContradictionVerdict.supersedes winner _) =>
        superseded (winner = uuidText new.id.uuid) new existing
    | some (ContradictionVerdict.compatible _) => []
    | none => []
  else []

def relatedActions (config : WriteInferenceConfig F) (new existing : MemoryNode F) :
    List (InferredAction F) :=
  let sim := cosineSimilarity new.embedding existing.embedding
  if config.relatedMin < sim ∧ sim <= config.relatedMax then
    [InferredAction.createEdge new.id existing.id EdgeType.related sim]
  else []

def judgedPair (config : WriteInferenceConfig F) (judge : PairJudge F)
    (new existing : MemoryNode F) : List (InferredAction F) :=
  let sim := cosineSimilarity new.embedding existing.embedding
  if ratio 1 2 < sim ∧ existing.agentId = new.agentId then
    match judge.judgeInvalidation (memoryToSummary existing) (memoryToSummary new) with
    | some (InvalidationVerdict.invalidate _) =>
        supersessionActions existing.id new.id new.createdAt ++
          [InferredAction.updateConfidence existing.id
            (max (existing.confidence * config.confidenceDecayFactor) config.confidenceFloor)]
    | some (InvalidationVerdict.update mergedContent reason) =>
        [InferredAction.updateContent existing.id mergedContent reason]
    | some (InvalidationVerdict.enrich _) =>
        [InferredAction.createEdge new.id existing.id EdgeType.supports
          (max (ratio 7 10) (min sim (ratio 19 20)))]
    | some (InvalidationVerdict.keep _) =>
        judgedContradiction judge new existing ++ relatedActions config new existing
    | none => judgedContradiction judge new existing ++ relatedActions config new existing
  else relatedActions config new existing

def judgedCorrection (config : WriteInferenceConfig F) (new : MemoryNode F)
    (existing : List (MemoryNode F)) : List (InferredAction F) :=
  if new.memoryType = MemoryType.correction then
    match mostSimilar new existing with
    | none => []
    | some original =>
        if config.correctionThreshold < cosineSimilarity new.embedding original.embedding then
          [InferredAction.createEdge new.id original.id EdgeType.supersedes 1,
            InferredAction.invalidateMemory original.id new.id new.createdAt,
            InferredAction.updateConfidence original.id
              (max (original.confidence * config.confidenceDecayFactor) config.confidenceFloor)]
        else []
  else []

/-- The judge may answer differently about each of the memories. -/
def inferOnWriteWithLlm (config : WriteInferenceConfig F) (judges : Nat -> PairJudge F)
    (new : MemoryNode F) (existing : List (MemoryNode F)) : List (InferredAction F) :=
  existing.zipIdx.flatMap (fun p =>
    if p.1.id = new.id then [] else judgedPair config (judges p.2) new p.1) ++
  judgedCorrection config new (existing.filter (fun m => decide (m.id ≠ new.id)))

end Inference

/-!
## Judgments
-/

/-- What becomes of a pair. -/
inductive Judgment where
  | separate
  | replaced
  | merged (content reason : String)
  | enriched
  | newer
  | older
  | disputed (reason : String)
deriving DecidableEq, Repr

namespace Judgment

/-- The new memory takes the place of the existing one. -/
def retiresOld : Judgment -> Bool
  | replaced => true
  | newer => true
  | _ => false

/-- The pair is not also compared by its similarity. -/
def settled : Judgment -> Bool
  | replaced => true
  | merged _ _ => true
  | enriched => true
  | _ => false

end Judgment

def Judgment.ofWinner (winnerIsNew : Bool) : Judgment :=
  if winnerIsNew = true then Judgment.newer else Judgment.older

def Judgment.ofVerdict (new existing : MemoryNode F) : Option ContradictionVerdict -> Judgment
  | some (ContradictionVerdict.contradicts reason) =>
      match temporalSupersessionWinner (memoryToSummary existing) (memoryToSummary new) with
      | some id => Judgment.ofWinner (id = new.id)
      | none => Judgment.disputed reason
  | some (ContradictionVerdict.supersedes text _) => Judgment.ofWinner (text = uuidText new.id.uuid)
  | _ => Judgment.separate

theorem settled_ofWinner (winnerIsNew : Bool) :
    (Judgment.ofWinner winnerIsNew).settled = false := by
  cases winnerIsNew with
  | true => rfl
  | false => rfl

theorem settled_ofVerdict (new existing : MemoryNode F)
    (verdict : Option ContradictionVerdict) :
    (Judgment.ofVerdict new existing verdict).settled = false := by
  cases verdict with
  | none => rfl
  | some verdict =>
      cases verdict with
      | compatible reason => rfl
      | contradicts reason =>
          simp only [Judgment.ofVerdict]
          cases temporalSupersessionWinner (memoryToSummary existing) (memoryToSummary new) with
          | none => rfl
          | some id => exact settled_ofWinner _
      | supersedes text reason => exact settled_ofWinner _

section Judgments

variable [Scalar F]

/-- The pair is shown to the judge. -/
def Asked (new existing : MemoryNode F) : Prop :=
  ratio 1 2 < cosineSimilarity new.embedding existing.embedding ∧ existing.agentId = new.agentId

/-- The pair may be shown to the judge a second time. -/
def Close (new existing : MemoryNode F) : Prop :=
  ratio 7 10 < cosineSimilarity new.embedding existing.embedding ∧
    existing.content ≠ new.content

instance (new existing : MemoryNode F) : Decidable (Asked new existing) :=
  inferInstanceAs (Decidable (_ ∧ _))

instance (new existing : MemoryNode F) : Decidable (Close new existing) :=
  inferInstanceAs (Decidable (_ ∧ _))

def judgment (judge : PairJudge F) (new existing : MemoryNode F) : Judgment :=
  if Asked new existing then
    match judge.judgeInvalidation (memoryToSummary existing) (memoryToSummary new) with
    | some (InvalidationVerdict.invalidate _) => Judgment.replaced
    | some (InvalidationVerdict.update content reason) => Judgment.merged content reason
    | some (InvalidationVerdict.enrich _) => Judgment.enriched
    | _ =>
        if Close new existing then
          Judgment.ofVerdict new existing
            (judge.detectContradiction (memoryToSummary existing) (memoryToSummary new))
        else Judgment.separate
  else Judgment.separate

def Judgment.actions (config : WriteInferenceConfig F) (new existing : MemoryNode F) :
    Judgment -> List (InferredAction F)
  | separate => []
  | replaced =>
      supersessionActions existing.id new.id new.createdAt ++
        [InferredAction.updateConfidence existing.id
          (correctedConfidence config existing.confidence)]
  | merged content reason => [InferredAction.updateContent existing.id content reason]
  | enriched =>
      [InferredAction.createEdge new.id existing.id EdgeType.supports
        (max (ratio 7 10) (min (cosineSimilarity new.embedding existing.embedding)
          (ratio 19 20)))]
  | newer => supersessionActions existing.id new.id new.createdAt
  | older => supersessionActions new.id existing.id new.createdAt
  | disputed reason => [InferredAction.flagContradiction existing.id new.id reason]

theorem actions_ofWinner (config : WriteInferenceConfig F) (winnerIsNew : Bool)
    (new existing : MemoryNode F) :
    (Judgment.ofWinner winnerIsNew).actions config new existing =
      superseded winnerIsNew new existing := by
  cases winnerIsNew with
  | true => rfl
  | false => rfl

theorem judgedContradiction_eq (config : WriteInferenceConfig F) (judge : PairJudge F)
    (new existing : MemoryNode F) :
    judgedContradiction judge new existing =
      (if Close new existing then
        Judgment.ofVerdict new existing
          (judge.detectContradiction (memoryToSummary existing) (memoryToSummary new))
      else Judgment.separate).actions config new existing := by
  unfold judgedContradiction
  by_cases hclose : Close new existing
  · rw [if_pos hclose]
    refine (if_pos hclose).trans ?_
    cases judge.detectContradiction (memoryToSummary existing) (memoryToSummary new) with
    | none => rfl
    | some verdict =>
        cases verdict with
        | compatible reason => rfl
        | contradicts reason =>
            simp only [Judgment.ofVerdict]
            cases temporalSupersessionWinner (memoryToSummary existing) (memoryToSummary new) with
            | none => rfl
            | some id => exact (actions_ofWinner config _ new existing).symm
        | supersedes text reason => exact (actions_ofWinner config _ new existing).symm
  · rw [if_neg hclose]
    exact if_neg hclose

/-- What is done with a pair is what becomes of it, and the comparison unless that settles it. -/
theorem judgedPair_eq (config : WriteInferenceConfig F) (judge : PairJudge F)
    (new existing : MemoryNode F) :
    judgedPair config judge new existing =
      (judgment judge new existing).actions config new existing ++
        (if (judgment judge new existing).settled = true then []
        else relatedActions config new existing) := by
  have hopen : forall j : Judgment, j.settled = false ->
      j.actions config new existing ++ relatedActions config new existing =
        j.actions config new existing ++
          (if j.settled = true then [] else relatedActions config new existing) := by
    intro j hj
    rw [hj]
    rfl
  have hlast : (if Close new existing then
      Judgment.ofVerdict new existing
        (judge.detectContradiction (memoryToSummary existing) (memoryToSummary new))
      else Judgment.separate).settled = false := by
    split
    · exact settled_ofVerdict _ _ _
    · rfl
  unfold judgedPair judgment
  by_cases hasked : Asked new existing
  · rw [if_pos hasked]
    refine (if_pos hasked).trans ?_
    cases judge.judgeInvalidation (memoryToSummary existing) (memoryToSummary new) with
    | none =>
        simp only
        rw [judgedContradiction_eq config]
        exact hopen _ hlast
    | some verdict =>
        cases verdict with
        | keep reason =>
            simp only
            rw [judgedContradiction_eq config]
            exact hopen _ hlast
        | enrich reason => rfl
        | invalidate reason => rfl
        | update content reason => rfl
  · rw [if_neg hasked]
    exact if_neg hasked

theorem invalidate_mem_actions_iff {config : WriteInferenceConfig F} {new m : MemoryNode F}
    {j : Judgment} {o s : MemoryId} {t : Timestamp} :
    InferredAction.invalidateMemory o s t ∈ j.actions config new m <->
      t = new.createdAt ∧ ((s = new.id ∧ o = m.id ∧ j.retiresOld = true) ∨
        (o = new.id ∧ s = m.id ∧ j = Judgment.older)) := by
  cases j <;> simp [Judgment.actions, supersessionActions, Judgment.retiresOld] <;> tauto

theorem supersedes_mem_actions_iff {config : WriteInferenceConfig F} {new m : MemoryNode F}
    {j : Judgment} {o s : MemoryId} {w : F} :
    InferredAction.createEdge s o EdgeType.supersedes w ∈ j.actions config new m <->
      w = 1 ∧ ((s = new.id ∧ o = m.id ∧ j.retiresOld = true) ∨
        (o = new.id ∧ s = m.id ∧ j = Judgment.older)) := by
  cases j <;> simp [Judgment.actions, supersessionActions, Judgment.retiresOld] <;> tauto

theorem obsolete_mem_actions_iff {config : WriteInferenceConfig F} {new m : MemoryNode F}
    {j : Judgment} {o s : MemoryId} :
    InferredAction.markObsolete o s ∈ j.actions config new m <->
      (s = new.id ∧ o = m.id ∧ j.retiresOld = true) ∨
        (o = new.id ∧ s = m.id ∧ j = Judgment.older) := by
  cases j <;> simp [Judgment.actions, supersessionActions, Judgment.retiresOld] <;> tauto

theorem update_mem_actions_iff {config : WriteInferenceConfig F} {new m : MemoryNode F}
    {j : Judgment} {o : MemoryId} {content reason : String} :
    InferredAction.updateContent o content reason ∈ j.actions config new m <->
      o = m.id ∧ j = Judgment.merged content reason := by
  cases j <;> simp [Judgment.actions, supersessionActions]
  tauto

theorem flag_mem_actions_iff {config : WriteInferenceConfig F} {new m : MemoryNode F}
    {j : Judgment} {o n : MemoryId} {reason : String} :
    InferredAction.flagContradiction o n reason ∈ j.actions config new m <->
      n = new.id ∧ o = m.id ∧ j = Judgment.disputed reason := by
  cases j <;> simp [Judgment.actions, supersessionActions]
  tauto

/-- The comparison of a pair gives only such actions. -/
def InferredAction.isRelated : InferredAction F -> Bool
  | InferredAction.createEdge _ _ EdgeType.related _ => true
  | _ => false

/-- A correction gives only such actions. -/
def InferredAction.isCorrective : InferredAction F -> Bool
  | InferredAction.createEdge _ _ EdgeType.supersedes _ => true
  | InferredAction.invalidateMemory _ _ _ => true
  | InferredAction.updateConfidence _ _ => true
  | _ => false

theorem mem_judgedPair_iff {config : WriteInferenceConfig F} {judge : PairJudge F}
    {new m : MemoryNode F} {action : InferredAction F} (hunrelated : action.isRelated = false) :
    action ∈ judgedPair config judge new m <->
      action ∈ (judgment judge new m).actions config new m := by
  have hrelated : action ∉ relatedActions config new m := by
    intro h
    unfold relatedActions at h
    simp only at h
    split at h
    · rw [List.mem_singleton.mp h] at hunrelated
      cases hunrelated
    · cases h
  rw [judgedPair_eq, List.mem_append]
  refine ⟨fun h => h.elim id (fun hlast => ?_), Or.inl⟩
  split at hlast
  · cases hlast
  · exact absurd hlast hrelated

/-- One of the memories with this identifier is judged so. -/
def Judged (judges : Nat -> PairJudge F) (new : MemoryNode F) (existing : List (MemoryNode F))
    (id : MemoryId) (j : Judgment) : Prop :=
  exists i m, existing[i]? = some m ∧ m.id = id ∧ id ≠ new.id ∧ judgment (judges i) new m = j

/-- The new memory is a correction of this one. -/
def Supplants (config : WriteInferenceConfig F) (new : MemoryNode F)
    (existing : List (MemoryNode F)) (id : MemoryId) : Prop :=
  new.memoryType = MemoryType.correction ∧ exists original,
    mostSimilar new (existing.filter (fun m => decide (m.id ≠ new.id))) = some original ∧
      original.id = id ∧
      config.correctionThreshold < cosineSimilarity new.embedding original.embedding

variable {config : WriteInferenceConfig F} {judges : Nat -> PairJudge F} {new : MemoryNode F}
  {existing : List (MemoryNode F)}

theorem Supplants.ne {id : MemoryId} (h : Supplants config new existing id) : id ≠ new.id := by
  rcases h with ⟨_, original, hsimilar, hid, _⟩
  have hkept := (List.mem_filter.mp (mem_of_mostSimilar hsimilar)).2
  rw [← hid]
  exact of_decide_eq_true hkept

theorem mem_judgedCorrection_iff {action : InferredAction F} :
    action ∈ judgedCorrection config new
        (existing.filter (fun m => decide (m.id ≠ new.id))) <->
      exists original, Supplants config new existing original.id ∧
        mostSimilar new (existing.filter (fun m => decide (m.id ≠ new.id))) = some original ∧
        (action = InferredAction.createEdge new.id original.id EdgeType.supersedes 1 ∨
          action = InferredAction.invalidateMemory original.id new.id new.createdAt ∨
          action = InferredAction.updateConfidence original.id
            (correctedConfidence config original.confidence)) := by
  unfold judgedCorrection
  constructor
  · intro h
    split at h
    · rename_i htype
      split at h
      · cases h
      · rename_i original hsimilar
        split at h
        · rename_i hthreshold
          refine ⟨original, ⟨htype, original, hsimilar, rfl, hthreshold⟩, hsimilar, ?_⟩
          rw [List.mem_cons, List.mem_cons, List.mem_singleton] at h
          exact h
        · cases h
    · cases h
  · rintro ⟨original, ⟨htype, original', hsimilar', _, hthreshold⟩, hsimilar, haction⟩
    have hsame : original' = original := Option.some.inj (hsimilar'.symm.trans hsimilar)
    rw [hsame] at hthreshold
    rw [if_pos htype, hsimilar]
    simp only
    rw [if_pos hthreshold, List.mem_cons, List.mem_cons, List.mem_singleton]
    exact haction

theorem mem_inferOnWriteWithLlm_iff {action : InferredAction F} :
    action ∈ inferOnWriteWithLlm config judges new existing <->
      (exists i m, existing[i]? = some m ∧ m.id ≠ new.id ∧
        action ∈ judgedPair config (judges i) new m) ∨
      action ∈ judgedCorrection config new
        (existing.filter (fun m => decide (m.id ≠ new.id))) := by
  unfold inferOnWriteWithLlm
  rw [List.mem_append, List.mem_flatMap]
  refine or_congr ⟨?_, ?_⟩ Iff.rfl
  · rintro ⟨⟨m, i⟩, hm, haction⟩
    have hat := List.mk_mem_zipIdx_iff_getElem?.mp hm
    split at haction
    · cases haction
    · rename_i hother
      exact ⟨i, m, hat, hother, haction⟩
  · rintro ⟨i, m, hat, hother, haction⟩
    refine ⟨(m, i), List.mk_mem_zipIdx_iff_getElem?.mpr hat, ?_⟩
    rw [if_neg hother]
    exact haction

/-- The judge retires the first for the second. -/
def RetiredByJudge (judges : Nat -> PairJudge F) (new : MemoryNode F)
    (existing : List (MemoryNode F)) (o s : MemoryId) : Prop :=
  (s = new.id ∧ (Judged judges new existing o Judgment.replaced ∨
    Judged judges new existing o Judgment.newer)) ∨
  (o = new.id ∧ Judged judges new existing s Judgment.older)

theorem retiredByJudge_iff {o s : MemoryId} :
    RetiredByJudge judges new existing o s <->
      exists i m, existing[i]? = some m ∧ m.id ≠ new.id ∧
        ((s = new.id ∧ o = m.id ∧ (judgment (judges i) new m).retiresOld = true) ∨
          (o = new.id ∧ s = m.id ∧ judgment (judges i) new m = Judgment.older)) := by
  constructor
  · rintro (⟨hs, ⟨i, m, hat, hid, hother, hj⟩ | ⟨i, m, hat, hid, hother, hj⟩⟩ |
      ⟨ho, i, m, hat, hid, hother, hj⟩)
    · exact ⟨i, m, hat, hid ▸ hother, Or.inl ⟨hs, hid.symm, by rw [hj]; rfl⟩⟩
    · exact ⟨i, m, hat, hid ▸ hother, Or.inl ⟨hs, hid.symm, by rw [hj]; rfl⟩⟩
    · exact ⟨i, m, hat, hid ▸ hother, Or.inr ⟨ho, hid.symm, hj⟩⟩
  · rintro ⟨i, m, hat, hother, ⟨hs, ho, hretires⟩ | ⟨ho, hs, hj⟩⟩
    · refine Or.inl ⟨hs, ?_⟩
      rw [ho]
      cases hj : judgment (judges i) new m with
      | replaced => exact Or.inl ⟨i, m, hat, rfl, hother, hj⟩
      | newer => exact Or.inr ⟨i, m, hat, rfl, hother, hj⟩
      | separate => rw [hj] at hretires; cases hretires
      | merged content reason => rw [hj] at hretires; cases hretires
      | enriched => rw [hj] at hretires; cases hretires
      | older => rw [hj] at hretires; cases hretires
      | disputed reason => rw [hj] at hretires; cases hretires
    · exact Or.inr ⟨ho, i, m, hat, hs.symm, hs ▸ hother, hj⟩

/-- An action that judgments give, and the correction as told, is given in these two cases. -/
theorem mem_of_judgments {action : InferredAction F} {P : MemoryNode F -> Judgment -> Prop}
    (hactions : forall m j, action ∈ j.actions config new m <-> P m j)
    (hunrelated : action.isRelated = false) :
    action ∈ inferOnWriteWithLlm config judges new existing <->
      (exists i m, existing[i]? = some m ∧ m.id ≠ new.id ∧ P m (judgment (judges i) new m)) ∨
      action ∈ judgedCorrection config new
        (existing.filter (fun m => decide (m.id ≠ new.id))) := by
  rw [mem_inferOnWriteWithLlm_iff]
  refine or_congr ?_ Iff.rfl
  refine exists_congr (fun i => exists_congr (fun m => ?_))
  refine and_congr Iff.rfl (and_congr Iff.rfl ?_)
  rw [mem_judgedPair_iff hunrelated, hactions]

theorem invalidate_mem_iff {o s : MemoryId} {t : Timestamp} :
    InferredAction.invalidateMemory o s t ∈ inferOnWriteWithLlm config judges new existing <->
      t = new.createdAt ∧ (RetiredByJudge judges new existing o s ∨
        (s = new.id ∧ Supplants config new existing o)) := by
  rw [mem_of_judgments (fun _ _ => invalidate_mem_actions_iff) rfl,
    mem_judgedCorrection_iff, retiredByJudge_iff]
  constructor
  · rintro (⟨i, m, hat, hother, ht, hretires⟩ | ⟨original, hsupplants, _, heq | heq | heq⟩)
    · exact ⟨ht, Or.inl ⟨i, m, hat, hother, hretires⟩⟩
    · cases heq
    · cases heq
      exact ⟨rfl, Or.inr ⟨rfl, hsupplants⟩⟩
    · cases heq
  · rintro ⟨ht, ⟨i, m, hat, hother, hretires⟩ | ⟨hs, hsupplants⟩⟩
    · exact Or.inl ⟨i, m, hat, hother, ht, hretires⟩
    · rcases hsupplants with ⟨htype, original, hsimilar, hid, hthreshold⟩
      refine Or.inr ⟨original, ⟨htype, original, hsimilar, rfl, hthreshold⟩, hsimilar, ?_⟩
      exact Or.inr (Or.inl (by rw [ht, hs, hid]))

theorem supersedes_mem_iff {o s : MemoryId} {w : F} :
    InferredAction.createEdge s o EdgeType.supersedes w ∈
        inferOnWriteWithLlm config judges new existing <->
      w = 1 ∧ (RetiredByJudge judges new existing o s ∨
        (s = new.id ∧ Supplants config new existing o)) := by
  rw [mem_of_judgments (fun _ _ => supersedes_mem_actions_iff) rfl,
    mem_judgedCorrection_iff, retiredByJudge_iff]
  constructor
  · rintro (⟨i, m, hat, hother, hw, hretires⟩ | ⟨original, hsupplants, _, heq | heq | heq⟩)
    · exact ⟨hw, Or.inl ⟨i, m, hat, hother, hretires⟩⟩
    · cases heq
      exact ⟨rfl, Or.inr ⟨rfl, hsupplants⟩⟩
    · cases heq
    · cases heq
  · rintro ⟨hw, ⟨i, m, hat, hother, hretires⟩ | ⟨hs, hsupplants⟩⟩
    · exact Or.inl ⟨i, m, hat, hother, hw, hretires⟩
    · rcases hsupplants with ⟨htype, original, hsimilar, hid, hthreshold⟩
      refine Or.inr ⟨original, ⟨htype, original, hsimilar, rfl, hthreshold⟩, hsimilar, ?_⟩
      exact Or.inl (by rw [hw, hs, hid])

theorem not_mem_judgedCorrection {action : InferredAction F}
    (hcorrective : action.isCorrective = false) :
    action ∉ judgedCorrection config new
      (existing.filter (fun m => decide (m.id ≠ new.id))) := by
  rw [mem_judgedCorrection_iff]
  rintro ⟨original, _, _, heq | heq | heq⟩
  · rw [heq] at hcorrective
    cases hcorrective
  · rw [heq] at hcorrective
    cases hcorrective
  · rw [heq] at hcorrective
    cases hcorrective

theorem obsolete_mem_iff {o s : MemoryId} :
    InferredAction.markObsolete o s ∈ inferOnWriteWithLlm config judges new existing <->
      RetiredByJudge judges new existing o s := by
  rw [mem_of_judgments (fun _ _ => obsolete_mem_actions_iff) rfl,
    retiredByJudge_iff]
  exact or_iff_left (not_mem_judgedCorrection rfl)

theorem update_mem_iff {o : MemoryId} {content reason : String} :
    InferredAction.updateContent o content reason ∈
        inferOnWriteWithLlm config judges new existing <->
      Judged judges new existing o (Judgment.merged content reason) := by
  rw [mem_of_judgments (fun _ _ => update_mem_actions_iff) rfl,
    or_iff_left (not_mem_judgedCorrection rfl)]
  constructor
  · rintro ⟨i, m, hat, hother, ho, hj⟩
    exact ⟨i, m, hat, ho.symm, ho ▸ hother, hj⟩
  · rintro ⟨i, m, hat, hid, hother, hj⟩
    exact ⟨i, m, hat, hid ▸ hother, hid.symm, hj⟩

theorem flag_mem_iff {o n : MemoryId} {reason : String} :
    InferredAction.flagContradiction o n reason ∈
        inferOnWriteWithLlm config judges new existing <->
      n = new.id ∧ Judged judges new existing o (Judgment.disputed reason) := by
  rw [mem_of_judgments (fun _ _ => flag_mem_actions_iff) rfl,
    or_iff_left (not_mem_judgedCorrection rfl)]
  constructor
  · rintro ⟨i, m, hat, hother, hn, ho, hj⟩
    exact ⟨hn, i, m, hat, ho.symm, ho ▸ hother, hj⟩
  · rintro ⟨hn, i, m, hat, hid, hother, hj⟩
    exact ⟨i, m, hat, hid ▸ hother, hn, hid.symm, hj⟩

/-- If no identifier is listed twice, a memory is judged once. -/
theorem Judged.unique (hnodup : (existing.map MemoryNode.id).Nodup) {id : MemoryId}
    {j j' : Judgment} (h : Judged judges new existing id j)
    (h' : Judged judges new existing id j') : j = j' := by
  rcases h with ⟨i, m, hat, hid, _, hj⟩
  rcases h' with ⟨i', m', hat', hid', _, hj'⟩
  have hids : (existing.map MemoryNode.id)[i]? = (existing.map MemoryNode.id)[i']? := by
    rw [List.getElem?_map, List.getElem?_map, hat, hat']
    exact congrArg some (hid.trans hid'.symm)
  have hlength : i < (existing.map MemoryNode.id).length := by
    rw [List.length_map]
    exact (List.getElem?_eq_some_iff.mp hat).1
  have hindex : i = i' := (List.getElem?_inj hlength hnodup).mp hids
  rw [← hindex] at hat' hj'
  have hsame : m = m' := Option.some.inj (hat.symm.trans hat')
  rw [← hj, ← hj', hsame]

/-- The two answer alike to what they are asked about a pair. -/
def AnswerAlike (judge judge' : PairJudge F) (new m : MemoryNode F) : Prop :=
  judge.judgeInvalidation (memoryToSummary m) (memoryToSummary new) =
      judge'.judgeInvalidation (memoryToSummary m) (memoryToSummary new) ∧
    (Close new m ->
      judge.detectContradiction (memoryToSummary m) (memoryToSummary new) =
        judge'.detectContradiction (memoryToSummary m) (memoryToSummary new))

theorem judgment_congr {judge judge' : PairJudge F} {m : MemoryNode F}
    (h : Asked new m -> AnswerAlike judge judge' new m) :
    judgment judge new m = judgment judge' new m := by
  unfold judgment
  by_cases hasked : Asked new m
  · rcases h hasked with ⟨hfirst, hsecond⟩
    rw [if_pos hasked, if_pos hasked, hfirst]
    by_cases hclose : Close new m
    · rw [if_pos hclose, if_pos hclose, hsecond hclose]
    · rw [if_neg hclose, if_neg hclose]
  · rw [if_neg hasked, if_neg hasked]

theorem inferOnWriteWithLlm_congr {judges' : Nat -> PairJudge F}
    (h : forall i m, existing[i]? = some m -> m.id ≠ new.id -> Asked new m ->
      AnswerAlike (judges i) (judges' i) new m) :
    inferOnWriteWithLlm config judges new existing =
      inferOnWriteWithLlm config judges' new existing := by
  unfold inferOnWriteWithLlm
  refine congrArg (fun l => l ++ _) (List.flatMap_congr ?_)
  rintro ⟨m, i⟩ hm
  have hat := List.mk_mem_zipIdx_iff_getElem?.mp hm
  by_cases hsame : m.id = new.id
  · rw [if_pos hsame, if_pos hsame]
  · rw [if_neg hsame, if_neg hsame, judgedPair_eq, judgedPair_eq,
      judgment_congr (h i m hat hsame)]

/-- The new memory and another one are retired for each other exactly if the judge keeps the other
one although the new one corrects it. -/
theorem retired_mutually_iff (hnodup : (existing.map MemoryNode.id).Nodup) {o : MemoryId} :
    (InferredAction.invalidateMemory o new.id new.createdAt ∈
        inferOnWriteWithLlm config judges new existing ∧
      InferredAction.invalidateMemory new.id o new.createdAt ∈
        inferOnWriteWithLlm config judges new existing) <->
      Judged judges new existing o Judgment.older ∧ Supplants config new existing o := by
  rw [invalidate_mem_iff, invalidate_mem_iff]
  constructor
  · rintro ⟨⟨_, hold⟩, _, hnew⟩
    have holder : Judged judges new existing o Judgment.older := by
      rcases hnew with (⟨_, ⟨_, _, _, _, hother, _⟩ | ⟨_, _, _, _, hother, _⟩⟩ | ⟨_, hj⟩) |
        ⟨_, hsupplants⟩
      · exact absurd rfl hother
      · exact absurd rfl hother
      · exact hj
      · exact absurd rfl hsupplants.ne
    refine ⟨holder, ?_⟩
    rcases hold with (⟨_, hj | hj⟩ | ⟨hsame, _⟩) | ⟨_, hsupplants⟩
    · cases holder.unique hnodup hj
    · cases holder.unique hnodup hj
    · rcases holder with ⟨_, _, _, _, hother, _⟩
      exact absurd hsame hother
    · exact hsupplants
  · rintro ⟨holder, hsupplants⟩
    exact ⟨⟨rfl, Or.inr ⟨rfl, hsupplants⟩⟩, rfl, Or.inl (Or.inr ⟨rfl, holder⟩)⟩

/-- Whatever the judge answers: a memory is retired exactly if the judge retires it or the new one
corrects it, from the creation of the new one on and with an edge from what supersedes it; it is
merged or disputed exactly if the judge says so; nothing is concluded from answers about pairs of
different agents or without likeness; and the new memory and another one retire each other exactly
if the judge keeps the other one although it is corrected. -/
theorem judge_decides :
    (forall o s t, InferredAction.invalidateMemory o s t ∈
        inferOnWriteWithLlm config judges new existing <->
      t = new.createdAt ∧ (RetiredByJudge judges new existing o s ∨
        (s = new.id ∧ Supplants config new existing o))) ∧
    (forall o s w, InferredAction.createEdge s o EdgeType.supersedes w ∈
        inferOnWriteWithLlm config judges new existing <->
      w = 1 ∧ InferredAction.invalidateMemory o s new.createdAt ∈
        inferOnWriteWithLlm config judges new existing) ∧
    (forall o s, InferredAction.markObsolete o s ∈
        inferOnWriteWithLlm config judges new existing <->
      RetiredByJudge judges new existing o s) ∧
    (forall o content reason, InferredAction.updateContent o content reason ∈
        inferOnWriteWithLlm config judges new existing <->
      Judged judges new existing o (Judgment.merged content reason)) ∧
    (forall o n reason, InferredAction.flagContradiction o n reason ∈
        inferOnWriteWithLlm config judges new existing <->
      n = new.id ∧ Judged judges new existing o (Judgment.disputed reason)) ∧
    (forall judges', (forall i m, existing[i]? = some m -> m.id ≠ new.id -> Asked new m ->
        AnswerAlike (judges i) (judges' i) new m) ->
      inferOnWriteWithLlm config judges new existing =
        inferOnWriteWithLlm config judges' new existing) ∧
    ((existing.map MemoryNode.id).Nodup -> forall o,
      (InferredAction.invalidateMemory o new.id new.createdAt ∈
          inferOnWriteWithLlm config judges new existing ∧
        InferredAction.invalidateMemory new.id o new.createdAt ∈
          inferOnWriteWithLlm config judges new existing) <->
        Judged judges new existing o Judgment.older ∧ Supplants config new existing o) := by
  refine ⟨fun o s t => invalidate_mem_iff, ?_, fun o s => obsolete_mem_iff,
    fun o content reason => update_mem_iff, fun o n reason => flag_mem_iff, ?_, ?_⟩
  · intro o s w
    rw [supersedes_mem_iff, invalidate_mem_iff]
    exact and_congr Iff.rfl ⟨fun h => ⟨rfl, h⟩, fun h => h.2⟩
  · intro judges' h
    exact inferOnWriteWithLlm_congr h
  · intro hnodup o
    exact retired_mutually_iff hnodup

end Judgments

/-!
## A correction that is not believed
-/

def oldPort : MemoryNode Rat :=
  MemoryNode.new ⟨1⟩ 10 AgentId.nil MemoryType.semantic "the port is Genoa" [1, 0]

def newPort : MemoryNode Rat :=
  MemoryNode.new ⟨2⟩ 20 AgentId.nil MemoryType.correction "the port is Turin" [1, 0]

def sceptic : PairJudge Rat where
  judgeInvalidation _ _ := some (InvalidationVerdict.keep "both may hold")
  detectContradiction old _ :=
    some (ContradictionVerdict.supersedes (uuidText old.id.uuid) "Turin has no port")

theorem judge_decides_port :
    InferredAction.invalidateMemory oldPort.id newPort.id newPort.createdAt ∈
        inferOnWriteWithLlm WriteInferenceConfig.default (fun _ => sceptic) newPort [oldPort] ∧
      InferredAction.invalidateMemory newPort.id oldPort.id newPort.createdAt ∈
        inferOnWriteWithLlm WriteInferenceConfig.default (fun _ => sceptic) newPort
          [oldPort] := by
  have hjudged : Judged (fun _ => sceptic) newPort [oldPort] oldPort.id Judgment.older :=
    ⟨0, oldPort, rfl, rfl, by decide, by decide +kernel⟩
  have hsupplants : Supplants WriteInferenceConfig.default newPort [oldPort] oldPort.id :=
    ⟨rfl, oldPort, rfl, rfl, by decide +kernel⟩
  have hnodup : ([oldPort].map MemoryNode.id).Nodup := List.nodup_singleton _
  exact (judge_decides.2.2.2.2.2.2 hnodup oldPort.id).mpr ⟨hjudged, hsupplants⟩

end Facade
end MenteDb
