import MenteDb.Cognitive.Trajectory
import MenteDb.Facade.EntityResolver

/-!
# Labels of topics

A topic that is given a label is counted and looked up under the label from then on.  What was
counted before stays where it was, and a label may itself be given a label.
-/

namespace MenteDb
namespace Facade

open Foundation
open Cognitive

variable {F : Type}

/-!
## Calls
-/

inductive TopicCall where
  | record (source target : String)
  | reinforce (source target : String)
  | decay (source target : String)
  | learnCanonical (raw canonical : String)

def TopicCall.step (text : TextOps F) (build : Build) (m : TransitionMap) :
    TopicCall -> Option TransitionMap
  | TopicCall.record source target => m.record text build source target
  | TopicCall.reinforce source target => m.reinforce text build source target
  | TopicCall.decay source target => some (m.decay text source target)
  | TopicCall.learnCanonical raw canonical => some (m.learnCanonical text raw canonical)

/-- A turn that is recorded with the model's help learns at most a label and records at most a
transition. -/
theorem transitions_recordTurnWithLlm {text : TextOps F} {build : Build}
    {llm : String -> List String -> Option String} {t t' : TrajectoryTracker F}
    {turn : TrajectoryNode F} (h : t.recordTurnWithLlm text build llm turn = some t') :
    exists calls : List TopicCall,
      calls.foldlM (TopicCall.step text build) t.transitions = some t'.transitions := by
  have hlearn : exists calls : List TopicCall,
      calls.foldlM (TopicCall.step text build) t.transitions =
      some (TrajectoryTracker.canonicalizeTopic text llm t.transitions turn.topicSummary).2 := by
    unfold TrajectoryTracker.canonicalizeTopic
    split
    · exact ⟨[], rfl⟩
    · split
      · rename_i label hlabel
        exact ⟨[TopicCall.learnCanonical turn.topicSummary label], rfl⟩
      · exact ⟨[], rfl⟩
  rcases hlearn with ⟨learning, hlearning⟩
  rcases Option.bind_eq_some_iff.mp h with ⟨transitions, hcounted, hkept⟩
  rcases Option.map_eq_some_iff.mp hkept with ⟨kept, -, heq⟩
  have htransitions : t'.transitions = transitions := by
    rw [← heq]
  rw [htransitions]
  cases hlast : t.trajectory.getLast? with
  | none =>
      simp only [hlast] at hcounted
      exact ⟨learning, hlearning.trans hcounted⟩
  | some prev =>
      simp only [hlast] at hcounted
      refine ⟨learning ++ [TopicCall.record prev.topicSummary
        (TrajectoryTracker.canonicalizeTopic text llm t.transitions turn.topicSummary).1], ?_⟩
      rw [List.foldlM_append, hlearning]
      exact Option.bind_eq_some_iff.mpr
        ⟨_, rfl, Option.bind_eq_some_iff.mpr ⟨transitions, hcounted, rfl⟩⟩

/-!
## What a label changes
-/

/-- Resolving a topic twice is resolving it once. -/
def ResolvesOnce (text : TextOps F) (m : TransitionMap) : Prop :=
  forall raw, m.resolveTopic text (m.resolveTopic text raw) = m.resolveTopic text raw

/-- Every reported count is still reported, or a greater one. -/
def StillIncludes (before after : List (String × Nat)) : Prop :=
  forall target n, (target, n) ∈ before -> exists n', (target, n') ∈ after ∧ n <= n'

/-- With no limit, what is predicted from a topic is still predicted once the topic has a
label. -/
def KeepsHistory (text : TextOps F) (m : TransitionMap) (raw canonical : String) : Prop :=
  forall (o o' : HashOrder) limit, m.totalTransitions <= limit ->
    StillIncludes (m.predictFrom text o raw limit)
      ((m.learnCanonical text raw canonical).predictFrom text o' raw limit)

/-- A call after which topics resolve once, and which keeps the history of the topic it gives a
label to. -/
def LosesNothing (text : TextOps F) (build : Build) (m : TransitionMap) (call : TopicCall) :
    Prop :=
  (match call with
    | TopicCall.learnCanonical raw canonical => KeepsHistory text m raw canonical
    | _ => True) ∧
  forall m', call.step text build m = some m' -> ResolvesOnce text m'

/-- A label that is the topic itself; or one that has no label, for a topic that is not a label,
with every count of what the topic resolved to also counted for the label. -/
def HarmlessLabel (text : TextOps F) (m : TransitionMap) (raw canonical : String) : Prop :=
  normalizeTopic text raw = normalizeTopic text canonical ∨
    (m.topicCache.find? (normalizeTopic text canonical) = none ∧
      (forall x, m.topicCache.find? x ≠ some (normalizeTopic text raw)) ∧
      forall target n, m.count (m.resolveTopic text raw) target = some n ->
        exists n', m.count (normalizeTopic text canonical) target = some n' ∧ n <= n')

def LearnsHarmlessly (text : TextOps F) (m : TransitionMap) : TopicCall -> Prop
  | TopicCall.record _ _ => True
  | TopicCall.reinforce _ _ => True
  | TopicCall.decay _ _ => True
  | TopicCall.learnCanonical raw canonical => HarmlessLabel text m raw canonical

/-- Topics with labels and labels are normalized, and no topic is its own label. -/
structure Labelled (text : TextOps F) (m : TransitionMap) : Prop where
  topic : forall x y, m.topicCache.find? x = some y -> normalizeTopic text x = x
  label : forall x y, m.topicCache.find? x = some y -> normalizeTopic text y = y
  other : forall x y, m.topicCache.find? x = some y -> y ≠ x

section Labels

variable {text : TextOps F} {build : Build}

theorem Labelled.congr {m m' : TransitionMap} (h : Labelled text m)
    (hcache : m'.topicCache = m.topicCache) : Labelled text m' := by
  constructor
  · rw [hcache]
    exact h.topic
  · rw [hcache]
    exact h.label
  · rw [hcache]
    exact h.other

theorem ResolvesOnce.congr {m m' : TransitionMap} (h : ResolvesOnce text m)
    (hcache : m'.topicCache = m.topicCache) : ResolvesOnce text m' := by
  intro raw
  have hraw : forall x, m'.resolveTopic text x = m.resolveTopic text x :=
    TransitionMap.resolveTopic_congr hcache
  rw [hraw, hraw]
  exact h raw

theorem normalizeTopic_normalizeTopic (hlaws : LowercaseWords text) (raw : String) :
    normalizeTopic text.atWhitespace (normalizeTopic text.atWhitespace raw) =
      normalizeTopic text.atWhitespace raw := normalizeEntity_normalizeEntity hlaws raw

theorem resolveTopic_of_label {m : TransitionMap} {x y : String} (hx : normalizeTopic text x = x)
    (hlabel : m.topicCache.find? x = some y) : m.resolveTopic text x = y := by
  unfold TransitionMap.resolveTopic
  rw [hx, hlabel, Option.getD_some]

theorem resolveTopic_of_none {m : TransitionMap} {x : String} (hx : normalizeTopic text x = x)
    (hlabel : m.topicCache.find? x = none) : m.resolveTopic text x = x := by
  unfold TransitionMap.resolveTopic
  rw [hx, hlabel, Option.getD_none]

/-- Topics resolve once when no label has a label. -/
theorem resolvesOnce_iff (hlaws : LowercaseWords text) {m : TransitionMap}
    (h : Labelled text.atWhitespace m) :
    ResolvesOnce text.atWhitespace m <->
      forall x y, m.topicCache.find? x = some y -> m.topicCache.find? y = none := by
  constructor
  · intro honce x y hxy
    have hagain := honce x
    rw [resolveTopic_of_label (h.topic x y hxy) hxy] at hagain
    cases hy : m.topicCache.find? y with
    | none => rfl
    | some z =>
        rw [resolveTopic_of_label (h.label x y hxy) hy] at hagain
        exact absurd hagain (h.other y z hy)
  · intro hflat raw
    cases hraw : m.topicCache.find? (normalizeTopic text.atWhitespace raw) with
    | none =>
        have hresolved : m.resolveTopic text.atWhitespace raw =
            normalizeTopic text.atWhitespace raw := by
          unfold TransitionMap.resolveTopic
          rw [hraw, Option.getD_none]
        rw [hresolved]
        exact resolveTopic_of_none (normalizeTopic_normalizeTopic hlaws raw) hraw
    | some y =>
        have hresolved : m.resolveTopic text.atWhitespace raw = y := by
          unfold TransitionMap.resolveTopic
          rw [hraw, Option.getD_some]
        rw [hresolved]
        exact resolveTopic_of_none (h.label _ y hraw) (hflat _ y hraw)

theorem find?_learnCanonical {m : TransitionMap} {raw canonical : String}
    (hne : normalizeTopic text raw ≠ normalizeTopic text canonical) (x : String) :
    (m.learnCanonical text raw canonical).topicCache.find? x =
      if x = normalizeTopic text raw then some (normalizeTopic text canonical)
      else m.topicCache.find? x := by
  unfold TransitionMap.learnCanonical
  rw [if_pos hne]
  exact Assoc.find?_insert m.topicCache _ _ x

theorem learnCanonical_self {m : TransitionMap} {raw canonical : String}
    (heq : normalizeTopic text raw = normalizeTopic text canonical) :
    m.learnCanonical text raw canonical = m := by
  unfold TransitionMap.learnCanonical
  rw [if_neg (not_not.mpr heq)]

@[simp] theorem count_learnCanonical (m : TransitionMap) (raw canonical source target : String) :
    (m.learnCanonical text raw canonical).count source target = m.count source target := by
  unfold TransitionMap.learnCanonical
  split <;> rfl

@[simp] theorem totalTransitions_learnCanonical (m : TransitionMap) (raw canonical : String) :
    (m.learnCanonical text raw canonical).totalTransitions = m.totalTransitions := by
  unfold TransitionMap.learnCanonical
  split <;> rfl

theorem Labelled.learnCanonical (hlaws : LowercaseWords text) {m : TransitionMap}
    (h : Labelled text.atWhitespace m) (raw canonical : String) :
    Labelled text.atWhitespace (m.learnCanonical text.atWhitespace raw canonical) := by
  by_cases heq : normalizeTopic text.atWhitespace raw = normalizeTopic text.atWhitespace canonical
  · rw [learnCanonical_self heq]
    exact h
  · constructor
    · intro x y hxy
      rw [find?_learnCanonical heq] at hxy
      split at hxy
      · rename_i hx
        rw [hx]
        exact normalizeTopic_normalizeTopic hlaws raw
      · exact h.topic x y hxy
    · intro x y hxy
      rw [find?_learnCanonical heq] at hxy
      split at hxy
      · cases hxy
        exact normalizeTopic_normalizeTopic hlaws canonical
      · exact h.label x y hxy
    · intro x y hxy
      rw [find?_learnCanonical heq] at hxy
      split at hxy
      · rename_i hx
        cases hxy
        rw [hx]
        exact fun h => heq h.symm
      · exact h.other x y hxy

/-- The history is kept when what was counted for the old label is counted for the new one. -/
theorem keepsHistory_iff {m : TransitionMap} {raw canonical : String}
    (hne : normalizeTopic text raw ≠ normalizeTopic text canonical) :
    KeepsHistory text m raw canonical <->
      forall target n, m.count (m.resolveTopic text raw) target = some n ->
        exists n', m.count (normalizeTopic text canonical) target = some n' ∧ n <= n' := by
  have hresolved : (m.learnCanonical text raw canonical).resolveTopic text raw =
      normalizeTopic text canonical := by
    unfold TransitionMap.resolveTopic
    rw [find?_learnCanonical hne, if_pos rfl, Option.getD_some]
  have hmem : forall (o : HashOrder) limit, m.totalTransitions <= limit -> forall target n,
      (target, n) ∈ (m.learnCanonical text raw canonical).predictFrom text o raw limit <->
        m.count (normalizeTopic text canonical) target = some n := by
    intro o limit hlimit target n
    rw [TransitionMap.mem_predictFrom (by rw [totalTransitions_learnCanonical]; exact hlimit),
      hresolved, count_learnCanonical]
  constructor
  · intro h target n hn
    rcases h HashOrder.insertion HashOrder.insertion m.totalTransitions (Nat.le_refl _) target n
      ((TransitionMap.mem_predictFrom (Nat.le_refl _)).mpr hn) with ⟨n', hn', hle⟩
    exact ⟨n', (hmem _ _ (Nat.le_refl _) target n').mp hn', hle⟩
  · intro h o o' limit hlimit target n hn
    rcases h target n ((TransitionMap.mem_predictFrom hlimit).mp hn) with ⟨n', hn', hle⟩
    exact ⟨n', (hmem o' limit hlimit target n').mpr hn', hle⟩

/-- Where topics resolve once, they still do after a topic that is no label got a label that has
none, and only then. -/
theorem resolvesOnce_learnCanonical_iff (hlaws : LowercaseWords text) {m : TransitionMap}
    (h : Labelled text.atWhitespace m) (honce : ResolvesOnce text.atWhitespace m)
    {raw canonical : String}
    (hne : normalizeTopic text.atWhitespace raw ≠ normalizeTopic text.atWhitespace canonical) :
    ResolvesOnce text.atWhitespace (m.learnCanonical text.atWhitespace raw canonical) <->
      m.topicCache.find? (normalizeTopic text.atWhitespace canonical) = none ∧
        forall x, m.topicCache.find? x ≠ some (normalizeTopic text.atWhitespace raw) := by
  have hflat := (resolvesOnce_iff hlaws h).mp honce
  rw [resolvesOnce_iff hlaws (h.learnCanonical hlaws raw canonical)]
  constructor
  · intro hnew
    constructor
    · have hlabel := hnew (normalizeTopic text.atWhitespace raw)
        (normalizeTopic text.atWhitespace canonical)
        (by rw [find?_learnCanonical hne, if_pos rfl])
      rw [find?_learnCanonical hne, if_neg (fun h => hne h.symm)] at hlabel
      exact hlabel
    · intro x hx
      have hxraw : x ≠ normalizeTopic text.atWhitespace raw :=
        fun heq => h.other x _ hx heq.symm
      have hlabel := hnew x (normalizeTopic text.atWhitespace raw)
        (by rw [find?_learnCanonical hne, if_neg hxraw, hx])
      rw [find?_learnCanonical hne, if_pos rfl] at hlabel
      cases hlabel
  · rintro ⟨hcanonical, hraw⟩ x y hxy
    rw [find?_learnCanonical hne] at hxy
    rw [find?_learnCanonical hne]
    split at hxy
    · cases hxy
      rw [if_neg (fun h => hne h.symm)]
      exact hcanonical
    · rw [if_neg (fun heq => hraw x (by rw [hxy, heq]))]
      exact hflat x y hxy

theorem topicCache_step {m m' : TransitionMap} {call : TopicCall}
    (hstep : call.step text build m = some m')
    (hlearn : forall raw canonical, call ≠ TopicCall.learnCanonical raw canonical) :
    m'.topicCache = m.topicCache := by
  cases call with
  | record source target => exact (TransitionMap.addTo_eq_some hstep).1
  | reinforce source target => exact (TransitionMap.addTo_eq_some hstep).1
  | decay source target =>
      cases hstep
      exact TransitionMap.topicCache_decay text m source target
  | learnCanonical raw canonical => exact absurd rfl (hlearn raw canonical)

/-- A call loses nothing exactly when the label it gives, if any, is harmless. -/
theorem losesNothing_iff (hlaws : LowercaseWords text) {m : TransitionMap}
    (h : Labelled text.atWhitespace m) (honce : ResolvesOnce text.atWhitespace m)
    (call : TopicCall) :
    LosesNothing text.atWhitespace build m call <-> LearnsHarmlessly text.atWhitespace m call := by
  cases call with
  | record source target =>
      refine iff_of_true ⟨trivial, fun m' hstep => ?_⟩ trivial
      exact honce.congr (topicCache_step hstep (fun _ _ h => TopicCall.noConfusion h))
  | reinforce source target =>
      refine iff_of_true ⟨trivial, fun m' hstep => ?_⟩ trivial
      exact honce.congr (topicCache_step hstep (fun _ _ h => TopicCall.noConfusion h))
  | decay source target =>
      refine iff_of_true ⟨trivial, fun m' hstep => ?_⟩ trivial
      cases hstep
      exact honce.congr (TransitionMap.topicCache_decay _ m source target)
  | learnCanonical raw canonical =>
      by_cases heq : normalizeTopic text.atWhitespace raw =
          normalizeTopic text.atWhitespace canonical
      · refine iff_of_true ⟨?_, ?_⟩ (Or.inl heq)
        · intro o o' limit hlimit target n hn
          rw [learnCanonical_self heq]
          have hcount := (TransitionMap.mem_predictFrom hlimit).mp hn
          exact ⟨n, (TransitionMap.mem_predictFrom hlimit).mpr hcount, Nat.le_refl n⟩
        · intro m' hstep
          cases hstep
          rw [learnCanonical_self heq]
          exact honce
      · constructor
        · rintro ⟨hhistory, hresolves⟩
          have hlabels := (resolvesOnce_learnCanonical_iff hlaws h honce heq).mp (hresolves _ rfl)
          exact Or.inr ⟨hlabels.1, hlabels.2, (keepsHistory_iff heq).mp hhistory⟩
        · rintro (hsame | ⟨hcanonical, hraw, hcounts⟩)
          · exact absurd hsame heq
          · refine ⟨(keepsHistory_iff heq).mpr hcounts, ?_⟩
            intro m' hstep
            cases hstep
            exact (resolvesOnce_learnCanonical_iff hlaws h honce heq).mpr ⟨hcanonical, hraw⟩

theorem Labelled.step (hlaws : LowercaseWords text) {m m' : TransitionMap}
    (h : Labelled text.atWhitespace m) {call : TopicCall}
    (hstep : call.step text.atWhitespace build m = some m') : Labelled text.atWhitespace m' := by
  by_cases hlearn : exists raw canonical, call = TopicCall.learnCanonical raw canonical
  · rcases hlearn with ⟨raw, canonical, heq⟩
    subst heq
    cases hstep
    exact h.learnCanonical hlaws raw canonical
  · exact h.congr (topicCache_step hstep (fun raw canonical heq => hlearn ⟨raw, canonical, heq⟩))

/-- Over every sequence of calls nothing is lost, exactly when every label is harmless where it
is given. -/
theorem labels_lose_nothing_iff (hlaws : LowercaseWords text) (build : Build)
    (calls : List TopicCall) :
    Throughout (fun m call => TopicCall.step text.atWhitespace build m call)
        (LosesNothing text.atWhitespace build) TransitionMap.default calls <->
      Throughout (fun m call => TopicCall.step text.atWhitespace build m call)
        (LearnsHarmlessly text.atWhitespace) TransitionMap.default calls := by
  have hlabelled : Labelled text.atWhitespace TransitionMap.default := by
    constructor
    · intro x y hxy
      cases hxy
    · intro x y hxy
      cases hxy
    · intro x y hxy
      cases hxy
  have honce : ResolvesOnce text.atWhitespace TransitionMap.default := by
    rw [resolvesOnce_iff hlaws hlabelled]
    intro x y hxy
    cases hxy
  apply Throughout.congr (I := fun m => Labelled text.atWhitespace m ∧
    ResolvesOnce text.atWhitespace m)
  · intro m call hm
    exact losesNothing_iff hlaws hm.1 hm.2 call
  · intro m call m' hm hnothing hstep
    exact ⟨hm.1.step hlaws hstep, hnothing.2 m' hstep⟩
  · exact ⟨hlabelled, honce⟩

end Labels

theorem labels_lose_nothing_iff_nameText : LowercaseWords nameText ∧
    (Throughout (fun m call => TopicCall.step nameText.atWhitespace Build.wrapping m call)
        (LosesNothing nameText.atWhitespace Build.wrapping) TransitionMap.default
        [TopicCall.learnCanonical "a" "c", TopicCall.record "a" "b"] <->
      Throughout (fun m call => TopicCall.step nameText.atWhitespace Build.wrapping m call)
        (LearnsHarmlessly nameText.atWhitespace) TransitionMap.default
        [TopicCall.learnCanonical "a" "c", TopicCall.record "a" "b"]) :=
  ⟨lowercaseWords_nameText, labels_lose_nothing_iff lowercaseWords_nameText Build.wrapping _⟩

/-- A transition that was counted before its topic got a label is not predicted after. -/
theorem late_label_loses_history :
    ¬ Throughout (fun m call => TopicCall.step nameText.atWhitespace Build.wrapping m call)
      (LosesNothing nameText.atWhitespace Build.wrapping) TransitionMap.default
      [TopicCall.record "a" "b", TopicCall.learnCanonical "a" "c"] := by
  have ha : normalizeTopic nameText.atWhitespace "a" = "a" := by decide +kernel
  have hb : normalizeTopic nameText.atWhitespace "b" = "b" := by decide +kernel
  have hc : normalizeTopic nameText.atWhitespace "c" = "c" := by decide +kernel
  rintro ⟨-, hrest⟩
  have hstep : exists m, TransitionMap.default.record nameText.atWhitespace Build.wrapping "a" "b" =
      some m := Option.isSome_iff_exists.mp rfl
  rcases hstep with ⟨m, hm⟩
  rcases hrest m hm with ⟨⟨hhistory, -⟩, -⟩
  rcases TransitionMap.addTo_eq_some hm with ⟨hcache, n, hn, hcount⟩
  have hresolve : forall x, TransitionMap.default.resolveTopic nameText.atWhitespace x =
      normalizeTopic nameText.atWhitespace x := fun _ => rfl
  rw [hresolve, hresolve, ha, hb] at hcount
  have hkept := (keepsHistory_iff (by rw [ha, hc]; decide)).mp hhistory "b" n
  rw [TransitionMap.resolveTopic_congr hcache, hresolve, ha, hc, hcount, hcount,
    if_pos ⟨rfl, rfl⟩, if_neg (by decide)] at hkept
  rcases hkept rfl with ⟨n', hn', -⟩
  cases hn'

end Facade
end MenteDb
