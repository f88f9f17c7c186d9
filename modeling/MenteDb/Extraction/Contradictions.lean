import MenteDb.Extraction.Pipeline

/-!
# Contradictions that are kept

A memory that contradicts an existing one is kept with its findings only if it is not taken for
a duplicate first, and if the existing memory belongs to no agent: the node made for the check
has the nil agent.
-/

namespace MenteDb
namespace Extraction

open Foundation
open Cognitive
open Facade
open Schema (ExtractedMemory)

variable {F V : Type} [Scalar F]

/-!
## Findings
-/

def IsFlag : InferredAction F -> Prop
  | InferredAction.flagContradiction _ _ _ => True
  | _ => False

/-- An existing memory of the same agent, very similar and with different content. -/
def Contradicts (config : WriteInferenceConfig F) (new existing : MemoryNode F) : Prop :=
  config.contradictionThreshold < cosineSimilarity new.embedding existing.embedding ∧
    existing.agentId = new.agentId ∧ existing.content ≠ new.content

theorem flag_inferForPair_iff {text : TextOps F} {config : WriteInferenceConfig F}
    {new existing : MemoryNode F} :
    (exists action, action ∈ inferForPair text config new existing ∧ IsFlag action) <->
      Contradicts config new existing := by
  unfold inferForPair Contradicts
  simp only [List.mem_append]
  constructor
  · intro h
    rcases h with ⟨action, (hmem | hmem) | hmem, hflag⟩
    · split at hmem
      · rename_i hc
        exact hc
      · cases hmem
    · split at hmem
      · rcases List.mem_cons.mp hmem with heq | hlast
        · rw [heq] at hflag
          cases hflag
        · rw [List.mem_singleton.mp hlast] at hflag
          cases hflag
      · cases hmem
    · split at hmem
      · rw [List.mem_singleton.mp hmem] at hflag
        cases hflag
      · cases hmem
  · intro hc
    rw [if_pos hc]
    exact ⟨_, Or.inl (Or.inl (List.mem_singleton_self _)), trivial⟩

theorem not_flag_inferCorrection {config : WriteInferenceConfig F} {new : MemoryNode F}
    {existing : List (MemoryNode F)} {action : InferredAction F}
    (h : action ∈ inferCorrection config new existing) : ¬ IsFlag action := by
  rcases mem_inferCorrection h with ⟨original, -, -, -, heq | heq⟩
  · rw [heq]
    exact id
  · rw [heq]
    exact id

theorem flag_inferOnWrite_iff {text : TextOps F} {config : WriteInferenceConfig F}
    {new : MemoryNode F} {existing : List (MemoryNode F)} :
    (exists action, action ∈ inferOnWrite text config new existing ∧ IsFlag action) <->
      exists e, e ∈ existing ∧ e.id ≠ new.id ∧ Contradicts config new e := by
  unfold inferOnWrite
  simp only [List.mem_append, List.mem_flatMap, List.mem_filter, decide_eq_true_eq]
  constructor
  · intro h
    rcases h with ⟨action, ⟨e, he, haction⟩ | hcorrection, hflag⟩
    · exact ⟨e, he.1, he.2, flag_inferForPair_iff.mp ⟨action, haction, hflag⟩⟩
    · exact absurd hflag (not_flag_inferCorrection hcorrection)
  · intro h
    rcases h with ⟨e, he, hid, hcontradicts⟩
    rcases flag_inferForPair_iff.mpr hcontradicts with ⟨action, haction, hflag⟩
    exact ⟨action, Or.inl ⟨e, ⟨he, hid⟩, haction⟩, hflag⟩

namespace ExtractionPipeline

omit [Scalar F] in
theorem hasContradiction_findings_iff {text : TextOps F} {actions : List (InferredAction F)} :
    hasContradiction (actions.filterMap (findingOf text)) = true <->
      exists action, action ∈ actions ∧ IsFlag action := by
  unfold hasContradiction
  simp only [List.any_eq_true, List.mem_filterMap, decide_eq_true_eq]
  constructor
  · intro h
    rcases h with ⟨finding, ⟨action, haction, hfinding⟩, htype⟩
    refine ⟨action, haction, ?_⟩
    cases action with
    | flagContradiction existing new reason => trivial
    | markObsolete memory supersededBy =>
        cases hfinding
        cases htype
    | updateConfidence memory c =>
        cases hfinding
        cases htype
    | createEdge source target edgeType weight =>
        cases hfinding
        cases htype
    | invalidateMemory memory supersededBy validUntil => cases hfinding
    | updateContent memory newContent reason => cases hfinding
    | propagateBeliefChange root delta => cases hfinding
  · intro h
    rcases h with ⟨action, haction, hflag⟩
    cases action with
    | flagContradiction existing new reason =>
        exact ⟨_, ⟨_, haction, rfl⟩, rfl⟩
    | _ => cases hflag

/-- An existing memory with different content whose similarity to the embedding is above the
threshold for a contradiction. -/
def Rival (m : ExtractedMemory F) (embedding : List F) (e : MemoryNode F) : Prop :=
  (WriteInferenceConfig.default : WriteInferenceConfig F).contradictionThreshold <
      cosineSimilarity embedding e.embedding ∧ e.content ≠ m.content

variable {p : ExtractionPipeline F V} {existing : List (MemoryNode F)} {m : ExtractedMemory F}
  {embedding : List F}

/-- Identifiers made for the check are not in use. -/
def Fresh (p : ExtractionPipeline F V) (existing : List (MemoryNode F)) : Prop :=
  forall n e, e ∈ existing -> e.id ≠ p.freshId n

theorem hasContradiction_iff (hcheck : p.config.enableContradictionCheck = true)
    (hfresh : Fresh p existing) (hembed : p.embed m.content = some embedding) (place : Nat) :
    hasContradiction (p.checkContradictions existing m place) = true <->
      exists e, e ∈ existing ∧ e.agentId = AgentId.nil ∧ Rival m embedding e := by
  unfold checkContradictions
  by_cases hempty : existing.isEmpty = true
  · rw [if_pos (Or.inr hempty), List.isEmpty_iff.mp hempty]
    constructor
    · intro h
      cases h
    · intro h
      rcases h with ⟨e, he, -⟩
      cases he
  · rw [if_neg (fun h => h.elim (fun hoff => by rw [hcheck] at hoff; cases hoff) hempty), hembed]
    dsimp only
    rw [hasContradiction_findings_iff, flag_inferOnWrite_iff]
    constructor
    · intro h
      rcases h with ⟨e, he, -, hthreshold, hagent, hcontent⟩
      exact ⟨e, he, hagent, hthreshold, hcontent⟩
    · intro h
      rcases h with ⟨e, he, hagent, hthreshold, hcontent⟩
      exact ⟨e, he, hfresh place e he, hthreshold, hagent, hcontent⟩

theorem checkDuplicates_eq_false_iff (hembed : p.embed m.content = some embedding) :
    p.checkDuplicates existing m = false <->
      (p.config.enableDeduplication = true -> forall e, e ∈ existing ->
        cosineSimilarity embedding e.embedding < p.config.deduplicationThreshold) := by
  unfold checkDuplicates
  by_cases hoff : p.config.enableDeduplication = false
  · rw [if_pos (Or.inl hoff)]
    refine iff_of_true rfl (fun hon => ?_)
    rw [hoff] at hon
    cases hon
  · rw [Bool.not_eq_false] at hoff
    by_cases hempty : existing.isEmpty = true
    · rw [if_pos (Or.inr hempty), List.isEmpty_iff.mp hempty]
      exact iff_of_true rfl (fun _ e he => absurd he List.not_mem_nil)
    · rw [if_neg (fun h => h.elim (fun h' => by rw [hoff] at h'; cases h') hempty), hembed]
      simp [hoff]

/-!
## The loop
-/

/-- A memory goes one of three ways, by the checks alone. -/
theorem foldl_sortOut (items : List (ExtractedMemory F × Nat)) (sorted : Sorted F) :
    items.foldl (p.sortOut existing) sorted = {
      toStore := sorted.toStore ++ (items.filter (fun item =>
        !p.checkDuplicates existing item.1 &&
          !hasContradiction (p.checkContradictions existing item.1 item.2))).map Prod.fst
      rejectedDuplicate := sorted.rejectedDuplicate ++
        (items.filter (fun item => p.checkDuplicates existing item.1)).map Prod.fst
      contradictions := sorted.contradictions ++ (items.filter (fun item =>
        !p.checkDuplicates existing item.1 &&
          hasContradiction (p.checkContradictions existing item.1 item.2))).map
            (fun item => (item.1, p.checkContradictions existing item.1 item.2)) } := by
  induction items generalizing sorted with
  | nil => simp
  | cons item rest ih =>
      rw [List.foldl_cons, ih]
      unfold sortOut
      by_cases hdup : p.checkDuplicates existing item.1 = true
      · simp [hdup]
      · rw [Bool.not_eq_true] at hdup
        by_cases hcontra :
            hasContradiction (p.checkContradictions existing item.1 item.2) = true
        · simp [hdup, hcontra]
        · rw [Bool.not_eq_true] at hcontra
          simp [hdup, hcontra]

theorem mem_filterQuality_zipIdx {memories : List (ExtractedMemory F)} :
    (exists place, (m, place) ∈ (p.filterQuality memories).zipIdx) <->
      m ∈ memories ∧ p.config.qualityThreshold <= m.confidence := by
  simp only [List.mk_mem_zipIdx_iff_getElem?, ← List.mem_iff_getElem?]
  unfold filterQuality
  rw [List.mem_filter, decide_eq_true_eq]

/-- The memory is among the contradictions, and nowhere else. -/
def KeptAsContradiction (r : ProcessedExtractionResult F) (m : ExtractedMemory F) : Prop :=
  (exists findings, (m, findings) ∈ r.contradictions) ∧ m ∉ r.rejectedDuplicate ∧ m ∉ r.toStore

/-- The memory is no duplicate, and a rival of it belongs to no agent. -/
def FoundContradictory (p : ExtractionPipeline F V) (existing : List (MemoryNode F))
    (m : ExtractedMemory F) (embedding : List F) : Prop :=
  (p.config.enableDeduplication = true -> forall e, e ∈ existing ->
    cosineSimilarity embedding e.embedding < p.config.deduplicationThreshold) ∧
  exists e, e ∈ existing ∧ e.agentId = AgentId.nil ∧ Rival m embedding e

theorem kept_processed_iff (hcheck : p.config.enableContradictionCheck = true)
    (hfresh : Fresh p existing) {full : Schema.ExtractionResult F} (hm : m ∈ full.memories)
    (hquality : p.config.qualityThreshold <= m.confidence)
    (hembed : p.embed m.content = some embedding) :
    KeptAsContradiction (p.processed existing full) m <->
      FoundContradictory p existing m embedding := by
  rcases mem_filterQuality_zipIdx.mpr ⟨hm, hquality⟩ with ⟨place, hplace⟩
  unfold KeptAsContradiction FoundContradictory processed
  dsimp only
  rw [foldl_sortOut]
  dsimp only
  rw [List.nil_append, List.nil_append, List.nil_append]
  rw [← checkDuplicates_eq_false_iff hembed, ← hasContradiction_iff hcheck hfresh hembed place]
  simp only [List.mem_map, List.mem_filter, Bool.and_eq_true, Bool.not_eq_true']
  constructor
  · intro h
    rcases h with ⟨⟨findings, item, ⟨-, hkept⟩, heq⟩, -, -⟩
    cases heq
    refine ⟨hkept.1, ?_⟩
    rw [hasContradiction_iff hcheck hfresh hembed]
    exact (hasContradiction_iff hcheck hfresh hembed item.2).mp hkept.2
  · intro h
    refine ⟨⟨_, (m, place), ⟨hplace, h⟩, rfl⟩, ?_, ?_⟩
    · intro hrejected
      rcases hrejected with ⟨item, ⟨-, hdup⟩, heq⟩
      rw [heq, h.1] at hdup
      cases hdup
    · intro hstored
      rcases hstored with ⟨item, ⟨-, -, hnone⟩, heq⟩
      rw [heq, Bool.eq_false_iff] at hnone
      apply hnone
      rw [hasContradiction_iff hcheck hfresh hembed]
      exact (hasContradiction_iff hcheck hfresh hembed place).mp h.2

/-- Of the memories that contradict an existing one, a run keeps exactly those that are no
duplicates and whose rival belongs to no agent. -/
theorem contradiction_kept_iff {p : ExtractionPipeline F V} {existing : List (MemoryNode F)}
    (hcheck : p.config.enableContradictionCheck = true) (hfresh : Fresh p existing)
    {build : Build} {level : LevelFilter} {conversation : String}
    {full : Schema.ExtractionResult F}
    (hfull : p.extractFull build level conversation = some (Except.ok full)) :
    exists r, p.process build level conversation existing = some (Except.ok r) ∧
      forall m embedding, m ∈ full.memories -> p.config.qualityThreshold <= m.confidence ->
        p.embed m.content = some embedding -> (exists e, e ∈ existing ∧ Rival m embedding e) ->
          (KeptAsContradiction r m <-> FoundContradictory p existing m embedding) := by
  refine ⟨p.processed existing full, ?_, ?_⟩
  · unfold process
    rw [hfull]
    rfl
  · intro m embedding hm hquality hembed _
    exact kept_processed_iff hcheck hfresh hm hquality hembed

/-!
## Runs
-/

def teaMemory : ExtractedMemory Rat where
  content := "drinks tea"
  memoryType := "fact"
  confidence := 1
  entities := []
  tags := []
  context := []
  reasoning := ""

def teaResponse : String :=
  "\x7b\"memories\": [\x7b\"content\": \"drinks tea\", \"memory_type\": \"fact\", "
    ++ "\"confidence\": 1\x7d]\x7d"

/-- A model that reports one memory, and an embedder for which all texts are alike. -/
def teaPipeline (config : ExtractionConfig Rat) : ExtractionPipeline Rat Unit where
  config := config
  provider := fun _ _ => Except.ok teaResponse.toList
  systemPrompt := ""
  verificationPrompt := fun facts => facts
  serde := ⟨fun _ => Except.ok (), fun _ => Except.ok ⟨[teaMemory], [], []⟩⟩
  text := asciiOps
  embed := fun _ => some [1]
  freshId := fun _ => ⟨100⟩
  now := fun _ => 2000

def coffeeNode (agent : AgentId) : MemoryNode Rat :=
  MemoryNode.new ⟨7⟩ 1000 agent MemoryType.semantic "drinks coffee" [1]

def withoutDeduplication : ExtractionConfig Rat :=
  { ExtractionConfig.default with enableDeduplication := false }

theorem teaPipeline_extractFull :
    (teaPipeline withoutDeduplication).extractFull Build.wrapping LevelFilter.info "" =
      some (Except.ok ⟨[teaMemory], [], []⟩) := by
  rfl

theorem rival_coffeeNode (agent : AgentId) : Rival teaMemory [1] (coffeeNode agent) := by
  unfold Rival
  constructor
  · show (ratio 95 100 : Rat) < cosineSimilarity [1] [1]
    decide +kernel
  · show "drinks coffee" ≠ "drinks tea"
    decide

theorem contradiction_kept_iff_tea :
    exists r, (teaPipeline withoutDeduplication).process Build.wrapping LevelFilter.info ""
        [coffeeNode AgentId.nil] = some (Except.ok r) ∧ KeptAsContradiction r teaMemory := by
  have hfresh : Fresh (teaPipeline withoutDeduplication) [coffeeNode AgentId.nil] := by
    intro n e he
    rw [List.mem_singleton.mp he]
    show (⟨7⟩ : MemoryId) ≠ ⟨100⟩
    decide
  have hrival := rival_coffeeNode AgentId.nil
  have hfound : FoundContradictory (teaPipeline withoutDeduplication) [coffeeNode AgentId.nil]
      teaMemory [1] :=
    ⟨fun hon => Bool.noConfusion hon, coffeeNode AgentId.nil, List.mem_singleton_self _, rfl,
      hrival⟩
  have hquality : (ratio 6 10 : Rat) <= 1 := by decide +kernel
  rcases contradiction_kept_iff rfl hfresh teaPipeline_extractFull with ⟨r, hrun, hiff⟩
  exact ⟨r, hrun, (hiff teaMemory [1] (List.mem_singleton_self _) hquality rfl
    ⟨coffeeNode AgentId.nil, List.mem_singleton_self _, hrival⟩).mpr hfound⟩

/-- As it is configured by default the pipeline takes the contradiction for a duplicate, and
without the check for duplicates it does not see what contradicts the memory of an agent. -/
theorem contradictions_are_swallowed :
    (forall agent, Rival teaMemory [1] (coffeeNode agent)) ∧
    (exists r, (teaPipeline ExtractionConfig.default).process Build.wrapping LevelFilter.info ""
        [coffeeNode AgentId.nil] = some (Except.ok r) ∧
      r.contradictions.isEmpty = true ∧
      r.rejectedDuplicate.map ExtractedMemory.content = ["drinks tea"]) ∧
    (exists r, (teaPipeline withoutDeduplication).process Build.wrapping LevelFilter.info ""
        [coffeeNode ⟨1⟩] = some (Except.ok r) ∧
      r.contradictions.isEmpty = true ∧
      r.toStore.map ExtractedMemory.content = ["drinks tea"]) := by
  refine ⟨rival_coffeeNode, ⟨_, rfl, ?_, ?_⟩, ⟨_, rfl, ?_, ?_⟩⟩
  · decide +kernel
  · decide +kernel
  · decide +kernel
  · decide +kernel

end ExtractionPipeline
end Extraction
end MenteDb
