import Mathlib.Algebra.Order.Field.Basic
import Mathlib.Data.List.Induction
import MenteDb.Cognitive.Speculative
import MenteDb.Foundation.Separation

/-!
# Hits of the speculative cache

An entry is scored by the angle between embeddings where both sides have one, and by shared
words otherwise.  All entries compete for one highest score, and that score is compared with
one threshold: the one for embeddings as soon as any entry was scored by its embedding.
-/

namespace MenteDb
namespace Cognitive

variable {F : Type}

namespace SpeculativeCache

/-!
## Measures and their thresholds
-/

/-- How an entry is scored: by the angle if both sides have an embedding. -/
def byEmbedding (queryEmbedding : Option (List F)) (e : CacheEntry F) : Bool :=
  queryEmbedding.isSome && e.topicEmbedding.isSome

/-- The threshold of the measure an entry is scored with. -/
def ownThreshold (cache : SpeculativeCache F) (queryEmbedding : Option (List F))
    (e : CacheEntry F) : F :=
  if byEmbedding queryEmbedding e = true then cache.embeddingThreshold
  else cache.keywordThreshold

section Measures

variable {cache : SpeculativeCache F} {queryEmbedding : Option (List F)}

theorem threshold_of_byEmbedding {m : CacheEntry F} (hm : m ∈ cache.entries)
    (hmeasure : byEmbedding queryEmbedding m = true) :
    cache.threshold queryEmbedding = cache.embeddingThreshold := by
  have hboth := Bool.and_eq_true_iff.mp hmeasure
  unfold threshold
  rw [if_pos ⟨hboth.1, List.any_eq_true.mpr ⟨m, hm, hboth.2⟩⟩]

theorem threshold_of_words
    (hwords : forall m, m ∈ cache.entries -> byEmbedding queryEmbedding m = false) :
    cache.threshold queryEmbedding = cache.keywordThreshold := by
  unfold threshold
  rw [if_neg]
  rintro ⟨hquery, hany⟩
  rcases List.any_eq_true.mp hany with ⟨m, hm, hsome⟩
  have hmeasure := hwords m hm
  unfold byEmbedding at hmeasure
  rw [hquery, hsome] at hmeasure
  cases hmeasure

theorem ownThreshold_of_byEmbedding {e : CacheEntry F}
    (he : byEmbedding queryEmbedding e = true) :
    cache.ownThreshold queryEmbedding e = cache.embeddingThreshold := by
  unfold ownThreshold
  rw [if_pos he]

theorem ownThreshold_of_words {e : CacheEntry F} (he : byEmbedding queryEmbedding e = false) :
    cache.ownThreshold queryEmbedding e = cache.keywordThreshold := by
  unfold ownThreshold
  rw [he, if_neg Bool.false_ne_true]

/-- The one threshold: where an entry is scored by its embedding, that for embeddings. -/
theorem threshold_cases (cache : SpeculativeCache F) (queryEmbedding : Option (List F)) :
    (exists m, m ∈ cache.entries ∧ byEmbedding queryEmbedding m = true ∧
      cache.threshold queryEmbedding = cache.embeddingThreshold) ∨
    ((forall m, m ∈ cache.entries -> byEmbedding queryEmbedding m = false) ∧
      cache.threshold queryEmbedding = cache.keywordThreshold) := by
  by_cases hmixed : exists m, m ∈ cache.entries ∧ byEmbedding queryEmbedding m = true
  · rcases hmixed with ⟨m, hm, hmeasure⟩
    exact Or.inl ⟨m, hm, hmeasure, threshold_of_byEmbedding hm hmeasure⟩
  · have hwords : forall m, m ∈ cache.entries -> byEmbedding queryEmbedding m = false := by
      intro m hm
      exact Bool.eq_false_iff.mpr (fun hmeasure => hmixed ⟨m, hm, hmeasure⟩)
    exact Or.inr ⟨hwords, threshold_of_words hwords⟩

end Measures

variable [Scalar F]

/-!
## The entry with the highest score
-/

section Best

variable (text : TextOps F) (query : String) (queryEmbedding : Option (List F))

/-- The first of the entries with the highest score. -/
def Leads (entries : List (CacheEntry F)) (e : CacheEntry F) : Prop :=
  exists before after, entries = before ++ e :: after ∧
    (forall x, x ∈ before ->
      score text query queryEmbedding x < score text query queryEmbedding e) ∧
    forall x, x ∈ after -> score text query queryEmbedding x <= score text query queryEmbedding e

variable {text} {query} {queryEmbedding}

theorem Leads.mem {entries : List (CacheEntry F)} {e : CacheEntry F}
    (h : Leads text query queryEmbedding entries e) : e ∈ entries := by
  rcases h with ⟨before, after, heq, -, -⟩
  rw [heq]
  exact List.mem_append_right _ List.mem_cons_self

theorem Leads.le {entries : List (CacheEntry F)} {e x : CacheEntry F}
    (h : Leads text query queryEmbedding entries e) (hx : x ∈ entries) :
    score text query queryEmbedding x <= score text query queryEmbedding e := by
  rcases h with ⟨before, after, heq, hbefore, hafter⟩
  rw [heq] at hx
  rcases List.mem_append.mp hx with hmem | hmem
  · exact le_of_lt (hbefore x hmem)
  · rcases List.mem_cons.mp hmem with hxe | hmem
    · rw [hxe]
    · exact hafter x hmem

/-- One entry leads. -/
theorem Leads.unique {entries : List (CacheEntry F)} {e e' : CacheEntry F}
    (h : Leads text query queryEmbedding entries e)
    (h' : Leads text query queryEmbedding entries e') : e = e' := by
  have hscore := le_antisymm (h'.le h.mem) (h.le h'.mem)
  rcases h with ⟨before, after, heq, hbefore, -⟩
  rcases h' with ⟨before', after', heq', hbefore', -⟩
  rw [heq] at heq'
  exact (Foundation.Separation.split_unique
    (p := fun x => decide (score text query queryEmbedding x <
      score text query queryEmbedding e)) heq'
    (fun x hx => decide_eq_true (hbefore x hx)) (by simp)
    (fun x hx => decide_eq_true (by rw [hscore]; exact hbefore' x hx)) (by simp [hscore])).2.1

/-- An entry above all before it leads them. -/
theorem leads_append_singleton {entries : List (CacheEntry F)} {x : CacheEntry F}
    (h : forall y, y ∈ entries ->
      score text query queryEmbedding y < score text query queryEmbedding x) :
    Leads text query queryEmbedding (entries ++ [x]) x :=
  ⟨entries, [], rfl, h, fun _ hy => absurd hy List.not_mem_nil⟩

/-- Another entry leaves the lead where it is. -/
theorem Leads.append_singleton {entries : List (CacheEntry F)} {e x : CacheEntry F}
    (h : Leads text query queryEmbedding entries e)
    (hx : score text query queryEmbedding x <= score text query queryEmbedding e) :
    Leads text query queryEmbedding (entries ++ [x]) e := by
  rcases h with ⟨before, after, heq, hbefore, hafter⟩
  refine ⟨before, after ++ [x], by rw [heq]; simp, hbefore, ?_⟩
  intro y hy
  rcases List.mem_append.mp hy with hmem | hmem
  · exact hafter y hmem
  · rw [List.mem_singleton.mp hmem]
    exact hx

variable (text) (query) (queryEmbedding)

theorem bestEntry_append_singleton (entries : List (CacheEntry F)) (x : CacheEntry F) :
    bestEntry text query queryEmbedding (entries ++ [x]) =
      if ((bestEntry text query queryEmbedding entries).map Prod.snd).getD 0 <
          score text query queryEmbedding x then
        some (entries.length, score text query queryEmbedding x)
      else bestEntry text query queryEmbedding entries := by
  unfold bestEntry
  rw [List.zipIdx_append, List.foldl_append]
  simp

/-- The best entry leads with a positive score, or no score is positive. -/
theorem bestEntry_spec (entries : List (CacheEntry F)) :
    match bestEntry text query queryEmbedding entries with
    | none => forall x, x ∈ entries -> score text query queryEmbedding x <= 0
    | some (idx, best) => 0 < best ∧ exists e, entries[idx]? = some e ∧
        score text query queryEmbedding e = best ∧
        Leads text query queryEmbedding entries e := by
  induction entries using List.reverseRecOn with
  | nil =>
      intro x hx
      cases hx
  | append_singleton entries x ih =>
      rw [bestEntry_append_singleton]
      cases hbest : bestEntry text query queryEmbedding entries with
      | none =>
          rw [hbest] at ih
          simp only [Option.map_none, Option.getD_none]
          by_cases hlt : 0 < score text query queryEmbedding x
          · rw [if_pos hlt]
            exact ⟨hlt, x, by simp, rfl,
              leads_append_singleton (fun y hy => lt_of_le_of_lt (ih y hy) hlt)⟩
          · rw [if_neg hlt]
            intro y hy
            rcases List.mem_append.mp hy with hmem | hmem
            · exact ih y hmem
            · rw [List.mem_singleton.mp hmem]
              exact not_lt.mp hlt
      | some found =>
          rcases found with ⟨idx, best⟩
          rw [hbest] at ih
          rcases ih with ⟨hpos, e, hget, hscore, hleads⟩
          simp only [Option.map_some, Option.getD_some]
          by_cases hlt : best < score text query queryEmbedding x
          · rw [if_pos hlt]
            refine ⟨lt_trans hpos hlt, x, by simp, rfl, leads_append_singleton ?_⟩
            intro y hy
            rw [← hscore] at hlt
            exact lt_of_le_of_lt (hleads.le hy) hlt
          · rw [if_neg hlt]
            refine ⟨hpos, e, ?_, hscore, hleads.append_singleton ?_⟩
            · rw [List.getElem?_append_left]
              · exact hget
              · exact (List.getElem?_eq_some_iff.mp hget).1
            · rw [hscore]
              exact not_lt.mp hlt

end Best

/-!
## The answer
-/

/-- The use of an entry. -/
def used (now : Timestamp) (e : CacheEntry F) : CacheEntry F :=
  { e with hitCount := e.hitCount + 1, lastAccessed := now }

/-- The answer is the leading entry, if its score is positive and above the one threshold. -/
theorem tryHit_fst (text : TextOps F) (cache : SpeculativeCache F) (now : Timestamp)
    (query : String) (queryEmbedding : Option (List F)) :
    ((cache.tryHit text now query queryEmbedding).1 = none ∧
      forall e, e ∈ cache.entries -> 0 < score text query queryEmbedding e ->
        score text query queryEmbedding e <= cache.threshold queryEmbedding) ∨
    exists e, (cache.tryHit text now query queryEmbedding).1 = some (used now e) ∧
      Leads text query queryEmbedding cache.entries e ∧
      0 < score text query queryEmbedding e ∧
      cache.threshold queryEmbedding < score text query queryEmbedding e := by
  have hspec := bestEntry_spec text query queryEmbedding cache.entries
  unfold tryHit
  cases hbest : bestEntry text query queryEmbedding cache.entries with
  | none =>
      rw [hbest] at hspec
      refine Or.inl ⟨rfl, ?_⟩
      intro e he hpos
      exact absurd hpos (not_lt.mpr (hspec e he))
  | some found =>
      rcases found with ⟨idx, best⟩
      rw [hbest] at hspec
      rcases hspec with ⟨hpos, e, hget, hscore, hleads⟩
      simp only
      by_cases hlt : cache.threshold queryEmbedding < best
      · rw [if_pos hlt]
        rw [← hscore] at hpos hlt
        refine Or.inr ⟨e, ?_, hleads, hpos, hlt⟩
        show (cache.entries.modify idx (used now))[idx]? = some (used now e)
        rw [List.getElem?_modify_eq, hget]
        rfl
      · rw [if_neg hlt]
        refine Or.inl ⟨rfl, ?_⟩
        intro x hx _
        exact le_trans (hleads.le hx) (by rw [hscore]; exact not_lt.mp hlt)

/-!
## Each entry under its own threshold
-/

section Thresholds

variable (text : TextOps F) (cache : SpeculativeCache F) (query : String)
variable (queryEmbedding : Option (List F))

/-- An entry is above the threshold of its own measure. -/
def Passes (e : CacheEntry F) : Prop :=
  cache.ownThreshold queryEmbedding e < score text query queryEmbedding e

/-- What is returned passes, and something is returned if anything passes. -/
structure HitsFairly (now : Timestamp) : Prop where
  hit : forall e, (cache.tryHit text now query queryEmbedding).1 = some e ->
    Passes text cache query queryEmbedding e
  miss : (exists e, e ∈ cache.entries ∧ Passes text cache query queryEmbedding e) ->
    (cache.tryHit text now query queryEmbedding).1 ≠ none

/-- The thresholds do not come apart: no entry passes with all scores at most zero; and, where
some entry is scored by its embedding, no entry passes by its words while all scores stay under
the threshold for embeddings, and an entry that leads by its words above that threshold is also
above the one for words. -/
structure ThresholdsAgree : Prop where
  positive : forall e, e ∈ cache.entries -> Passes text cache query queryEmbedding e ->
    exists x, x ∈ cache.entries ∧ 0 < score text query queryEmbedding x
  reached : forall m, m ∈ cache.entries -> byEmbedding queryEmbedding m = true ->
    forall e, e ∈ cache.entries -> byEmbedding queryEmbedding e = false ->
      cache.keywordThreshold < score text query queryEmbedding e ->
      exists x, x ∈ cache.entries ∧ 0 < score text query queryEmbedding x ∧
        cache.embeddingThreshold < score text query queryEmbedding x
  leads : forall m, m ∈ cache.entries -> byEmbedding queryEmbedding m = true ->
    forall e, Leads text query queryEmbedding cache.entries e ->
      byEmbedding queryEmbedding e = false -> 0 < score text query queryEmbedding e ->
      cache.embeddingThreshold < score text query queryEmbedding e ->
      cache.keywordThreshold < score text query queryEmbedding e

variable {text} {cache} {query} {queryEmbedding}

/-- An entry that leads is returned if it is above the one threshold. -/
theorem tryHit_of_leads (now : Timestamp) {e : CacheEntry F} (he : e ∈ cache.entries)
    (hpos : 0 < score text query queryEmbedding e)
    (hlt : cache.threshold queryEmbedding < score text query queryEmbedding e) :
    (cache.tryHit text now query queryEmbedding).1 ≠ none := by
  rcases tryHit_fst text cache now query queryEmbedding with ⟨-, hle⟩ | ⟨x, hx, -, -, -⟩
  · exact absurd hlt (not_lt.mpr (hle e he hpos))
  · rw [hx]
    exact Option.some_ne_none _

theorem thresholdsAgree_of_hitsFairly {now : Timestamp}
    (h : HitsFairly text cache query queryEmbedding now) :
    ThresholdsAgree text cache query queryEmbedding := by
  constructor
  · intro e he hpasses
    rcases tryHit_fst text cache now query queryEmbedding with
      ⟨hnone, -⟩ | ⟨x, -, hleads, hpos, -⟩
    · exact absurd hnone (h.miss ⟨e, he, hpasses⟩)
    · exact ⟨x, hleads.mem, hpos⟩
  · intro m hm hmeasure e he hwords hlt
    have hpasses : Passes text cache query queryEmbedding e := by
      unfold Passes
      rw [ownThreshold_of_words hwords]
      exact hlt
    rcases tryHit_fst text cache now query queryEmbedding with
      ⟨hnone, -⟩ | ⟨x, -, hleads, hpos, habove⟩
    · exact absurd hnone (h.miss ⟨e, he, hpasses⟩)
    · rw [threshold_of_byEmbedding hm hmeasure] at habove
      exact ⟨x, hleads.mem, hpos, habove⟩
  · intro m hm hmeasure e hleads hwords hpos hlt
    have hthreshold := threshold_of_byEmbedding hm hmeasure
    rcases tryHit_fst text cache now query queryEmbedding with
      ⟨-, hle⟩ | ⟨x, hx, hleads', -, -⟩
    · have hbelow := hle e hleads.mem hpos
      rw [hthreshold] at hbelow
      exact absurd hlt (not_lt.mpr hbelow)
    · have heq := hleads.unique hleads'
      rw [← heq] at hx
      have hpasses : Passes text cache query queryEmbedding e := h.hit (used now e) hx
      unfold Passes at hpasses
      rwa [ownThreshold_of_words hwords] at hpasses

theorem hitsFairly_of_thresholdsAgree (now : Timestamp)
    (h : ThresholdsAgree text cache query queryEmbedding) :
    HitsFairly text cache query queryEmbedding now := by
  constructor
  · intro e hsome
    rcases tryHit_fst text cache now query queryEmbedding with
      ⟨hnone, -⟩ | ⟨x, hx, hleads, hpos, habove⟩
    · rw [hnone] at hsome
      cases hsome
    · rw [hx] at hsome
      cases hsome
      show Passes text cache query queryEmbedding x
      unfold Passes
      cases hmeasure : byEmbedding queryEmbedding x with
      | true =>
          rw [ownThreshold_of_byEmbedding hmeasure]
          rwa [threshold_of_byEmbedding hleads.mem hmeasure] at habove
      | false =>
          rw [ownThreshold_of_words hmeasure]
          rcases threshold_cases cache queryEmbedding with
            ⟨m, hm, hm', hthreshold⟩ | ⟨-, hthreshold⟩
          · rw [hthreshold] at habove
            exact h.leads m hm hm' x hleads hmeasure hpos habove
          · rwa [hthreshold] at habove
  · rintro ⟨e, he, hpasses⟩
    rcases h.positive e he hpasses with ⟨y, hy, hypos⟩
    -- a positive score above the one threshold is as good as the entry that passes
    have habove : exists x, x ∈ cache.entries ∧ 0 < score text query queryEmbedding x ∧
        cache.threshold queryEmbedding < score text query queryEmbedding x := by
      have hkeep : cache.threshold queryEmbedding < score text query queryEmbedding e ->
          exists x, x ∈ cache.entries ∧ 0 < score text query queryEmbedding x ∧
            cache.threshold queryEmbedding < score text query queryEmbedding x := by
        intro hlt
        rcases lt_or_ge 0 (score text query queryEmbedding e) with hpos | hle
        · exact ⟨e, he, hpos, hlt⟩
        · exact ⟨y, hy, hypos, lt_trans hlt (lt_of_le_of_lt hle hypos)⟩
      unfold Passes at hpasses
      rcases threshold_cases cache queryEmbedding with
        ⟨m, hm, hm', hthreshold⟩ | ⟨hwords, hthreshold⟩
      · cases hmeasure : byEmbedding queryEmbedding e with
        | true =>
            rw [ownThreshold_of_byEmbedding hmeasure, ← hthreshold] at hpasses
            exact hkeep hpasses
        | false =>
            rw [ownThreshold_of_words hmeasure] at hpasses
            rw [hthreshold]
            exact h.reached m hm hm' e he hmeasure hpasses
      · rw [ownThreshold_of_words (hwords e he), ← hthreshold] at hpasses
        exact hkeep hpasses
    rcases habove with ⟨x, hx, hpos, hlt⟩
    exact tryHit_of_leads now hx hpos hlt

variable (text) (cache) (query) (queryEmbedding)

/-- Hits are fair exactly when the thresholds of the two measures agree on the entries. -/
theorem hits_fairly_iff (now : Timestamp) :
    HitsFairly text cache query queryEmbedding now <->
      ThresholdsAgree text cache query queryEmbedding :=
  ⟨thresholdsAgree_of_hitsFairly, hitsFairly_of_thresholdsAgree now⟩

end Thresholds

/-- An entry with an embedding the query has nothing in common with, and one without. -/
def mixedCache : SpeculativeCache Rat :=
  (new 10 (1 / 2) (2 / 5)).preAssemble 10 ["tea", "go db io"] (fun topic =>
    some (topic, [], if topic = "tea" then some [1, 0] else none))

def mixedAnswer : Option (CacheEntry Rat) :=
  (mixedCache.tryHit asciiOps 20 "go db ui" (some [0, 1])).1

/-- Half of the words are shared, which is above the threshold for embeddings and not above
that for words. -/
theorem shared_words_pass_for_embedding :
    mixedAnswer.map CacheEntry.topic = some "go db io" ∧
    mixedAnswer.all (fun e => decide (mixedCache.ownThreshold (some [0, 1]) e <
      score asciiOps "go db ui" (some [0, 1]) e)) = false ∧
    ¬ HitsFairly asciiOps mixedCache "go db ui" (some [0, 1]) 20 := by
  have htopic : mixedAnswer.map CacheEntry.topic = some "go db io" := by decide +kernel
  have hbelow : mixedAnswer.all (fun e => decide
      (mixedCache.ownThreshold (some [0, 1]) e <
        score asciiOps "go db ui" (some [0, 1]) e)) = false := by decide +kernel
  refine ⟨htopic, hbelow, ?_⟩
  intro h
  rcases Option.map_eq_some_iff.mp htopic with ⟨e, he, -⟩
  have hpasses : mixedCache.ownThreshold (some [0, 1]) e <
      score asciiOps "go db ui" (some [0, 1]) e := h.hit e he
  rw [he, Option.all_some] at hbelow
  exact absurd hpasses (of_decide_eq_false hbelow)

end SpeculativeCache
end Cognitive
end MenteDb
