import MenteDb.Embedding.Cache
import MenteDb.Foundation.Outcome

/-!
# The embedding manager

A provider computes embeddings, and the manager asks it only for what is not in the cache.  The
cache knows texts by a hash, so what comes out of it is the embedding of some text with that hash
that was asked for before.
-/

namespace MenteDb
namespace Embedding

open Foundation

variable {F : Type}

/-- Each call is numbered; a provider may fail now and then. -/
structure EmbeddingProvider (F : Type) where
  modelName : String
  embed : Nat -> String -> Except MenteError (List F)
  embedBatch : Nat -> List String -> Except MenteError (List (List F))

/-- When it does not fail, the provider returns the embedding of the text, and a batch returns
embeddings of the texts in their order. -/
structure EmbeddingProvider.Computes (provider : EmbeddingProvider F)
    (vector : String -> List F) : Prop where
  embed : forall n text v, provider.embed n text = Except.ok v -> v = vector text
  embedBatch : forall n texts vs, provider.embedBatch n texts = Except.ok vs ->
    forall p, p ∈ texts.zip vs -> p.2 = vector p.1

structure EmbeddingManager (F : Type) where
  cache : EmbeddingCache F
  totalEmbeddings : UInt64
  /-- How often the provider was called. -/
  calls : Nat

namespace EmbeddingManager

open EmbeddingCache

def new (cacheSize : Nat) : EmbeddingManager F where
  cache := EmbeddingCache.new cacheSize
  totalEmbeddings := 0
  calls := 0

section Requests

variable (provider : EmbeddingProvider F)

def embed (m : EmbeddingManager F) (now : Timestamp) (text : String) :
    Except MenteError (List F) × EmbeddingManager F :=
  let looked := m.cache.get text provider.modelName
  match looked.1 with
  | some cached => (Except.ok cached, { m with cache := looked.2 })
  | none =>
      match provider.embed m.calls text with
      | Except.error e => (Except.error e, { m with cache := looked.2, calls := m.calls + 1 })
      | Except.ok embedding =>
          (Except.ok embedding,
            { cache := looked.2.put now text provider.modelName embedding
              totalEmbeddings := m.totalEmbeddings + 1
              calls := m.calls + 1 })

/-- The cached embeddings of the texts, one lookup after the other. -/
def lookUp (model : String) : EmbeddingCache F -> List String ->
    List (Option (List F)) × EmbeddingCache F
  | c, [] => ([], c)
  | c, text :: rest =>
      let looked := c.get text model
      let later := lookUp model looked.2 rest
      (looked.1 :: later.1, later.2)

/-- The texts without a result, with their places. -/
def missing (texts : List String) (results : List (Option (List F))) : List (String × Nat) :=
  ((texts.zip results).zipIdx.filter (fun r => r.1.2.isNone)).map (fun r => (r.1.1, r.2))

/-- The loop over what was computed. -/
def fill (now : Timestamp) (model : String)
    (state : List (Option (List F)) × EmbeddingManager F) (computed : (String × Nat) × List F) :
    List (Option (List F)) × EmbeddingManager F :=
  (state.1.set computed.1.2 (some computed.2),
    { state.2 with
      cache := state.2.cache.put now computed.1.1 model computed.2
      totalEmbeddings := state.2.totalEmbeddings + 1 })

/-- A result that is still missing stops the thread. -/
def unwrapAll (results : List (Option (List F))) : Except (Stop MenteError) (List (List F)) :=
  match results.mapM id with
  | some embeddings => Except.ok embeddings
  | none => Except.error Stop.panic

def embedBatch (m : EmbeddingManager F) (now : Timestamp) (texts : List String) :
    Except (Stop MenteError) (List (List F)) × EmbeddingManager F :=
  let looked := lookUp provider.modelName m.cache texts
  let left := missing texts looked.1
  if left = [] then (unwrapAll looked.1, { m with cache := looked.2 })
  else
    match provider.embedBatch m.calls (left.map Prod.fst) with
    | Except.error e =>
        (Except.error (Stop.error e), { m with cache := looked.2, calls := m.calls + 1 })
    | Except.ok computed =>
        let filled := (left.zip computed).foldl (fill now provider.modelName)
          (looked.1, { m with cache := looked.2, calls := m.calls + 1 })
        (unwrapAll filled.1, filled.2)

/-- The node as it is afterwards, with the answer. -/
def embedMemory (m : EmbeddingManager F) (now : Timestamp) (node : MemoryNode F) :
    Except MenteError (MemoryNode F) × EmbeddingManager F :=
  let answer := m.embed provider now node.content
  (answer.1.map (fun embedding => { node with embedding := embedding }), answer.2)

def clearCache (m : EmbeddingManager F) : EmbeddingManager F :=
  { m with cache := m.cache.clear }

/-!
## Runs
-/

inductive Request (F : Type) where
  | embed (now : Timestamp) (text : String)
  | embedBatch (now : Timestamp) (texts : List String)
  | embedMemory (now : Timestamp) (node : MemoryNode F)
  | clearCache

/-- The texts that are looked up. -/
def Request.texts : Request F -> List String
  | embed _ text => [text]
  | embedBatch _ texts => texts
  | embedMemory _ node => [node.content]
  | clearCache => []

/-- One embedding for each text of the request, or why there is none. -/
def answer (m : EmbeddingManager F) :
    Request F -> Except (Stop MenteError) (List (List F)) × EmbeddingManager F
  | Request.embed now text =>
      let answer := m.embed provider now text
      ((answer.1.map (fun v => [v])).mapError Stop.error, answer.2)
  | Request.embedBatch now texts => m.embedBatch provider now texts
  | Request.embedMemory now node =>
      let answer := m.embedMemory provider now node
      ((answer.1.map (fun node => [node.embedding])).mapError Stop.error, answer.2)
  | Request.clearCache => (Except.ok [], m.clearCache)

def run (cacheSize : Nat) (requests : List (Request F)) : EmbeddingManager F :=
  requests.foldl (fun m request => (m.answer provider request).2) (new cacheSize)

end Requests

/-- The texts of earlier requests that may be in the cache after this one. -/
def Request.keeps (texts : List String) : Request F -> List String
  | clearCache => []
  | _ => texts

/-- The texts that were asked for since the cache was last cleared. -/
def asked (requests : List (Request F)) : List String :=
  requests.foldl (fun texts request => request.keeps texts ++ request.texts) []

/-!
## What is in the cache
-/

section Cache

variable {model : String} {vector : String -> List F} {texts : List String}

/-- The embedding of a text that was asked for under the key of this one. -/
def Embeds (model : String) (vector : String -> List F) (texts : List String) (text : String)
    (v : List F) : Prop :=
  exists t, t ∈ texts ∧ cacheKey model t = cacheKey model text ∧ v = vector t

/-- Everything in the cache was asked for. -/
def Cached (model : String) (vector : String -> List F) (texts : List String)
    (c : EmbeddingCache F) : Prop :=
  forall text entry, c.cache.find? (cacheKey model text) = some entry ->
    Embeds model vector texts text entry.embedding

theorem Cached.mono {c : EmbeddingCache F} (h : Cached model vector texts c) {more : List String}
    (hsub : texts ⊆ more) : Cached model vector more c := by
  intro text entry hentry
  rcases h text entry hentry with ⟨t, ht, hkey, hv⟩
  exact ⟨t, hsub ht, hkey, hv⟩

theorem embeds_of_get {c : EmbeddingCache F} (h : Cached model vector texts c) {text : String}
    {v : List F} (hv : (c.get text model).1 = some v) : Embeds model vector texts text v := by
  cases hfind : c.cache.find? (cacheKey model text) with
  | none =>
      rw [get_miss hfind] at hv
      cases hv
  | some entry =>
      rw [get_hit hfind] at hv
      cases hv
      exact h text entry hfind

theorem Cached.get {c : EmbeddingCache F} (h : Cached model vector texts c) (text : String) :
    Cached model vector texts (c.get text model).2 := by
  intro other entry hentry
  cases hfind : c.cache.find? (cacheKey model text) with
  | none =>
      rw [get_miss hfind] at hentry
      exact h other entry hentry
  | some found =>
      rw [get_hit hfind] at hentry
      dsimp only at hentry
      rw [Assoc.find?_insert] at hentry
      split at hentry
      · rename_i hsame
        cases hentry
        exact h other found (by rw [hsame]; exact hfind)
      · exact h other entry hentry

theorem find?_of_evictLoop {maxSize : Nat} {order : List UInt64}
    {cache : Assoc UInt64 (CachedEmbedding F)} {evictions : UInt64} {key : UInt64}
    {entry : CachedEmbedding F}
    (h : (evictLoop maxSize order cache evictions).2.1.find? key = some entry) :
    cache.find? key = some entry := by
  induction order generalizing cache evictions with
  | nil => exact h
  | cons first rest ih =>
      unfold evictLoop at h
      split at h
      · have hrest := ih h
        rw [Assoc.find?_erase] at hrest
        split at hrest
        · cases hrest
        · exact hrest
      · exact h

theorem Cached.put {c : EmbeddingCache F} (h : Cached model vector texts c) {text : String}
    (htext : text ∈ texts) (now : Timestamp) :
    Cached model vector texts (c.put now text model (vector text)) := by
  intro other entry hentry
  have hinsert : forall cache : Assoc UInt64 (CachedEmbedding F),
      (forall e, cache.find? (cacheKey model other) = some e ->
        c.cache.find? (cacheKey model other) = some e) ->
      (cache.insert (cacheKey model text)
        { embedding := vector text, createdAt := now, hitCount := 0 }).find?
          (cacheKey model other) = some entry ->
      Embeds model vector texts other entry.embedding := by
    intro cache hcache hfound
    rw [Assoc.find?_insert] at hfound
    split at hfound
    · rename_i hsame
      cases hfound
      exact ⟨text, htext, hsame.symm, rfl⟩
    · exact h other entry (hcache entry hfound)
  unfold EmbeddingCache.put at hentry
  dsimp only at hentry
  split at hentry
  · exact hinsert c.cache (fun _ he => he) hentry
  · exact hinsert _ (fun _ he => find?_of_evictLoop he) hentry

/-- How often the cache was asked. -/
def lookups (c : EmbeddingCache F) : UInt64 := c.hits + c.misses

theorem lookups_get (c : EmbeddingCache F) (text model : String) :
    lookups (c.get text model).2 = lookups c + 1 := by
  unfold lookups
  cases hfind : c.cache.find? (cacheKey model text) with
  | none =>
      rw [get_miss hfind]
      exact (UInt64.add_assoc _ _ _).symm
  | some entry =>
      rw [get_hit hfind]
      show c.hits + 1 + c.misses = c.hits + c.misses + 1
      rw [UInt64.add_assoc, UInt64.add_comm 1, UInt64.add_assoc]

theorem lookups_put (c : EmbeddingCache F) (now : Timestamp) (text model : String)
    (embedding : List F) : lookups (c.put now text model embedding) = lookups c := by
  unfold lookups EmbeddingCache.put
  dsimp only
  split <;> rfl

end Cache

/-!
## Batches
-/

section Batches

variable {model : String} {vector : String -> List F} {asked texts : List String}

/-- There is a place for each text, and what is there is an embedding of it. -/
structure Placed (model : String) (vector : String -> List F) (asked texts : List String)
    (results : List (Option (List F))) : Prop where
  length : results.length = texts.length
  value : forall {i : Nat} {text : String} {v : List F}, texts[i]? = some text ->
    results[i]? = some (some v) -> Embeds model vector asked text v

theorem lookUp_spec {c : EmbeddingCache F} (h : Cached model vector asked c)
    (texts : List String) :
    Cached model vector asked (lookUp model c texts).2 ∧
      Placed model vector asked texts (lookUp model c texts).1 ∧
      lookups (lookUp model c texts).2 = lookups c + UInt64.ofNat texts.length := by
  induction texts generalizing c with
  | nil =>
      refine ⟨h, ⟨rfl, ?_⟩, (UInt64.add_zero _).symm⟩
      intro i text v htext _
      cases htext
  | cons first rest ih =>
      rcases ih (h.get first) with ⟨hcached, hplaced, hlookups⟩
      refine ⟨hcached, ⟨?_, ?_⟩, ?_⟩
      · exact congrArg (fun n => n + 1) hplaced.length
      · intro i text v htext hv
        cases i with
        | zero =>
            cases htext
            exact embeds_of_get h (Option.some.inj hv)
        | succ i => exact hplaced.value htext hv
      · refine hlookups.trans ?_
        rw [lookups_get, List.length_cons, UInt64.ofNat_add, UInt64.add_assoc, UInt64.add_comm 1]
        rfl

theorem mem_missing {results : List (Option (List F))} {text : String} {i : Nat} :
    (text, i) ∈ missing texts results <->
      texts[i]? = some text ∧ results[i]? = some none := by
  unfold missing
  rw [List.mem_map]
  constructor
  · rintro ⟨⟨⟨t, r⟩, k⟩, hmem, heq⟩
    cases heq
    rcases List.mem_filter.mp hmem with ⟨hmem, hnone⟩
    have hget := List.mk_mem_zipIdx_iff_getElem?.mp hmem
    rw [List.getElem?_zip_eq_some] at hget
    rw [Option.isNone_iff_eq_none] at hnone
    dsimp only at hnone hget
    rw [hnone] at hget
    exact hget
  · rintro ⟨htext, hresult⟩
    refine ⟨((text, none), i), List.mem_filter.mpr ⟨?_, rfl⟩, rfl⟩
    rw [List.mk_mem_zipIdx_iff_getElem?, List.getElem?_zip_eq_some]
    exact ⟨htext, hresult⟩

/-- A place without a result is asked for. -/
theorem place_mem_missing {results : List (Option (List F))}
    (hlength : results.length = texts.length) {i : Nat} (hi : results[i]? = some none) :
    i ∈ (missing texts results).map Prod.snd := by
  have hlong : i < texts.length := by
    rw [← hlength]
    exact (List.getElem?_eq_some_iff.mp hi).1
  have hmem := mem_missing.mpr ⟨List.getElem?_eq_getElem hlong, hi⟩
  exact List.mem_map.mpr ⟨_, hmem, rfl⟩

/-- Computed embeddings are put in their places; a place that stays empty was not computed. -/
theorem fill_spec {results : List (Option (List F))} {m : EmbeddingManager F}
    (hplaced : Placed model vector asked texts results)
    (hcached : Cached model vector asked m.cache) (hasked : texts ⊆ asked) (now : Timestamp)
    {computed : List ((String × Nat) × List F)}
    (hcomputed : forall p, p ∈ computed -> texts[p.1.2]? = some p.1.1 ∧ p.2 = vector p.1.1) :
    Placed model vector asked texts (computed.foldl (fill now model) (results, m)).1 ∧
      Cached model vector asked (computed.foldl (fill now model) (results, m)).2.cache ∧
      lookups (computed.foldl (fill now model) (results, m)).2.cache = lookups m.cache ∧
      forall i, (computed.foldl (fill now model) (results, m)).1[i]? = some none ->
        results[i]? = some none ∧ i ∉ computed.map (fun p => p.1.2) := by
  induction computed generalizing results m with
  | nil => exact ⟨hplaced, hcached, rfl, fun i hi => ⟨hi, List.not_mem_nil⟩⟩
  | cons p rest ih =>
      rcases hcomputed p List.mem_cons_self with ⟨htext, hv⟩
      have hmem : p.1.1 ∈ asked := hasked (List.mem_of_getElem? htext)
      have hset : Placed model vector asked texts (results.set p.1.2 (some p.2)) := by
        refine ⟨(List.length_set ..).trans hplaced.length, ?_⟩
        intro i text v htext' hresult
        rw [List.getElem?_set] at hresult
        split at hresult
        · rename_i hi
          split at hresult
          · cases hresult
            rw [← hi, htext] at htext'
            cases htext'
            exact ⟨p.1.1, hmem, rfl, hv⟩
          · cases hresult
        · exact hplaced.value htext' hresult
      have hput : Cached model vector asked
          (m.cache.put now p.1.1 model p.2) := by
        rw [hv]
        exact hcached.put hmem now
      rcases ih hset (m := (fill now model (results, m) p).2) hput
        (fun q hq => hcomputed q (List.mem_cons_of_mem _ hq)) with
        ⟨hfilled, hkept, hlookups, hempty⟩
      refine ⟨hfilled, hkept, hlookups.trans (lookups_put ..), ?_⟩
      intro i hi
      rcases hempty i hi with ⟨hnone, hnot⟩
      rw [List.getElem?_set] at hnone
      split at hnone
      · split at hnone
        · cases hnone
        · cases hnone
      · rename_i hne
        refine ⟨hnone, ?_⟩
        rw [List.map_cons, List.mem_cons]
        rintro (heq | hlater)
        · exact hne heq.symm
        · exact hnot hlater

/-- The texts that the provider is asked for. -/
def unknownTexts (model : String) (m : EmbeddingManager F) (texts : List String) : List String :=
  (missing texts (lookUp model m.cache texts).1).map Prod.fst

/-- Why a request may fail: the provider failed on the texts that are not in the cache, or
returned too few embeddings for them. -/
def Faults (provider : EmbeddingProvider F) (m : EmbeddingManager F) (texts : List String) :
    Stop MenteError -> Prop
  | Stop.error e =>
      (exists text, texts = [text] ∧ unknownTexts provider.modelName m texts = [text] ∧
        provider.embed m.calls text = Except.error e) ∨
      provider.embedBatch m.calls (unknownTexts provider.modelName m texts) = Except.error e
  | Stop.panic => exists vs,
      provider.embedBatch m.calls (unknownTexts provider.modelName m texts) = Except.ok vs ∧
        vs.length < (unknownTexts provider.modelName m texts).length
  | Stop.timeout => False

/-- What is known of an answer to some texts. -/
structure Answers (provider : EmbeddingProvider F) (vector : String -> List F)
    (asked texts : List String) (m : EmbeddingManager F)
    (answered : Except (Stop MenteError) (List (List F)) × EmbeddingManager F) : Prop where
  embeddings : forall {vs : List (List F)}, answered.1 = Except.ok vs ->
    List.Forall₂ (Embeds provider.modelName vector asked) texts vs
  faults : forall {stop : Stop MenteError}, answered.1 = Except.error stop ->
    Faults provider m texts stop
  cached : Cached provider.modelName vector asked answered.2.cache
  lookups : lookups answered.2.cache = lookups m.cache + UInt64.ofNat texts.length

variable {provider : EmbeddingProvider F}

/-- What comes out when nothing is missing. -/
theorem forall₂_of_unwrapAll {results : List (Option (List F))} {vs : List (List F)}
    (hplaced : Placed model vector asked texts results)
    (h : unwrapAll results = Except.ok vs) :
    List.Forall₂ (Embeds model vector asked) texts vs := by
  unfold unwrapAll at h
  split at h
  · rename_i found hfound
    cases h
    rw [mapM_id_eq_some_iff] at hfound
    have hlength := hplaced.length
    rw [hfound, List.length_map] at hlength
    rw [List.forall₂_iff_get]
    refine ⟨hlength.symm, ?_⟩
    intro i hi hv
    refine hplaced.value (i := i) (List.getElem?_eq_getElem hi) ?_
    rw [hfound, List.getElem?_map, List.getElem?_eq_getElem hv]
    rfl
  · cases h

theorem exists_none_of_unwrapAll {results : List (Option (List F))} {stop : Stop MenteError}
    (h : unwrapAll results = Except.error stop) :
    stop = Stop.panic ∧ exists i : Nat, results[i]? = some none := by
  unfold unwrapAll at h
  split at h
  · cases h
  · rename_i hnone
    cases h
    refine ⟨rfl, ?_⟩
    by_contra hall
    have hsome : (results.mapM id).isSome = true := by
      rw [mapM_isSome_iff]
      intro r hr
      rcases List.getElem?_of_mem hr with ⟨i, hi⟩
      cases r with
      | none => exact absurd ⟨i, hi⟩ hall
      | some v => rfl
    rw [hnone] at hsome
    cases hsome

theorem embed_answers (hprovider : provider.Computes vector) {m : EmbeddingManager F}
    (hcached : Cached provider.modelName vector asked m.cache) {text : String}
    (htext : text ∈ asked) (now : Timestamp) :
    (forall v, (m.embed provider now text).1 = Except.ok v ->
        Embeds provider.modelName vector asked text v) ∧
      (forall e, (m.embed provider now text).1 = Except.error e ->
        unknownTexts provider.modelName m [text] = [text] ∧
          provider.embed m.calls text = Except.error e) ∧
      Cached provider.modelName vector asked (m.embed provider now text).2.cache ∧
      lookups (m.embed provider now text).2.cache = lookups m.cache + 1 := by
  have hget := hcached.get text
  have hcount := lookups_get m.cache text provider.modelName
  unfold embed
  dsimp only
  split
  · rename_i v hv
    refine ⟨?_, ?_, hget, hcount⟩
    · intro v' heq
      cases heq
      exact embeds_of_get hcached hv
    · intro e heq
      cases heq
  · rename_i hnone
    split
    · rename_i e he
      refine ⟨?_, ?_, hget, hcount⟩
      · intro v heq
        cases heq
      · intro e' heq
        cases heq
        refine ⟨?_, he⟩
        show (missing [text] [(m.cache.get text provider.modelName).1]).map Prod.fst = [text]
        rw [hnone]
        rfl
    · rename_i v hv
      have hvector := hprovider.embed _ _ _ hv
      rw [hvector]
      refine ⟨?_, ?_, hget.put htext now, (lookups_put ..).trans hcount⟩
      · intro v' heq
        cases heq
        exact ⟨text, htext, rfl, rfl⟩
      · intro e heq
        cases heq

theorem embedBatch_answers (hprovider : provider.Computes vector) {m : EmbeddingManager F}
    (hcached : Cached provider.modelName vector asked m.cache) (htexts : texts ⊆ asked)
    (now : Timestamp) :
    Answers provider vector asked texts m (m.embedBatch provider now texts) := by
  rcases lookUp_spec hcached texts with ⟨hlooked, hplaced, hcount⟩
  unfold embedBatch
  dsimp only
  split
  · rename_i hnone
    refine ⟨forall₂_of_unwrapAll hplaced, ?_, hlooked, hcount⟩
    intro stop hstop
    rcases exists_none_of_unwrapAll hstop with ⟨_, i, hi⟩
    have hmem := place_mem_missing hplaced.length hi
    rw [hnone] at hmem
    cases hmem
  · split
    · rename_i e he
      refine ⟨?_, ?_, hlooked, hcount⟩
      · intro vs heq
        cases heq
      · intro stop heq
        cases heq
        exact Or.inr he
    · rename_i computed hbatch
      have hpairs := hprovider.embedBatch _ _ _ hbatch
      have hcomputed : forall p,
          p ∈ (missing texts (lookUp provider.modelName m.cache texts).1).zip computed ->
          texts[p.1.2]? = some p.1.1 ∧ p.2 = vector p.1.1 := by
        rintro ⟨⟨text, i⟩, v⟩ hp
        refine ⟨(mem_missing.mp (List.of_mem_zip hp).1).1, hpairs (text, v) ?_⟩
        rw [List.zip_map_left]
        exact List.mem_map.mpr ⟨_, hp, rfl⟩
      rcases fill_spec (m := { m with
          cache := (lookUp provider.modelName m.cache texts).2, calls := m.calls + 1 })
        hplaced hlooked htexts now hcomputed with ⟨hfilled, hkept, hlookups, hempty⟩
      refine ⟨forall₂_of_unwrapAll hfilled, ?_, hkept, hlookups.trans hcount⟩
      -- a place is left empty when the batch ends before it
      intro stop hstop
      rcases exists_none_of_unwrapAll hstop with ⟨hpanic, i, hi⟩
      rcases hempty i hi with ⟨hnone, hnot⟩
      rw [hpanic]
      refine ⟨computed, hbatch, ?_⟩
      by_contra hfull
      unfold unknownTexts at hfull
      rw [List.length_map, not_lt] at hfull
      apply hnot
      have hplaces : ((missing texts (lookUp provider.modelName m.cache texts).1).zip
          computed).map (fun p => p.1.2) =
          (missing texts (lookUp provider.modelName m.cache texts).1).map Prod.snd := by
        have hfst := congrArg (List.map Prod.snd) (List.map_fst_zip hfull)
        rw [List.map_map] at hfst
        exact hfst
      rw [hplaces]
      exact place_mem_missing hplaced.length hnone

/-- One text, for itself or for a memory. -/
theorem answer_embed (hprovider : provider.Computes vector) {m : EmbeddingManager F}
    (hcached : Cached provider.modelName vector asked m.cache) {text : String}
    (htext : text ∈ asked) (now : Timestamp) :
    Answers provider vector asked [text] m (m.answer provider (Request.embed now text)) := by
  rcases embed_answers hprovider hcached htext now with ⟨hok, herror, hkept, hcount⟩
  unfold answer
  refine ⟨?_, ?_, hkept, hcount⟩
  · intro vs hvs
    dsimp only at hvs
    cases hanswer : (m.embed provider now text).1 with
    | error e =>
        rw [hanswer] at hvs
        cases hvs
    | ok v =>
        rw [hanswer] at hvs
        cases hvs
        exact List.Forall₂.cons (hok v hanswer) List.Forall₂.nil
  · intro stop hstop
    dsimp only at hstop
    cases hanswer : (m.embed provider now text).1 with
    | error e =>
        rw [hanswer] at hstop
        cases hstop
        exact Or.inl ⟨text, rfl, herror e hanswer⟩
    | ok v =>
        rw [hanswer] at hstop
        cases hstop

theorem answer_embedMemory (m : EmbeddingManager F) (now : Timestamp) (node : MemoryNode F) :
    m.answer provider (Request.embedMemory now node) =
      m.answer provider (Request.embed now node.content) := by
  unfold answer embedMemory
  dsimp only
  cases (m.embed provider now node.content).1 <;> rfl

end Batches

/-!
## Answers

After each request the cache holds only what was asked for since it was last cleared.
-/

section Requested

variable {provider : EmbeddingProvider F} {vector : String -> List F}

theorem asked_append_singleton (past : List (Request F)) (request : Request F) :
    asked (past ++ [request]) = request.keeps (asked past) ++ request.texts := by
  unfold asked
  rw [List.foldl_append]
  rfl

theorem run_append_singleton (cacheSize : Nat) (past : List (Request F)) (request : Request F) :
    run provider cacheSize (past ++ [request]) =
      ((run provider cacheSize past).answer provider request).2 := by
  unfold run
  rw [List.foldl_append]
  rfl

theorem answer_answers (hprovider : provider.Computes vector) {m : EmbeddingManager F}
    {texts : List String} (hcached : Cached provider.modelName vector texts m.cache)
    (request : Request F) :
    Answers provider vector (request.keeps texts ++ request.texts) request.texts m
      (m.answer provider request) := by
  cases request with
  | embed now text =>
      exact answer_embed hprovider (hcached.mono (List.subset_append_left _ _))
        (List.mem_append_right _ List.mem_cons_self) now
  | embedBatch now batch =>
      exact embedBatch_answers hprovider (hcached.mono (List.subset_append_left _ _))
        (List.subset_append_right _ _) now
  | embedMemory now node =>
      rw [answer_embedMemory]
      exact answer_embed hprovider (hcached.mono (List.subset_append_left _ _))
        (List.mem_append_right _ List.mem_cons_self) now
  | clearCache =>
      refine ⟨?_, ?_, ?_, (UInt64.add_zero _).symm⟩
      · intro vs hvs
        cases hvs
        exact List.Forall₂.nil
      · intro stop hstop
        cases hstop
      · intro text entry hentry
        cases hentry

theorem run_cached (hprovider : provider.Computes vector) (cacheSize : Nat)
    (past : List (Request F)) :
    Cached provider.modelName vector (asked past) (run provider cacheSize past).cache ∧
      lookups (run provider cacheSize past).cache =
        UInt64.ofNat (past.flatMap Request.texts).length := by
  induction past using List.reverseRecOn with
  | nil => exact ⟨(fun _ _ hentry => by cases hentry), rfl⟩
  | append_singleton past request ih =>
      have hanswers := answer_answers hprovider ih.1 request
      rw [run_append_singleton, asked_append_singleton]
      refine ⟨hanswers.cached, ?_⟩
      rw [hanswers.lookups, ih.2, List.flatMap_append, List.length_append, UInt64.ofNat_add,
        List.flatMap_singleton]

/-- With the keys of the texts apart, they are embedded as the provider does it. -/
theorem eq_map_of_forall₂ {model : String} {texts batch : List String} {vs : List (List F)}
    (hdistinct : forall s t, s ∈ texts -> t ∈ texts ->
      cacheKey model s = cacheKey model t -> s = t)
    (hbatch : batch ⊆ texts) (h : List.Forall₂ (Embeds model vector texts) batch vs) :
    vs = batch.map vector := by
  induction h with
  | nil => rfl
  | cons hfirst _ ih =>
      rcases hfirst with ⟨t, ht, hkey, hv⟩
      rw [List.cons_subset] at hbatch
      rw [List.map_cons, ← ih hbatch.2, hv, hdistinct _ _ ht hbatch.1 hkey]

/-- After any requests, the next one is answered with one embedding for each of its texts, which
is that of a text with the same key that was asked for since the cache was last cleared, so of
the text itself unless keys collide.  Without an answer the provider failed, or returned too few
embeddings, which is a panic.  Hits and misses count the texts of all requests. -/
theorem embeddings_as_provided (hprovider : provider.Computes vector) (cacheSize : Nat)
    (past : List (Request F)) (request : Request F) :
    let m := run provider cacheSize past
    let answered := m.answer provider request
    let texts := asked (past ++ [request])
    (forall vs, answered.1 = Except.ok vs ->
      List.Forall₂ (Embeds provider.modelName vector texts) request.texts vs ∧
        ((forall s t, s ∈ texts -> t ∈ texts ->
          cacheKey provider.modelName s = cacheKey provider.modelName t -> s = t) ->
            vs = request.texts.map vector)) ∧
      (forall stop, answered.1 = Except.error stop -> Faults provider m request.texts stop) ∧
      answered.2.cache.hits + answered.2.cache.misses =
        UInt64.ofNat ((past ++ [request]).flatMap Request.texts).length := by
  dsimp only
  rcases run_cached hprovider cacheSize past with ⟨hcached, _⟩
  rcases run_cached hprovider cacheSize (past ++ [request]) with ⟨_, hlookups⟩
  have hanswers := answer_answers hprovider hcached request
  rw [run_append_singleton] at hlookups
  rw [← asked_append_singleton] at hanswers
  refine ⟨?_, fun stop hstop => hanswers.faults hstop, hlookups⟩
  intro vs hvs
  have hforall := hanswers.embeddings hvs
  refine ⟨hforall, fun hdistinct => eq_map_of_forall₂ hdistinct ?_ hforall⟩
  rw [asked_append_singleton]
  exact List.subset_append_right _ _

/-- The embedding of a text is its length, and the second call of this provider fails. -/
def lengths : EmbeddingProvider Nat where
  modelName := "lengths"
  embed n text :=
    if n = 1 then Except.error (MenteError.io "timeout") else Except.ok [text.length]
  embedBatch _ texts := Except.ok (texts.map (fun text => [text.length]))

theorem lengths_computes : lengths.Computes (fun text => [text.length]) where
  embed n text v h := by
    unfold lengths at h
    dsimp only at h
    split at h
    · cases h
    · cases h
      rfl
  embedBatch n texts vs h p hp := by
    cases h
    rcases List.getElem?_of_mem hp with ⟨i, hi⟩
    rw [List.getElem?_zip_eq_some, List.getElem?_map] at hi
    rw [hi.1] at hi
    exact (Option.some.inj hi.2).symm

theorem embeddings_as_provided_lengths :
    let past := [Request.embed 10 "tea", Request.embed 20 "coffee"]
    let m := run lengths 8 past
    let answered := m.answer lengths (Request.embedBatch 30 ["milk", "tea"])
    answered.1.toOption = some [[4], [3]] ∧
      (forall stop, answered.1 = Except.error stop -> Faults lengths m ["milk", "tea"] stop) ∧
      answered.2.cache.hits + answered.2.cache.misses = 4 := by
  have hprovided := embeddings_as_provided lengths_computes 8
    [Request.embed 10 "tea", Request.embed 20 "coffee"] (Request.embedBatch 30 ["milk", "tea"])
  dsimp only at hprovided ⊢
  exact ⟨by decide +kernel, hprovided.2.1, hprovided.2.2⟩

end Requested

end EmbeddingManager
end Embedding
end MenteDb
