import MenteDb.Core.Types
import MenteDb.Foundation.Recency
import MenteDb.Foundation.Utf8

/-!
# Embedding cache

Embeddings that were computed, by a hash of the model and the text.  The order of use is kept in
a queue beside the table; a new embedding takes the place of the one at its front.  The counters
wrap, as in a build without overflow checks.
-/

namespace MenteDb
namespace Embedding

open Foundation

variable {F : Type}

structure CachedEmbedding (F : Type) where
  embedding : List F
  createdAt : Timestamp
  hitCount : UInt32

structure EmbeddingCache (F : Type) where
  maxSize : Nat
  cache : Assoc UInt64 (CachedEmbedding F)
  order : List UInt64
  hits : UInt64
  misses : UInt64
  evictions : UInt64

namespace EmbeddingCache

def new (maxSize : Nat) : EmbeddingCache F where
  maxSize := maxSize
  cache := Assoc.empty
  order := []
  hits := 0
  misses := 0
  evictions := 0

def hashByte (hash : UInt64) (byte : UInt8) : UInt64 :=
  (hash ^^^ byte.toUInt64) * 0x100000001b3

/-- FNV-1a over the bytes of the model and of the text, with a byte between them that occurs in
neither. -/
def cacheKey (model text : String) : UInt64 :=
  (Utf8.encode text.toList).foldl hashByte
    (hashByte ((Utf8.encode model.toList).foldl hashByte 0xcbf29ce484222325) 0xff)

def get (c : EmbeddingCache F) (text model : String) : Option (List F) × EmbeddingCache F :=
  let key := cacheKey model text
  match c.cache.find? key with
  | some entry =>
      (some entry.embedding,
        { c with
          hits := c.hits + 1
          order := c.order.filter (fun k => decide (k ≠ key)) ++ [key]
          cache := c.cache.insert key { entry with hitCount := entry.hitCount + 1 } })
  | none => (none, { c with misses := c.misses + 1 })

/-- The loop that makes room: the keys at the front of the queue are removed while the table is
full. -/
def evictLoop (maxSize : Nat) : List UInt64 -> Assoc UInt64 (CachedEmbedding F) -> UInt64 ->
    List UInt64 × Assoc UInt64 (CachedEmbedding F) × UInt64
  | [], cache, evictions => ([], cache, evictions)
  | key :: rest, cache, evictions =>
      if maxSize <= cache.keys.length then
        evictLoop maxSize rest (cache.erase key) (evictions + 1)
      else (key :: rest, cache, evictions)

def put (c : EmbeddingCache F) (now : Timestamp) (text model : String) (embedding : List F) :
    EmbeddingCache F :=
  let key := cacheKey model text
  let entry : CachedEmbedding F := { embedding := embedding, createdAt := now, hitCount := 0 }
  if c.cache.contains key then
    { c with
      order := c.order.filter (fun k => decide (k ≠ key)) ++ [key]
      cache := c.cache.insert key entry }
  else
    let room := evictLoop c.maxSize c.order c.cache c.evictions
    { c with
      order := room.1 ++ [key]
      cache := room.2.1.insert key entry
      evictions := room.2.2 }

def clear (c : EmbeddingCache F) : EmbeddingCache F :=
  { c with cache := Assoc.empty, order := [] }

end EmbeddingCache

/-!
## The queue and the table
-/

namespace EmbeddingCache

theorem get_hit {c : EmbeddingCache F} {text model : String} {entry : CachedEmbedding F}
    (h : c.cache.find? (cacheKey model text) = some entry) :
    c.get text model =
      (some entry.embedding,
        { c with
          hits := c.hits + 1
          order := c.order.filter (fun k => decide (k ≠ cacheKey model text)) ++
            [cacheKey model text]
          cache := c.cache.insert (cacheKey model text)
            { entry with hitCount := entry.hitCount + 1 } }) := by
  unfold get
  simp only [h]

theorem get_miss {c : EmbeddingCache F} {text model : String}
    (h : c.cache.find? (cacheKey model text) = none) :
    c.get text model = (none, { c with misses := c.misses + 1 }) := by
  unfold get
  simp only [h]

end EmbeddingCache

open EmbeddingCache

/-- The queue and the table together are a table listed by use. -/
structure Represents (c : EmbeddingCache F) (t : Assoc UInt64 (List F)) : Prop where
  order : c.order = t.keys
  values : forall k, (c.cache.find? k).map CachedEmbedding.embedding = t.find? k

namespace Represents

variable {c : EmbeddingCache F} {t : Assoc UInt64 (List F)}

theorem contains (h : Represents c t) (k : UInt64) : c.cache.contains k = t.contains k := by
  unfold Assoc.contains
  rw [← h.values, Option.isSome_map]

theorem perm (h : Represents c t) : c.order.Perm c.cache.keys := by
  have horder : c.order.Nodup := by
    rw [h.order]
    exact t.nodup
  have hkeys : c.cache.keys.Nodup := c.cache.nodup
  rw [List.perm_ext_iff_of_nodup horder hkeys]
  intro k
  rw [h.order, ← Assoc.contains_iff_mem_keys, ← Assoc.contains_iff_mem_keys, h.contains]

theorem length_eq (h : Represents c t) : c.cache.keys.length = t.keys.length := by
  rw [← h.perm.length_eq, h.order]

/-- A key is written and goes to the back of the queue. -/
theorem touch (h : Represents c t) (key : UInt64) (entry : CachedEmbedding F)
    (hits evictions : UInt64) :
    Represents
      { c with
        hits := hits
        evictions := evictions
        order := c.order.filter (fun k => decide (k ≠ key)) ++ [key]
        cache := c.cache.insert key entry }
      (t.touch key entry.embedding) where
  order := by
    rw [Assoc.keys_touch, ← h.order]
  values k := by
    rw [Assoc.find?_touch]
    show ((c.cache.insert key entry).find? k).map _ = _
    rw [Assoc.find?_insert]
    split
    · rfl
    · exact h.values k

theorem get (h : Represents c t) (text model : String) :
    Represents (c.get text model).2 (Lru.get t (cacheKey model text)) ∧
      (c.get text model).1 = t.find? (cacheKey model text) := by
  have hvalue := h.values (cacheKey model text)
  unfold Lru.get
  cases hfind : c.cache.find? (cacheKey model text) with
  | none =>
      rw [hfind] at hvalue
      rw [get_miss hfind, ← hvalue]
      exact ⟨⟨h.order, h.values⟩, rfl⟩
  | some entry =>
      rw [hfind] at hvalue
      rw [get_hit hfind, ← hvalue]
      exact ⟨h.touch (cacheKey model text) { entry with hitCount := entry.hitCount + 1 }
        (c.hits + 1) c.evictions, rfl⟩

/-- The loop that makes room removes at most one key. -/
theorem evictLoop (h : Represents c t) {maxSize : Nat} (hsize : 1 <= maxSize)
    (hlength : t.keys.length <= maxSize) :
    exists order cache evictions,
      EmbeddingCache.evictLoop maxSize c.order c.cache c.evictions =
        (order, cache, evictions) ∧
      Represents { c with order := order, cache := cache } (Lru.withRoom maxSize t) := by
  have hkeys : c.cache.keys.length = t.keys.length := h.length_eq
  have hstays : forall (order : List UInt64) (cache : Assoc UInt64 (CachedEmbedding F))
      (evictions : UInt64), cache.keys.length < maxSize ->
      EmbeddingCache.evictLoop maxSize order cache evictions = (order, cache, evictions) := by
    intro order cache evictions hroom
    cases order with
    | nil => rfl
    | cons key rest =>
        unfold EmbeddingCache.evictLoop
        rw [if_neg (Nat.not_le.mpr hroom)]
  unfold Lru.withRoom
  by_cases hroom : t.keys.length < maxSize
  · rw [if_pos hroom]
    exact ⟨_, _, _, hstays _ _ _ (by omega), h⟩
  · rw [if_neg hroom]
    cases horder : c.order with
    | nil =>
        have hnil := h.order
        rw [horder] at hnil
        rw [← hnil] at hroom
        exact absurd hsize (fun hpos => hroom hpos)
    | cons key rest =>
        have hfirst : t.keys = key :: rest := by
          rw [← h.order, horder]
        have hmem : c.cache.contains key = true := by
          rw [h.contains, Assoc.contains_iff_mem_keys, hfirst]
          exact List.mem_cons_self
        have herase := Assoc.length_keys_erase hmem
        unfold EmbeddingCache.evictLoop
        rw [if_pos (by omega), hstays _ _ _ (by omega)]
        refine ⟨_, _, _, rfl, ?_, ?_⟩
        · rw [Assoc.keys_dropFirst, hfirst]
          rfl
        · intro k
          rw [Assoc.find?_dropFirst, Assoc.find?_erase, hfirst, List.head?_cons]
          by_cases hk : k = key
          · rw [if_pos hk, if_pos (by rw [hk])]
            rfl
          · rw [if_neg hk, if_neg (fun heq => hk (Option.some.inj heq).symm)]
            exact h.values k

theorem put (h : Represents c t) (hsize : 1 <= c.maxSize) (hlength : t.keys.length <= c.maxSize)
    (now : Timestamp) (text model : String) (embedding : List F) :
    Represents (c.put now text model embedding)
      (Lru.put c.maxSize t (cacheKey model text) embedding) := by
  unfold EmbeddingCache.put Lru.put
  simp only [h.contains]
  split
  · exact h.touch (cacheKey model text)
      { embedding := embedding, createdAt := now, hitCount := 0 } c.hits c.evictions
  · rename_i hnew
    rcases h.evictLoop hsize hlength with ⟨order, cache, evictions, hloop, hroom⟩
    rw [hloop]
    have hfresh : forall k, k ∈ order -> decide (k ≠ cacheKey model text) = true := by
      intro k hk
      rw [decide_eq_true_eq]
      intro heq
      have hkept : (Lru.withRoom c.maxSize t).contains k = true := by
        rw [Assoc.contains_iff_mem_keys, ← hroom.order]
        exact hk
      rcases Assoc.contains_iff_exists.mp hkept with ⟨v, hv⟩
      rw [heq] at hv
      exact hnew (Assoc.contains_iff_exists.mpr ⟨v, Lru.find?_withRoom hv⟩)
    have htouch := hroom.touch (cacheKey model text)
      { embedding := embedding, createdAt := now, hitCount := 0 } c.hits evictions
    rw [List.filter_eq_self.mpr hfresh] at htouch
    exact htouch

end Represents

/-!
## Runs of calls
-/

inductive EmbeddingCall (F : Type) where
  | get (text model : String)
  | put (now : Timestamp) (text model : String) (embedding : List F)
  | clear

namespace EmbeddingCall

def step (c : EmbeddingCache F) : EmbeddingCall F -> EmbeddingCache F
  | get text model => (c.get text model).2
  | put now text model embedding => c.put now text model embedding
  | clear => c.clear

/-- The key that is asked for or written. -/
def key? : EmbeddingCall F -> Option UInt64
  | get text model => some (cacheKey model text)
  | put _ text model _ => some (cacheKey model text)
  | clear => none

/-- The embedding that is put under a key. -/
def written? (key : UInt64) : EmbeddingCall F -> Option (List F)
  | get _ _ => none
  | put _ text model embedding => if cacheKey model text = key then some embedding else none
  | clear => none

def access : EmbeddingCall F -> Access UInt64 (List F)
  | get text model => Access.get (cacheKey model text)
  | put _ text model embedding => Access.put (cacheKey model text) embedding
  | clear => Access.clear

theorem key?_access (call : EmbeddingCall F) : call.access.key? = call.key? := by
  cases call <;> rfl

theorem written?_access (key : UInt64) (call : EmbeddingCall F) :
    call.access.written? key = call.written? key := by
  cases call <;> rfl

end EmbeddingCall

def runCalls (maxSize : Nat) (calls : List (EmbeddingCall F)) : EmbeddingCache F :=
  calls.foldl EmbeddingCall.step (EmbeddingCache.new maxSize)

/-- The keys that calls name, in their order. -/
def usedKeys (calls : List (EmbeddingCall F)) : List UInt64 := calls.filterMap EmbeddingCall.key?

/-- The embedding of the last put under a key. -/
def lastPut (calls : List (EmbeddingCall F)) (key : UInt64) : Option (List F) :=
  calls.reverse.findSome? (EmbeddingCall.written? key)

theorem usedKeys_eq (calls : List (EmbeddingCall F)) :
    usedKeys calls = (calls.map EmbeddingCall.access).filterMap Access.key? := by
  rw [List.filterMap_map]
  exact List.filterMap_congr (fun call _ => (EmbeddingCall.key?_access call).symm)

theorem lastPut_eq (calls : List (EmbeddingCall F)) (key : UInt64) :
    lastPut calls key = Lru.lastWritten (calls.map EmbeddingCall.access) key := by
  unfold lastPut Lru.lastWritten
  rw [← List.map_reverse, List.findSome?_map]
  congr 1
  funext call
  exact (EmbeddingCall.written?_access key call).symm

@[simp] theorem maxSize_step (c : EmbeddingCache F) (call : EmbeddingCall F) :
    (call.step c).maxSize = c.maxSize := by
  cases call with
  | get text model =>
      show (c.get text model).2.maxSize = c.maxSize
      unfold EmbeddingCache.get
      simp only
      split <;> rfl
  | put now text model embedding =>
      show (c.put now text model embedding).maxSize = c.maxSize
      unfold EmbeddingCache.put
      simp only
      split <;> rfl
  | clear => rfl

/-- A call does to the queue and the table what it does to a table listed by use. -/
theorem Represents.step {c : EmbeddingCache F} {t : Assoc UInt64 (List F)} (h : Represents c t)
    (hsize : 1 <= c.maxSize) (hlength : t.keys.length <= c.maxSize) (call : EmbeddingCall F) :
    Represents (call.step c) (Lru.step c.maxSize t call.access) := by
  cases call with
  | get text model => exact (h.get text model).1
  | put now text model embedding => exact h.put hsize hlength now text model embedding
  | clear => exact ⟨rfl, fun _ => rfl⟩

theorem represents_runCalls {maxSize : Nat} (hsize : 1 <= maxSize)
    (calls : List (EmbeddingCall F)) :
    (runCalls maxSize calls).maxSize = maxSize ∧
      Represents (runCalls maxSize calls)
        (Lru.run maxSize (calls.map EmbeddingCall.access)) := by
  induction calls using List.reverseRecOn with
  | nil => exact ⟨rfl, rfl, fun _ => rfl⟩
  | append_singleton past call ih =>
      rcases ih with ⟨hmax, hrep⟩
      have hlength := Lru.length_run_le hsize (past.map EmbeddingCall.access)
      unfold runCalls at hmax hrep ⊢
      rw [List.foldl_append, List.map_append]
      constructor
      · exact (maxSize_step _ call).trans hmax
      · have hstep := hrep.step (by rw [hmax]; exact hsize) (by rw [hmax]; exact hlength) call
        rw [hmax] at hstep
        rw [List.map_singleton, Lru.run_append_singleton]
        exact hstep

/-- The cache after some calls, as a map of bounded size that forgets by use. -/
structure IsLru (maxSize : Nat) (calls : List (EmbeddingCall F)) (c : EmbeddingCache F) :
    Prop where
  distinct : c.order.Nodup
  listed : c.order.Perm c.cache.keys
  /-- From the least to the most recently used. -/
  byUse : c.order = (usedKeys calls).dedup.filter c.cache.contains
  fits : c.cache.keys.length <= maxSize
  returns : forall text model, (c.get text model).1 =
    if c.cache.contains (cacheKey model text) then lastPut calls (cacheKey model text) else none
  /-- A key is given up for a new one, by a full cache, and if it is the least recently used. -/
  evicts : forall now text model embedding k,
    (c.put now text model embedding).cache.contains k = true <->
      k = cacheKey model text ∨ (c.cache.contains k = true ∧
        ¬ (c.cache.contains (cacheKey model text) = false ∧ c.cache.keys.length = maxSize ∧
          c.order.head? = some k))

theorem isLru_of_represents {maxSize : Nat} (hsize : 1 <= maxSize)
    {calls : List (EmbeddingCall F)} {c : EmbeddingCache F} (hmax : c.maxSize = maxSize)
    (h : Represents c (Lru.run maxSize (calls.map EmbeddingCall.access))) :
    IsLru maxSize calls c where
  distinct := by
    rw [h.order]
    exact (Lru.run maxSize _).nodup
  listed := h.perm
  byUse := by
    have hbyUse := Lru.byUse_run maxSize (calls.map EmbeddingCall.access)
    rw [h.order, usedKeys_eq]
    refine hbyUse.trans (List.filter_congr (fun k _ => (h.contains k).symm))
  fits := by
    rw [h.length_eq]
    exact Lru.length_run_le hsize _
  returns text model := by
    rw [(h.get text model).2, h.contains, lastPut_eq]
    cases hfind : (Lru.run maxSize (calls.map EmbeddingCall.access)).find?
        (cacheKey model text) with
    | none =>
        unfold Assoc.contains
        rw [hfind]
        rfl
    | some v =>
        unfold Assoc.contains
        rw [hfind, Lru.find?_run hfind]
        rfl
  evicts now text model embedding k := by
    have hlength := Lru.length_run_le hsize (calls.map EmbeddingCall.access)
    have hput := h.put (by rw [hmax]; exact hsize) (by rw [hmax]; exact hlength) now text model
      embedding
    rw [hput.contains, h.contains, h.contains, h.length_eq, h.order, hmax]
    exact Lru.contains_put hlength _ _ k

/-- Over any sequence of calls the embedding cache forgets the least recently used. -/
theorem embedding_cache_is_lru {maxSize : Nat} (hsize : 1 <= maxSize)
    (calls : List (EmbeddingCall F)) : IsLru maxSize calls (runCalls maxSize calls) := by
  rcases represents_runCalls hsize calls with ⟨hmax, hrep⟩
  exact isLru_of_represents hsize hmax hrep

/-- In a cache of two, a key that was looked up outlives one that was not. -/
theorem embedding_cache_is_lru_two : 1 <= 2 ∧
    IsLru 2
      [EmbeddingCall.put 1 "a" "m" [(1 : Rat)], EmbeddingCall.put 2 "b" "m" [2],
        EmbeddingCall.get "a" "m", EmbeddingCall.put 3 "c" "m" [3]]
      (runCalls 2
        [EmbeddingCall.put 1 "a" "m" [(1 : Rat)], EmbeddingCall.put 2 "b" "m" [2],
          EmbeddingCall.get "a" "m", EmbeddingCall.put 3 "c" "m" [3]]) :=
  ⟨by decide, embedding_cache_is_lru (by decide) _⟩

end Embedding
end MenteDb
