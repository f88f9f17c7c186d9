import MenteDb.Cognitive.Text
import MenteDb.Foundation.Outcome
import MenteDb.Foundation.Overflow

/-!
# Speculative cache

Contexts assembled ahead of time for predicted topics.  A query is answered by
the entry that resembles it most, if it resembles it enough.  An entry names the
memories it was assembled from and is not revisited when they change.
-/

namespace MenteDb
namespace Cognitive

open Foundation

variable {F : Type}

structure CacheEntry (F : Type) where
  topic : String
  topicEmbedding : Option (List F)
  contextText : String
  memoryIds : List MemoryId
  createdAt : Timestamp
  hitCount : Nat
  lastAccessed : Timestamp
deriving DecidableEq

structure SpeculativeCache (F : Type) where
  entries : List (CacheEntry F)
  maxSize : Nat
  keywordThreshold : F
  embeddingThreshold : F

namespace SpeculativeCache

def new [Scalar F] (maxSize : Nat) (keywordThreshold embeddingThreshold : F) :
    SpeculativeCache F where
  entries := []
  maxSize := maxSize
  keywordThreshold := keywordThreshold
  embeddingThreshold := embeddingThreshold

/-- Distinct words of at least two bytes. -/
def words (text : TextOps F) (s : String) : List String :=
  ((text.splitWhitespace (text.toLowercase s)).filter
    (fun w => decide (2 <= w.utf8ByteSize))).eraseDups

def keywordOverlapScore [Scalar F] (text : TextOps F) (query topic : String) : F :=
  let queryWords := words text query
  let topicWords := words text topic
  if queryWords = [] ∨ topicWords = [] then 0
  else
    let shared := (queryWords.filter (fun w => decide (w ∈ topicWords))).length
    let all := queryWords.length + (topicWords.filter (fun w => decide (w ∉ queryWords))).length
    if all = 0 then 0 else (shared : F) / (all : F)

section Lookup

variable [Scalar F] (text : TextOps F)

def score (query : String) (queryEmbedding : Option (List F)) (entry : CacheEntry F) : F :=
  match queryEmbedding, entry.topicEmbedding with
  | some q, some e => cosineSimilarity q e
  | _, _ => keywordOverlapScore text query entry.topic

/-- The first entry with the highest score above zero, with its position. -/
def bestEntry (query : String) (queryEmbedding : Option (List F))
    (entries : List (CacheEntry F)) : Option (Nat × F) :=
  entries.zipIdx.foldl (fun best e =>
    let s := score text query queryEmbedding e.1
    if (best.map Prod.snd).getD 0 < s then some (e.2, s) else best) none

def threshold (cache : SpeculativeCache F) (queryEmbedding : Option (List F)) : F :=
  if queryEmbedding.isSome ∧ cache.entries.any (fun e => e.topicEmbedding.isSome) then
    cache.embeddingThreshold
  else cache.keywordThreshold

/-- The answer to a query and the cache with the answer's use recorded. -/
def tryHit (cache : SpeculativeCache F) (now : Timestamp) (query : String)
    (queryEmbedding : Option (List F)) : Option (CacheEntry F) × SpeculativeCache F :=
  match bestEntry text query queryEmbedding cache.entries with
  | none => (none, cache)
  | some (idx, best) =>
      if cache.threshold queryEmbedding < best then
        let used := cache.entries.modify idx (fun e =>
          { e with hitCount := e.hitCount + 1, lastAccessed := now })
        (used[idx]?, { cache with entries := used })
      else (none, cache)

end Lookup

/-- The position of the least recently used entry, the first of equals. -/
def lruIdx : List (CacheEntry F) -> Nat
  | [] => 0
  | [_] => 0
  | e :: rest =>
      let idx := lruIdx rest
      match rest[idx]? with
      | none => 0
      | some other => if e.lastAccessed <= other.lastAccessed then 0 else idx + 1

def evictLru (entries : List (CacheEntry F)) : List (CacheEntry F) :=
  entries.eraseIdx (lruIdx entries)

/-- One prediction: built unless the topic is there already. -/
def preAssembleTopic (now : Timestamp)
    (builder : String -> Option (String × List MemoryId × Option (List F)))
    (cache : SpeculativeCache F) (topic : String) : SpeculativeCache F :=
  if cache.entries.any (fun e => decide (e.topic = topic)) then cache
  else
    match builder topic with
    | none => cache
    | some (contextText, memoryIds, embedding) =>
        let kept :=
          if cache.maxSize <= cache.entries.length then evictLru cache.entries
          else cache.entries
        { cache with
          entries := kept ++ [{
            topic := topic
            topicEmbedding := embedding
            contextText := contextText
            memoryIds := memoryIds
            createdAt := now
            hitCount := 0
            lastAccessed := now }] }

def preAssemble (now : Timestamp) (cache : SpeculativeCache F) (predictions : List String)
    (builder : String -> Option (String × List MemoryId × Option (List F))) :
    SpeculativeCache F :=
  predictions.foldl (preAssembleTopic now builder) cache

/-- Without the entries that are older; the ages are taken one after the other. -/
def evictStale (build : Build) (cache : SpeculativeCache F) (maxAgeUs : UInt64)
    (now : Timestamp) : Option (SpeculativeCache F) :=
  (retain (fun e => (build.subU64 now e.createdAt).map (fun age => decide (age <= maxAgeUs)))
    cache.entries).map (fun kept => { cache with entries := kept })

/-!
## Saved entries
-/

structure CacheSnapshot (F : Type) where
  version : Nat
  entries : List (CacheEntry F)

def cacheSnapshotVersion : Nat := 1

/-- One saved entry: room is made before its topic is looked up. -/
def mergeEntry (now : Timestamp) (cache : SpeculativeCache F) (entry : CacheEntry F) :
    SpeculativeCache F :=
  let kept :=
    if cache.maxSize <= cache.entries.length then evictLru cache.entries else cache.entries
  if kept.any (fun e => decide (e.topic = entry.topic)) then { cache with entries := kept }
  else { cache with entries := kept ++ [{ entry with lastAccessed := now }] }

def mergeAll (now : Timestamp) (cache : SpeculativeCache F) (saved : List (CacheEntry F)) :
    SpeculativeCache F :=
  saved.foldl (mergeEntry now) cache

/-- A file that cannot be read or holds no snapshot comes with its error. -/
def load (now : Timestamp) (cache : SpeculativeCache F)
    (file : Except String (CacheSnapshot F)) : Except String Unit × SpeculativeCache F :=
  match file with
  | Except.error e => (Except.error e, cache)
  | Except.ok snapshot =>
      if snapshot.version ≠ cacheSnapshotVersion then
        (Except.error ("unsupported cache snapshot version: " ++ toString snapshot.version
          ++ " (expected " ++ toString cacheSnapshotVersion ++ ")"), cache)
      else (Except.ok (), mergeAll now cache snapshot.entries)

/-- What is saved: the entries with enough hits. -/
def save (cache : SpeculativeCache F) (minHits : Nat) : CacheSnapshot F where
  version := cacheSnapshotVersion
  entries := cache.entries.filter (fun e => decide (minHits <= e.hitCount))

end SpeculativeCache
end Cognitive
end MenteDb
