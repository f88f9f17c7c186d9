import Mathlib.Data.List.Nodup
import Mathlib.Data.List.Perm.Basic
import MenteDb.Cognitive.Speculative

/-!
# The size of the speculative cache

Every way into the cache makes room first and looks for the topic before an entry is added.
The entries stay as many as they may be, their topics stay distinct, and an entry that makes
room for another is one that was not used for longest.
-/

namespace MenteDb
namespace Cognitive

open Foundation

variable {F : Type}

namespace SpeculativeCache

/-!
## The entry that makes room
-/

theorem lruIdx_cons_cons (e other : CacheEntry F) (rest : List (CacheEntry F)) :
    lruIdx (e :: other :: rest) =
      match (other :: rest)[lruIdx (other :: rest)]? with
      | none => 0
      | some least =>
          if e.lastAccessed <= least.lastAccessed then 0 else lruIdx (other :: rest) + 1 := rfl

/-- The first of the entries that were not used for longest, with those around it. -/
theorem split_lruIdx {entries : List (CacheEntry F)} (hne : entries ≠ []) :
    exists before least after, entries = before ++ least :: after ∧
      lruIdx entries = before.length ∧
      (forall x, x ∈ before -> least.lastAccessed < x.lastAccessed) ∧
      forall x, x ∈ after -> least.lastAccessed <= x.lastAccessed := by
  induction entries with
  | nil => exact absurd rfl hne
  | cons e rest ih =>
      cases rest with
      | nil => exact ⟨[], e, [], rfl, rfl, by simp, by simp⟩
      | cons other more =>
          rcases ih (List.cons_ne_nil other more) with
            ⟨before, least, after, heq, hidx, hbefore, hafter⟩
          rw [lruIdx_cons_cons, hidx, heq, List.getElem?_append_right (Nat.le_refl _),
            Nat.sub_self]
          show exists u l v, e :: (before ++ least :: after) = u ++ l :: v ∧
            (if e.lastAccessed <= least.lastAccessed then 0 else before.length + 1) = u.length ∧ _
          split
          · rename_i hle
            refine ⟨[], e, before ++ least :: after, rfl, rfl, by simp, ?_⟩
            intro x hx
            rcases List.mem_append.mp hx with hmem | hmem
            · exact UInt64.le_trans hle (UInt64.le_of_lt (hbefore x hmem))
            · rcases List.mem_cons.mp hmem with hxeq | hmem
              · rw [hxeq]
                exact hle
              · exact UInt64.le_trans hle (hafter x hmem)
          · rename_i hle
            refine ⟨e :: before, least, after, rfl, rfl, ?_, hafter⟩
            intro x hx
            rcases List.mem_cons.mp hx with hxeq | hmem
            · rw [hxeq]
              exact UInt64.not_le.mp hle
            · exact hbefore x hmem

theorem evictLru_split {before after : List (CacheEntry F)} {least : CacheEntry F}
    (hidx : lruIdx (before ++ least :: after) = before.length) :
    evictLru (before ++ least :: after) = before ++ after := by
  unfold evictLru
  rw [hidx, List.eraseIdx_append_of_length_le (Nat.le_refl _), Nat.sub_self]
  rfl

/-- An entry is removed that no other was used before. -/
def RemovesLru (before kept : List (CacheEntry F)) : Prop :=
  exists least, before.Perm (least :: kept) ∧
    forall x, x ∈ before -> least.lastAccessed <= x.lastAccessed

theorem removesLru_evictLru {entries : List (CacheEntry F)} (hne : entries ≠ []) :
    RemovesLru entries (evictLru entries) := by
  rcases split_lruIdx hne with ⟨before, least, after, heq, hidx, hbefore, hafter⟩
  subst heq
  rw [evictLru_split hidx]
  refine ⟨least, List.perm_middle, ?_⟩
  intro x hx
  rcases List.mem_append.mp hx with hmem | hmem
  · exact UInt64.le_of_lt (hbefore x hmem)
  · rcases List.mem_cons.mp hmem with hxeq | hmem
    · rw [hxeq]
      exact UInt64.le_refl _
    · exact hafter x hmem

theorem evictLru_sublist (entries : List (CacheEntry F)) :
    (evictLru entries).Sublist entries := List.eraseIdx_sublist _ _

theorem length_evictLru {entries : List (CacheEntry F)} (hne : entries ≠ []) :
    (evictLru entries).length + 1 = entries.length := by
  rcases removesLru_evictLru hne with ⟨least, hperm, -⟩
  exact hperm.length_eq.symm

/-- The entries once there is room for one more. -/
def withRoom (cache : SpeculativeCache F) : List (CacheEntry F) :=
  if cache.maxSize <= cache.entries.length then evictLru cache.entries else cache.entries

theorem withRoom_sublist (cache : SpeculativeCache F) :
    cache.withRoom.Sublist cache.entries := by
  unfold withRoom
  split
  · exact evictLru_sublist cache.entries
  · exact List.Sublist.refl cache.entries

theorem length_withRoom_lt {cache : SpeculativeCache F}
    (h : cache.entries.length <= max 1 cache.maxSize) :
    cache.withRoom.length < max 1 cache.maxSize := by
  unfold withRoom
  split
  · cases hentries : cache.entries with
    | nil =>
        show 0 < max 1 cache.maxSize
        omega
    | cons e rest =>
        have hlen := length_evictLru (List.cons_ne_nil e rest)
        rw [hentries] at h
        omega
  · omega

/-!
## One entry after another
-/

/-- Room is made, by removing an entry that was not used for longest if it has to be, and at
most one entry is added. -/
def MakesRoom (cache cache' : SpeculativeCache F) : Prop :=
  exists kept,
    (kept = cache.entries ∨
      (cache.maxSize <= cache.entries.length ∧ RemovesLru cache.entries kept)) ∧
    (cache'.entries = kept ∨ exists entry, cache'.entries = kept ++ [entry])

theorem room_withRoom (cache : SpeculativeCache F) :
    cache.withRoom = cache.entries ∨
      (cache.maxSize <= cache.entries.length ∧ RemovesLru cache.entries cache.withRoom) := by
  unfold withRoom
  split
  · rename_i hfull
    cases hentries : cache.entries with
    | nil => exact Or.inl rfl
    | cons e rest =>
        rw [hentries] at hfull
        exact Or.inr ⟨hfull, removesLru_evictLru (List.cons_ne_nil e rest)⟩
  · exact Or.inl rfl

/-- A prediction adds nothing, or an entry for a topic that is new. -/
theorem preAssembleTopic_cases (now : Timestamp)
    (builder : String -> Option (String × List MemoryId × Option (List F)))
    (cache : SpeculativeCache F) (topic : String) :
    preAssembleTopic now builder cache topic = cache ∨
      exists entry : CacheEntry F,
        entry.topic ∉ cache.entries.map CacheEntry.topic ∧ entry.createdAt = now ∧
        preAssembleTopic now builder cache topic =
          { cache with entries := cache.withRoom ++ [entry] } := by
  unfold preAssembleTopic
  split
  · exact Or.inl rfl
  · rename_i hnew
    split
    · exact Or.inl rfl
    · refine Or.inr ⟨_, ?_, ?_, rfl⟩
      · intro hmem
        rcases List.mem_map.mp hmem with ⟨e, he, heq⟩
        exact hnew (List.any_eq_true.mpr ⟨e, he, decide_eq_true heq⟩)
      · rfl

/-- A saved entry is added when its topic is not among those that are kept. -/
theorem mergeEntry_cases (now : Timestamp) (cache : SpeculativeCache F) (entry : CacheEntry F) :
    (entry.topic ∈ cache.withRoom.map CacheEntry.topic ∧
      mergeEntry now cache entry = { cache with entries := cache.withRoom }) ∨
    (entry.topic ∉ cache.withRoom.map CacheEntry.topic ∧
      mergeEntry now cache entry =
        { cache with entries := cache.withRoom ++ [{ entry with lastAccessed := now }] }) := by
  have hmem : entry.topic ∈ cache.withRoom.map CacheEntry.topic <->
      cache.withRoom.any (fun e => decide (e.topic = entry.topic)) = true := by
    simp only [List.mem_map, List.any_eq_true, decide_eq_true_eq]
  show (_ ∧ (if cache.withRoom.any (fun e => decide (e.topic = entry.topic)) = true then
      ({ cache with entries := cache.withRoom } : SpeculativeCache F) else _) = _) ∨
    (_ ∧ (if cache.withRoom.any (fun e => decide (e.topic = entry.topic)) = true then
      ({ cache with entries := cache.withRoom } : SpeculativeCache F) else _) = _)
  rw [hmem]
  by_cases hany : cache.withRoom.any (fun e => decide (e.topic = entry.topic)) = true
  · rw [if_pos hany]
    exact Or.inl ⟨hany, rfl⟩
  · rw [if_neg hany]
    exact Or.inr ⟨hany, rfl⟩

theorem makesRoom_preAssembleTopic (now : Timestamp)
    (builder : String -> Option (String × List MemoryId × Option (List F)))
    (cache : SpeculativeCache F) (topic : String) :
    MakesRoom cache (preAssembleTopic now builder cache topic) := by
  rcases preAssembleTopic_cases now builder cache topic with heq | ⟨entry, -, -, heq⟩
  · rw [heq]
    exact ⟨cache.entries, Or.inl rfl, Or.inl rfl⟩
  · rw [heq]
    exact ⟨cache.withRoom, room_withRoom cache, Or.inr ⟨entry, rfl⟩⟩

theorem makesRoom_mergeEntry (now : Timestamp) (cache : SpeculativeCache F)
    (entry : CacheEntry F) : MakesRoom cache (mergeEntry now cache entry) := by
  rcases mergeEntry_cases now cache entry with ⟨-, heq⟩ | ⟨-, heq⟩
  · rw [heq]
    exact ⟨cache.withRoom, room_withRoom cache, Or.inl rfl⟩
  · rw [heq]
    exact ⟨cache.withRoom, room_withRoom cache, Or.inr ⟨_, rfl⟩⟩

/-!
## What every call keeps
-/

/-- A cache that may hold nothing still holds its last entry. -/
structure Bounded (cache : SpeculativeCache F) : Prop where
  fits : cache.entries.length <= max 1 cache.maxSize
  distinct : (cache.entries.map CacheEntry.topic).Nodup

theorem Bounded.of_sublist {cache : SpeculativeCache F} (h : cache.Bounded)
    {entries : List (CacheEntry F)} (hsub : entries.Sublist cache.entries) :
    Bounded { cache with entries := entries } := by
  constructor
  · exact Nat.le_trans hsub.length_le h.fits
  · exact h.distinct.sublist (hsub.map CacheEntry.topic)

theorem Bounded.push {cache : SpeculativeCache F} (h : cache.Bounded) {entry : CacheEntry F}
    (hnew : entry.topic ∉ cache.withRoom.map CacheEntry.topic) :
    Bounded { cache with entries := cache.withRoom ++ [entry] } := by
  have hroom := h.of_sublist cache.withRoom_sublist
  constructor
  · show (cache.withRoom ++ [entry]).length <= max 1 cache.maxSize
    have hlt := length_withRoom_lt h.fits
    rw [List.length_append, List.length_singleton]
    omega
  · show ((cache.withRoom ++ [entry]).map CacheEntry.topic).Nodup
    rw [List.map_append, List.map_singleton]
    refine List.nodup_append.mpr ⟨hroom.distinct, List.nodup_singleton _, ?_⟩
    intro t ht t' ht' heq
    rw [List.mem_singleton] at ht'
    rw [heq, ht'] at ht
    exact hnew ht

theorem Bounded.preAssembleTopic {cache : SpeculativeCache F} (h : cache.Bounded)
    (now : Timestamp) (builder : String -> Option (String × List MemoryId × Option (List F)))
    (topic : String) : (preAssembleTopic now builder cache topic).Bounded := by
  rcases preAssembleTopic_cases now builder cache topic with heq | ⟨entry, hnew, -, heq⟩
  · rw [heq]
    exact h
  · rw [heq]
    exact h.push (fun hmem => hnew ((cache.withRoom_sublist.map CacheEntry.topic).subset hmem))

theorem Bounded.mergeEntry {cache : SpeculativeCache F} (h : cache.Bounded) (now : Timestamp)
    (entry : CacheEntry F) : (mergeEntry now cache entry).Bounded := by
  rcases mergeEntry_cases now cache entry with ⟨-, heq⟩ | ⟨hnew, heq⟩
  · rw [heq]
    exact h.of_sublist cache.withRoom_sublist
  · rw [heq]
    have hpush : forall saved : CacheEntry F, saved.topic = entry.topic ->
        Bounded { cache with entries := cache.withRoom ++ [saved] } := by
      intro saved htopic
      apply h.push
      rw [htopic]
      exact hnew
    exact hpush { entry with lastAccessed := now } rfl

theorem Bounded.preAssemble {cache : SpeculativeCache F} (h : cache.Bounded) (now : Timestamp)
    (predictions : List String)
    (builder : String -> Option (String × List MemoryId × Option (List F))) :
    (cache.preAssemble now predictions builder).Bounded := by
  unfold SpeculativeCache.preAssemble
  induction predictions generalizing cache with
  | nil => exact h
  | cons topic rest ih => exact ih (h.preAssembleTopic now builder topic)

theorem Bounded.mergeAll {cache : SpeculativeCache F} (h : cache.Bounded) (now : Timestamp)
    (saved : List (CacheEntry F)) : (SpeculativeCache.mergeAll now cache saved).Bounded := by
  unfold SpeculativeCache.mergeAll
  induction saved generalizing cache with
  | nil => exact h
  | cons entry rest ih => exact ih (h.mergeEntry now entry)

@[simp] theorem maxSize_preAssembleTopic (now : Timestamp)
    (builder : String -> Option (String × List MemoryId × Option (List F)))
    (cache : SpeculativeCache F) (topic : String) :
    (SpeculativeCache.preAssembleTopic now builder cache topic).maxSize = cache.maxSize := by
  rcases preAssembleTopic_cases now builder cache topic with heq | ⟨entry, -, -, heq⟩ <;> rw [heq]

@[simp] theorem maxSize_mergeEntry (now : Timestamp) (cache : SpeculativeCache F)
    (entry : CacheEntry F) :
    (SpeculativeCache.mergeEntry now cache entry).maxSize = cache.maxSize := by
  rcases mergeEntry_cases now cache entry with ⟨-, heq⟩ | ⟨-, heq⟩ <;> rw [heq]

@[simp] theorem maxSize_preAssemble (cache : SpeculativeCache F) (now : Timestamp)
    (predictions : List String)
    (builder : String -> Option (String × List MemoryId × Option (List F))) :
    (cache.preAssemble now predictions builder).maxSize = cache.maxSize := by
  unfold SpeculativeCache.preAssemble
  induction predictions generalizing cache with
  | nil => rfl
  | cons topic rest ih => rw [List.foldl_cons, ih, maxSize_preAssembleTopic]

@[simp] theorem maxSize_mergeAll (now : Timestamp) (cache : SpeculativeCache F)
    (saved : List (CacheEntry F)) :
    (SpeculativeCache.mergeAll now cache saved).maxSize = cache.maxSize := by
  unfold SpeculativeCache.mergeAll
  induction saved generalizing cache with
  | nil => rfl
  | cons entry rest ih => rw [List.foldl_cons, ih, maxSize_mergeEntry]

/-- A snapshot is merged if it is of the version that is written. -/
theorem load_cases (now : Timestamp) (cache : SpeculativeCache F)
    (file : Except String (CacheSnapshot F)) :
    (cache.load now file).2 = cache ∨
      exists snapshot, file = Except.ok snapshot ∧ snapshot.version = cacheSnapshotVersion ∧
        (cache.load now file).2 = SpeculativeCache.mergeAll now cache snapshot.entries := by
  unfold load
  cases file with
  | error e => exact Or.inl rfl
  | ok snapshot =>
      simp only
      split
      · exact Or.inl rfl
      · rename_i hversion
        exact Or.inr ⟨snapshot, rfl, Decidable.not_not.mp hversion, rfl⟩

/-- A hit changes how often and when an entry was used. -/
theorem entries_tryHit [Scalar F] (text : TextOps F) (cache : SpeculativeCache F)
    (now : Timestamp) (query : String) (queryEmbedding : Option (List F)) :
    exists use : CacheEntry F -> CacheEntry F, (forall e, (use e).topic = e.topic) ∧
      exists idx, (cache.tryHit text now query queryEmbedding).2 = cache ∨
        (cache.tryHit text now query queryEmbedding).2 =
          { cache with entries := cache.entries.modify idx use } := by
  refine ⟨fun e => { e with hitCount := e.hitCount + 1, lastAccessed := now },
    fun _ => rfl, ?_⟩
  unfold tryHit
  split
  · exact ⟨0, Or.inl rfl⟩
  · rename_i idx best hbest
    split
    · exact ⟨idx, Or.inr rfl⟩
    · exact ⟨0, Or.inl rfl⟩

theorem topics_modify {use : CacheEntry F -> CacheEntry F}
    (huse : forall e, (use e).topic = e.topic) (entries : List (CacheEntry F)) (idx : Nat) :
    (entries.modify idx use).map CacheEntry.topic = entries.map CacheEntry.topic := by
  induction entries generalizing idx with
  | nil => simp
  | cons e rest ih =>
      cases idx with
      | zero =>
          rw [List.modify_zero_cons, List.map_cons, List.map_cons, huse]
      | succ idx =>
          rw [List.modify_succ_cons, List.map_cons, List.map_cons, ih]

theorem Bounded.tryHit [Scalar F] {cache : SpeculativeCache F} (h : cache.Bounded)
    (text : TextOps F) (now : Timestamp) (query : String) (queryEmbedding : Option (List F)) :
    (cache.tryHit text now query queryEmbedding).2.Bounded := by
  rcases entries_tryHit text cache now query queryEmbedding with ⟨use, huse, idx, heq | heq⟩
  · rw [heq]
    exact h
  · rw [heq]
    constructor
    · show (cache.entries.modify idx use).length <= max 1 cache.maxSize
      rw [List.length_modify]
      exact h.fits
    · show ((cache.entries.modify idx use).map CacheEntry.topic).Nodup
      rw [topics_modify huse]
      exact h.distinct

@[simp] theorem maxSize_tryHit [Scalar F] (text : TextOps F) (cache : SpeculativeCache F)
    (now : Timestamp) (query : String) (queryEmbedding : Option (List F)) :
    (cache.tryHit text now query queryEmbedding).2.maxSize = cache.maxSize := by
  rcases entries_tryHit text cache now query queryEmbedding with ⟨use, -, idx, heq | heq⟩ <;>
    rw [heq]

theorem evictStale_eq_some {build : Build} {cache cache' : SpeculativeCache F}
    {maxAgeUs : UInt64} {now : Timestamp} (h : cache.evictStale build maxAgeUs now = some cache') :
    exists kept, kept.Sublist cache.entries ∧ cache' = { cache with entries := kept } := by
  rcases Option.map_eq_some_iff.mp h with ⟨kept, hkept, heq⟩
  exact ⟨kept, retain_sublist hkept, heq.symm⟩

theorem evictStale_wrapping (cache : SpeculativeCache F) (maxAgeUs : UInt64) (now : Timestamp) :
    cache.evictStale Build.wrapping maxAgeUs now =
      some { cache with
        entries := cache.entries.filter (fun e => decide (now - e.createdAt <= maxAgeUs)) } := by
  have htest : forall e, e ∈ cache.entries ->
      (Build.wrapping.subU64 now e.createdAt).map (fun age => decide (age <= maxAgeUs)) =
        some (decide (now - e.createdAt <= maxAgeUs)) := by
    intro e _
    rw [Build.subU64_wrapping]
    rfl
  unfold evictStale
  rw [retain_of_test htest]
  rfl

/-!
## Runs of calls
-/

/-- A call, with the reading of the clock it makes. -/
inductive CacheCall (F : Type) where
  | preAssemble (now : Timestamp) (predictions : List String)
      (builder : String -> Option (String × List MemoryId × Option (List F)))
  | tryHit (now : Timestamp) (query : String) (queryEmbedding : Option (List F))
  | evictStale (maxAgeUs : UInt64) (now : Timestamp)
  | load (now : Timestamp) (file : Except String (CacheSnapshot F))

def CacheCall.step [Scalar F] (text : TextOps F) (build : Build) (cache : SpeculativeCache F) :
    CacheCall F -> Option (SpeculativeCache F)
  | CacheCall.preAssemble now predictions builder =>
      some (cache.preAssemble now predictions builder)
  | CacheCall.tryHit now query queryEmbedding =>
      some (cache.tryHit text now query queryEmbedding).2
  | CacheCall.evictStale maxAgeUs now => cache.evictStale build maxAgeUs now
  | CacheCall.load now file => some (cache.load now file).2

def runCalls [Scalar F] (text : TextOps F) (build : Build) (cache : SpeculativeCache F)
    (calls : List (CacheCall F)) : Option (SpeculativeCache F) :=
  calls.foldlM (CacheCall.step text build) cache

section Runs

variable [Scalar F] {text : TextOps F} {build : Build}

theorem Bounded.step {cache cache' : SpeculativeCache F} (h : cache.Bounded) {call : CacheCall F}
    (hstep : call.step text build cache = some cache') :
    cache'.Bounded ∧ cache'.maxSize = cache.maxSize := by
  cases call with
  | preAssemble now predictions builder =>
      cases hstep
      exact ⟨h.preAssemble now predictions builder,
        maxSize_preAssemble cache now predictions builder⟩
  | tryHit now query queryEmbedding =>
      cases hstep
      exact ⟨h.tryHit text now query queryEmbedding, maxSize_tryHit text cache now query _⟩
  | evictStale maxAgeUs now =>
      rcases evictStale_eq_some hstep with ⟨kept, hsub, heq⟩
      rw [heq]
      exact ⟨h.of_sublist hsub, rfl⟩
  | load now file =>
      cases hstep
      rcases load_cases now cache file with heq | ⟨snapshot, -, -, heq⟩
      · rw [heq]
        exact ⟨h, rfl⟩
      · rw [heq]
        exact ⟨h.mergeAll now snapshot.entries, maxSize_mergeAll now cache snapshot.entries⟩

theorem Bounded.run {cache cache' : SpeculativeCache F} (h : cache.Bounded)
    {calls : List (CacheCall F)} (hrun : runCalls text build cache calls = some cache') :
    cache'.Bounded ∧ cache'.maxSize = cache.maxSize := by
  unfold runCalls at hrun
  induction calls generalizing cache with
  | nil =>
      cases hrun
      exact ⟨h, rfl⟩
  | cons call rest ih =>
      rw [List.foldlM_cons] at hrun
      rcases Option.bind_eq_some_iff.mp hrun with ⟨next, hstep, hrest⟩
      have hnext := h.step hstep
      rw [← hnext.2]
      exact ih hnext.1 hrest

theorem bounded_new (maxSize : Nat) (keywordThreshold embeddingThreshold : F) :
    (new maxSize keywordThreshold embeddingThreshold).Bounded :=
  ⟨Nat.zero_le _, List.nodup_nil⟩

/-- Without overflow checks no call panics. -/
theorem runCalls_wrapping_isSome (cache : SpeculativeCache F) (calls : List (CacheCall F)) :
    (runCalls text Build.wrapping cache calls).isSome = true := by
  unfold runCalls
  have hstep : forall (c : SpeculativeCache F) (call : CacheCall F),
      (call.step text Build.wrapping c).isSome = true <-> True := by
    intro c call
    refine iff_of_true ?_ trivial
    cases call with
    | preAssemble now predictions builder => rfl
    | tryHit now query queryEmbedding => rfl
    | evictStale maxAgeUs now =>
        show (c.evictStale Build.wrapping maxAgeUs now).isSome = true
        rw [evictStale_wrapping]
        rfl
    | load now file => rfl
  exact (foldlM_isSome_iff hstep calls cache).mpr (fun _ _ => trivial)

/-- The bounds of a cache, and of what the rounds of its calls remove. -/
structure KeepsBounds (maxSize : Nat) (cache : SpeculativeCache F) : Prop where
  fits : cache.entries.length <= maxSize
  distinct : (cache.entries.map CacheEntry.topic).Nodup
  /-- The next prediction of a call that has taken some. -/
  predicts : forall now builder earlier topic,
    MakesRoom (cache.preAssemble now earlier builder)
      (SpeculativeCache.preAssembleTopic now builder (cache.preAssemble now earlier builder)
        topic)
  /-- The next saved entry of a load that has merged some. -/
  merges : forall now earlier entry,
    MakesRoom (SpeculativeCache.mergeAll now cache earlier)
      (SpeculativeCache.mergeEntry now (SpeculativeCache.mergeAll now cache earlier) entry)

/-- Over any sequence of calls the cache keeps its bounds. -/
theorem cache_keeps_bounds (text : TextOps F) {maxSize : Nat} (hsize : 1 <= maxSize)
    (keywordThreshold embeddingThreshold : F) (calls : List (CacheCall F)) :
    exists cache, runCalls text Build.wrapping (new maxSize keywordThreshold embeddingThreshold)
      calls = some cache ∧ KeepsBounds maxSize cache := by
  have hreturns : (runCalls text Build.wrapping (new maxSize keywordThreshold embeddingThreshold)
      calls).isSome = true := runCalls_wrapping_isSome _ calls
  rcases Option.isSome_iff_exists.mp hreturns with ⟨cache, hrun⟩
  have hbounded := (bounded_new maxSize keywordThreshold embeddingThreshold).run hrun
  have hmax : cache.maxSize = maxSize := hbounded.2
  refine ⟨cache, hrun, ?_, hbounded.1.distinct, ?_, ?_⟩
  · have hfits := hbounded.1.fits
    omega
  · intro now builder earlier topic
    exact makesRoom_preAssembleTopic now builder _ topic
  · intro now earlier entry
    exact makesRoom_mergeEntry now _ entry

end Runs

theorem cache_keeps_bounds_two : 1 <= 2 ∧ exists cache,
    runCalls asciiOps Build.wrapping (new 2 (1 / 2) (2 / 5))
      [CacheCall.preAssemble 10 ["a", "b", "c"] (fun topic => some (topic, [], none)),
        CacheCall.evictStale 5 8] = some cache ∧ KeepsBounds 2 cache :=
  ⟨by decide, cache_keeps_bounds asciiOps (by decide) (1 / 2) (2 / 5) _⟩

end SpeculativeCache
end Cognitive
end MenteDb
