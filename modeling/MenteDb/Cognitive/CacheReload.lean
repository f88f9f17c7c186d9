import MenteDb.Cognitive.CacheBounds

/-!
# Reloading a cache

A snapshot is merged entry by entry, and a full cache makes room before it looks whether the
entry is there.  What was removed comes back only from the snapshot, as used at the time of the
load.  The times of the entries are those of the session that saved them, so an entry can have
been created after the time its age is asked for.
-/

namespace MenteDb
namespace Cognitive

open Foundation

variable {F : Type}

namespace SpeculativeCache

/-!
## Saved entries whose topics are known
-/

theorem withRoom_of_space {cache : SpeculativeCache F}
    (h : cache.entries.length < cache.maxSize) : cache.withRoom = cache.entries := by
  unfold withRoom
  rw [if_neg (Nat.not_le.mpr h)]

theorem mergeAll_cons (now : Timestamp) (cache : SpeculativeCache F) (entry : CacheEntry F)
    (rest : List (CacheEntry F)) :
    mergeAll now cache (entry :: rest) = mergeAll now (mergeEntry now cache entry) rest := rfl

theorem mergeAll_append (now : Timestamp) (cache : SpeculativeCache F)
    (passed rest : List (CacheEntry F)) :
    mergeAll now cache (passed ++ rest) = mergeAll now (mergeAll now cache passed) rest :=
  List.foldl_append

theorem mergeEntry_of_known {now : Timestamp} {cache : SpeculativeCache F} {entry : CacheEntry F}
    (hroom : cache.withRoom = cache.entries)
    (hknown : entry.topic ∈ cache.entries.map CacheEntry.topic) :
    mergeEntry now cache entry = cache := by
  rcases mergeEntry_cases now cache entry with ⟨-, heq⟩ | ⟨hnew, -⟩
  · rw [heq, hroom]
  · rw [hroom] at hnew
    exact absurd hknown hnew

theorem mergeEntry_of_new {now : Timestamp} {cache : SpeculativeCache F} {entry : CacheEntry F}
    (hroom : cache.withRoom = cache.entries)
    (hnew : entry.topic ∉ cache.entries.map CacheEntry.topic) :
    mergeEntry now cache entry =
      { cache with entries := cache.entries ++ [{ entry with lastAccessed := now }] } := by
  rcases mergeEntry_cases now cache entry with ⟨hknown, -⟩ | ⟨-, heq⟩
  · rw [hroom] at hknown
    exact absurd hknown hnew
  · rw [heq, hroom]

/-- While there is room, entries with known topics are passed over. -/
theorem mergeAll_of_known {now : Timestamp} {cache : SpeculativeCache F}
    {saved : List (CacheEntry F)} (hroom : cache.withRoom = cache.entries)
    (hknown : forall entry, entry ∈ saved -> entry.topic ∈ cache.entries.map CacheEntry.topic) :
    mergeAll now cache saved = cache := by
  induction saved with
  | nil => rfl
  | cons entry rest ih =>
      rw [mergeAll_cons, mergeEntry_of_known hroom (hknown entry List.mem_cons_self)]
      exact ih (fun e he => hknown e (List.mem_cons_of_mem entry he))

/-- What is there after a load was there before, or was just put there. -/
theorem mem_mergeAll {now : Timestamp} {cache : SpeculativeCache F}
    {saved : List (CacheEntry F)} {e : CacheEntry F}
    (h : e ∈ (mergeAll now cache saved).entries) :
    e ∈ cache.entries ∨ e.lastAccessed = now := by
  induction saved generalizing cache with
  | nil => exact Or.inl h
  | cons entry rest ih =>
      rcases ih h with hmem | hnow
      · rcases mergeEntry_cases now cache entry with ⟨-, heq⟩ | ⟨-, heq⟩
        · rw [heq] at hmem
          exact Or.inl (cache.withRoom_sublist.subset hmem)
        · rw [heq] at hmem
          rcases List.mem_append.mp hmem with hkept | hnew
          · exact Or.inl (cache.withRoom_sublist.subset hkept)
          · rw [List.mem_singleton.mp hnew]
            exact Or.inr rfl
      · exact Or.inr hnow

/-!
## A full cache
-/

/-- A cache that has no room, and the entry that makes room in it. -/
structure FullAt (cache : SpeculativeCache F) (before : List (CacheEntry F))
    (least : CacheEntry F) (after : List (CacheEntry F)) : Prop where
  bounded : cache.Bounded
  full : cache.maxSize <= cache.entries.length
  split : cache.entries = before ++ least :: after
  lru : lruIdx (before ++ least :: after) = before.length
  before_lt : forall x, x ∈ before -> least.lastAccessed < x.lastAccessed
  after_le : forall x, x ∈ after -> least.lastAccessed <= x.lastAccessed

theorem exists_fullAt {cache : SpeculativeCache F} (hbounded : cache.Bounded)
    (hfull : cache.maxSize <= cache.entries.length) (hne : cache.entries ≠ []) :
    exists before least after, FullAt cache before least after := by
  rcases split_lruIdx hne with ⟨before, least, after, heq, hidx, hbefore, hafter⟩
  refine ⟨before, least, after, hbounded, hfull, heq, ?_, hbefore, hafter⟩
  rw [← heq]
  exact hidx

namespace FullAt

variable {cache : SpeculativeCache F} {before after : List (CacheEntry F)} {least : CacheEntry F}

theorem least_mem (h : FullAt cache before least after) : least ∈ cache.entries := by
  rw [h.split]
  exact List.mem_append_right _ List.mem_cons_self

theorem least_le (h : FullAt cache before least after) {e : CacheEntry F}
    (he : e ∈ cache.entries) : least.lastAccessed <= e.lastAccessed := by
  rw [h.split] at he
  rcases List.mem_append.mp he with hbefore | hrest
  · exact UInt64.le_of_lt (h.before_lt e hbefore)
  · rcases List.mem_cons.mp hrest with heq | hafter
    · rw [heq]
      exact UInt64.le_refl _
    · exact h.after_le e hafter

/-- The cache without the entry that made room. -/
def evicted (cache : SpeculativeCache F) (before after : List (CacheEntry F)) :
    SpeculativeCache F := { cache with entries := before ++ after }

theorem withRoom (h : FullAt cache before least after) :
    cache.withRoom = before ++ after := by
  unfold SpeculativeCache.withRoom
  rw [if_pos h.full, h.split, evictLru_split h.lru]

theorem withRoom_evicted (h : FullAt cache before least after) :
    (evicted cache before after).withRoom = (evicted cache before after).entries := by
  have hlen := h.bounded.fits
  rw [h.split, List.length_append, List.length_cons] at hlen
  unfold SpeculativeCache.withRoom evicted
  show (if cache.maxSize <= (before ++ after).length then evictLru (before ++ after)
    else before ++ after) = before ++ after
  split
  · rename_i hfull
    -- a cache that may hold nothing is empty again
    rw [List.length_append] at hfull
    have hbefore : before = [] := List.eq_nil_of_length_eq_zero (by omega)
    have hafter : after = [] := List.eq_nil_of_length_eq_zero (by omega)
    rw [hbefore, hafter]
    rfl
  · rfl

/-- The first saved entry of a load makes room. -/
theorem mergeEntry_evicted (h : FullAt cache before least after) (now : Timestamp)
    (entry : CacheEntry F) :
    mergeEntry now cache entry = mergeEntry now (evicted cache before after) entry := by
  rcases mergeEntry_cases now cache entry with ⟨hknown, heq⟩ | ⟨hnew, heq⟩
  · rw [h.withRoom] at hknown heq
    rw [heq, mergeEntry_of_known h.withRoom_evicted hknown]
    rfl
  · rw [h.withRoom] at hnew heq
    rw [heq, mergeEntry_of_new h.withRoom_evicted hnew]
    rfl

theorem mergeAll_evicted (h : FullAt cache before least after) (now : Timestamp)
    {saved : List (CacheEntry F)} (hne : saved ≠ []) :
    mergeAll now cache saved = mergeAll now (evicted cache before after) saved := by
  cases saved with
  | nil => exact absurd rfl hne
  | cons entry rest => rw [mergeAll_cons, h.mergeEntry_evicted now entry, mergeAll_cons]

theorem topics_nodup (h : FullAt cache before least after) :
    (before.map CacheEntry.topic ++ least.topic :: after.map CacheEntry.topic).Nodup := by
  have hdistinct := h.bounded.distinct
  rwa [h.split, List.map_append, List.map_cons] at hdistinct

/-- The topic that made room is missing. -/
theorem topic_not_mem (h : FullAt cache before least after) :
    least.topic ∉ (before ++ after).map CacheEntry.topic := by
  have hcons : (least.topic :: (before.map CacheEntry.topic ++ after.map CacheEntry.topic)).Nodup :=
    List.perm_middle.nodup_iff.mp h.topics_nodup
  rw [List.map_append]
  exact (List.nodup_cons.mp hcons).1

theorem known_evicted (h : FullAt cache before least after) {entry : CacheEntry F}
    (hknown : entry.topic ∈ cache.entries.map CacheEntry.topic)
    (htopic : entry.topic ≠ least.topic) :
    entry.topic ∈ (before ++ after).map CacheEntry.topic := by
  rw [h.split, List.map_append, List.map_cons] at hknown
  rw [List.map_append]
  rcases List.mem_append.mp hknown with hmem | hmem
  · exact List.mem_append_left _ hmem
  · rcases List.mem_cons.mp hmem with heq | hmem
    · exact absurd heq htopic
    · exact List.mem_append_right _ hmem

/-- Without its topic in the snapshot, the entry that made room is lost. -/
theorem mergeAll_lost (h : FullAt cache before least after) {now : Timestamp}
    {saved : List (CacheEntry F)} (hne : saved ≠ [])
    (hknown : forall e, e ∈ saved -> e.topic ∈ cache.entries.map CacheEntry.topic)
    (htopic : forall e, e ∈ saved -> e.topic ≠ least.topic) :
    mergeAll now cache saved = evicted cache before after := by
  rw [h.mergeAll_evicted now hne]
  apply mergeAll_of_known h.withRoom_evicted
  intro e he
  exact h.known_evicted (hknown e he) (htopic e he)

/-- The cache once a saved entry took the place of the one that made room. -/
def renewed (now : Timestamp) (cache : SpeculativeCache F) (before after : List (CacheEntry F))
    (entry : CacheEntry F) : SpeculativeCache F :=
  { cache with entries := before ++ after ++ [{ entry with lastAccessed := now }] }

theorem mergeAll_renewed (h : FullAt cache before least after) {now : Timestamp}
    {passed rest : List (CacheEntry F)} {entry : CacheEntry F}
    (hknown : forall e, e ∈ passed -> e.topic ∈ cache.entries.map CacheEntry.topic)
    (hpassed : forall e, e ∈ passed -> e.topic ≠ least.topic)
    (htopic : entry.topic = least.topic) :
    mergeAll now cache (passed ++ entry :: rest) =
      mergeAll now (renewed now cache before after entry) rest := by
  have hpass : mergeAll now (evicted cache before after) passed = evicted cache before after := by
    apply mergeAll_of_known h.withRoom_evicted
    intro e he
    exact h.known_evicted (hknown e he) (hpassed e he)
  have hnew : entry.topic ∉ (evicted cache before after).entries.map CacheEntry.topic := by
    rw [htopic]
    exact h.topic_not_mem
  rw [h.mergeAll_evicted now (by simp), mergeAll_append, hpass, mergeAll_cons,
    mergeEntry_of_new h.withRoom_evicted hnew]
  rfl

theorem bounded_renewed (h : FullAt cache before least after) (now : Timestamp)
    {entry : CacheEntry F} (htopic : entry.topic = least.topic) :
    (renewed now cache before after entry).Bounded := by
  constructor
  · have hfits := h.bounded.fits
    rw [h.split] at hfits
    show (before ++ after ++ [_]).length <= max 1 cache.maxSize
    simp only [List.length_append, List.length_cons, List.length_nil] at hfits ⊢
    omega
  · show ((before ++ after ++ [_]).map CacheEntry.topic).Nodup
    rw [List.map_append, List.map_singleton]
    refine List.nodup_append.mpr ⟨?_, List.nodup_singleton _, ?_⟩
    · rw [List.map_append]
      exact (List.nodup_middle.mp h.topics_nodup).of_cons
    · intro t ht t' ht' heq
      rw [List.mem_singleton] at ht'
      rw [heq, ht'] at ht
      have hmem : least.topic ∈ (before ++ after).map CacheEntry.topic := by
        rw [← htopic]
        exact ht
      exact h.topic_not_mem hmem

theorem length_renewed (h : FullAt cache before least after) (now : Timestamp)
    (entry : CacheEntry F) :
    (renewed now cache before after entry).entries.length = cache.entries.length := by
  rw [h.split]
  show (before ++ after ++ [_]).length = _
  simp only [List.length_append, List.length_cons, List.length_nil]
  omega

theorem mem_topics_renewed (h : FullAt cache before least after) {now : Timestamp}
    {entry : CacheEntry F} (htopic : entry.topic = least.topic) {t : String}
    (ht : t ∈ cache.entries.map CacheEntry.topic) :
    t ∈ (renewed now cache before after entry).entries.map CacheEntry.topic := by
  show t ∈ (before ++ after ++ [_]).map CacheEntry.topic
  rw [h.split] at ht
  simp only [List.map_append, List.map_cons, List.map_nil, List.mem_append,
    List.mem_cons, List.not_mem_nil, or_false, htopic] at ht ⊢
  rcases ht with hmem | hmem | hmem
  · exact Or.inl (Or.inl hmem)
  · exact Or.inr hmem
  · exact Or.inl (Or.inr hmem)

end FullAt

/-!
## Entries that were just used

Only an entry that was used at the very time of the load can come back as it was.
-/

/-- Entries used at a time. -/
def usedAt (now : Timestamp) (entries : List (CacheEntry F)) : List (CacheEntry F) :=
  entries.filter (fun e => decide (e.lastAccessed = now))

def notUsedAt (now : Timestamp) (entries : List (CacheEntry F)) : List (CacheEntry F) :=
  entries.filter (fun e => decide (e.lastAccessed ≠ now))

theorem exists_fullAt_of_used {now : Timestamp} {cache : SpeculativeCache F}
    (hbounded : cache.Bounded) (hfull : cache.maxSize <= cache.entries.length)
    (hused : usedAt now cache.entries ≠ []) :
    exists before least after, FullAt cache before least after := by
  apply exists_fullAt hbounded hfull
  intro hnil
  rw [hnil] at hused
  exact hused rfl

theorem usedAt_append (now : Timestamp) (entries more : List (CacheEntry F)) :
    usedAt now (entries ++ more) = usedAt now entries ++ usedAt now more :=
  List.filter_append entries more

theorem notUsedAt_append (now : Timestamp) (entries more : List (CacheEntry F)) :
    notUsedAt now (entries ++ more) = notUsedAt now entries ++ notUsedAt now more :=
  List.filter_append entries more

theorem usedAt_cons {now : Timestamp} {e : CacheEntry F} (he : e.lastAccessed = now)
    (rest : List (CacheEntry F)) : usedAt now (e :: rest) = e :: usedAt now rest := by
  unfold usedAt
  rw [List.filter_cons, if_pos (decide_eq_true he)]

theorem notUsedAt_cons {now : Timestamp} {e : CacheEntry F} (he : e.lastAccessed = now)
    (rest : List (CacheEntry F)) : notUsedAt now (e :: rest) = notUsedAt now rest := by
  unfold notUsedAt
  rw [List.filter_cons, if_neg]
  simp [he]

/-- The saved entries take the places of those in the queue, one after the other and round
again; saved entries of other topics are passed over. -/
inductive Renews (now : Timestamp) :
    List (CacheEntry F) -> List (CacheEntry F) -> List (CacheEntry F) -> Prop where
  | done (queue : List (CacheEntry F)) : Renews now queue [] queue
  | next {first entry : CacheEntry F} {queue passed rest result : List (CacheEntry F)}
      (hpassed : forall e, e ∈ passed -> e.topic ≠ first.topic)
      (htopic : entry.topic = first.topic)
      (hrest : Renews now (queue ++ [{ entry with lastAccessed := now }]) rest result) :
      Renews now (first :: queue) (passed ++ entry :: rest) result

namespace FullAt

variable {cache : SpeculativeCache F} {before after : List (CacheEntry F)} {least : CacheEntry F}
variable {now : Timestamp}

theorem usedAt_before (h : FullAt cache before least after) (hleast : least.lastAccessed = now) :
    usedAt now before = [] := by
  apply List.filter_eq_nil_iff.mpr
  intro x hx hnow
  have hlt := h.before_lt x hx
  rw [hleast, of_decide_eq_true hnow] at hlt
  exact absurd hlt (UInt64.lt_irrefl now)

theorem usedAt_entries (h : FullAt cache before least after) (hleast : least.lastAccessed = now) :
    usedAt now cache.entries = least :: usedAt now after := by
  rw [h.split, usedAt_append, h.usedAt_before hleast, usedAt_cons hleast]
  rfl

theorem usedAt_renewed (h : FullAt cache before least after) (hleast : least.lastAccessed = now)
    (entry : CacheEntry F) :
    usedAt now (renewed now cache before after entry).entries =
      usedAt now after ++ [{ entry with lastAccessed := now }] := by
  have hentry : usedAt now [{ entry with lastAccessed := now }] =
      [{ entry with lastAccessed := now }] := usedAt_cons rfl []
  unfold renewed
  rw [usedAt_append, usedAt_append, h.usedAt_before hleast, hentry]
  rfl

theorem notUsedAt_renewed (h : FullAt cache before least after)
    (hleast : least.lastAccessed = now) (entry : CacheEntry F) :
    notUsedAt now (renewed now cache before after entry).entries =
      notUsedAt now cache.entries := by
  have hentry : notUsedAt now [{ entry with lastAccessed := now }] = [] := notUsedAt_cons rfl []
  unfold renewed
  rw [h.split, notUsedAt_append, notUsedAt_append, notUsedAt_append, hentry,
    notUsedAt_cons hleast, List.append_nil]

theorem now_le_renewed (h : FullAt cache before least after)
    (hnow : forall e, e ∈ cache.entries -> now <= e.lastAccessed) (entry : CacheEntry F) :
    forall e, e ∈ (renewed now cache before after entry).entries -> now <= e.lastAccessed := by
  intro e he
  rw [h.split] at hnow
  rcases List.mem_append.mp he with hmem | hmem
  · rcases List.mem_append.mp hmem with hmem | hmem
    · exact hnow e (List.mem_append_left _ hmem)
    · exact hnow e (List.mem_append_right _ (List.mem_cons_of_mem least hmem))
  · rw [List.mem_singleton.mp hmem]
    exact UInt64.le_refl now

/-- Where some entry was used at the time of the load and none before, such an entry makes
room. -/
theorem least_eq_now (h : FullAt cache before least after)
    (hnow : forall e, e ∈ cache.entries -> now <= e.lastAccessed)
    (hused : usedAt now cache.entries ≠ []) : least.lastAccessed = now := by
  rcases List.exists_mem_of_ne_nil _ hused with ⟨e, he⟩
  rcases List.mem_filter.mp he with ⟨hmem, htime⟩
  have hle := h.least_le hmem
  rw [of_decide_eq_true htime] at hle
  exact UInt64.le_antisymm hle (hnow least h.least_mem)

end FullAt

/-- A saved entry of the topic, with those before the first such entry. -/
theorem split_at_topic (saved : List (CacheEntry F)) (topic : String) :
    (forall e, e ∈ saved -> e.topic ≠ topic) ∨
      exists passed entry rest, saved = passed ++ entry :: rest ∧ entry.topic = topic ∧
        forall e, e ∈ passed -> e.topic ≠ topic := by
  induction saved with
  | nil =>
      left
      intro e he
      cases he
  | cons x rest ih =>
      by_cases hx : x.topic = topic
      · exact Or.inr ⟨[], x, rest, rfl, hx, by simp⟩
      · rcases ih with hnone | ⟨passed, entry, more, heq, htopic, hpassed⟩
        · exact Or.inl (List.forall_mem_cons.mpr ⟨hx, hnone⟩)
        · refine Or.inr ⟨x :: passed, entry, more, by rw [heq]; rfl, htopic, ?_⟩
          exact List.forall_mem_cons.mpr ⟨hx, hpassed⟩

/-- What a load that keeps renewing leaves: as many entries, those used at its time renewed
and the others as they were. -/
structure Renewed (now : Timestamp) (cache final : SpeculativeCache F)
    (result : List (CacheEntry F)) : Prop where
  length : final.entries.length = cache.entries.length
  used : usedAt now final.entries = result
  others : notUsedAt now final.entries = notUsedAt now cache.entries

theorem mergeAll_of_renews {now : Timestamp} {queue saved result : List (CacheEntry F)}
    (hrenews : Renews now queue saved result) {cache : SpeculativeCache F}
    (hbounded : cache.Bounded) (hfull : cache.maxSize <= cache.entries.length)
    (hnow : forall e, e ∈ cache.entries -> now <= e.lastAccessed)
    (hqueue : usedAt now cache.entries = queue)
    (hknown : forall e, e ∈ saved -> e.topic ∈ cache.entries.map CacheEntry.topic) :
    Renewed now cache (mergeAll now cache saved) result := by
  induction hrenews generalizing cache with
  | done queue => exact ⟨rfl, hqueue, rfl⟩
  | @next first entry queue passed rest result hpassed htopic hrest ih =>
      have hused : usedAt now cache.entries ≠ [] := by
        rw [hqueue]
        exact List.cons_ne_nil first queue
      rcases exists_fullAt_of_used hbounded hfull hused with ⟨before, least, after, h⟩
      have hleast := h.least_eq_now hnow hused
      have hentries := h.usedAt_entries hleast
      rw [hqueue] at hentries
      injection hentries with hfirst hrestQueue
      rw [hfirst] at hpassed htopic
      have hknownPassed : forall e, e ∈ passed -> e.topic ∈ cache.entries.map CacheEntry.topic :=
        fun e he => hknown e (List.mem_append_left _ he)
      have hqueue' : usedAt now (FullAt.renewed now cache before after entry).entries =
          queue ++ [{ entry with lastAccessed := now }] := by
        rw [h.usedAt_renewed hleast, hrestQueue]
      rw [h.mergeAll_renewed hknownPassed hpassed htopic]
      have hrenewed := ih (h.bounded_renewed now htopic)
        (by rw [h.length_renewed]; exact hfull) (h.now_le_renewed hnow entry) hqueue'
        (fun e he => h.mem_topics_renewed htopic
          (hknown e (List.mem_append_right _ (List.mem_cons_of_mem entry he))))
      constructor
      · rw [hrenewed.length, h.length_renewed]
      · exact hrenewed.used
      · rw [hrenewed.others, h.notUsedAt_renewed hleast]

/-- Without the next topic of the queue in what is left, an entry is lost. -/
theorem length_mergeAll_lt {now : Timestamp} {saved : List (CacheEntry F)}
    {cache : SpeculativeCache F} (hbounded : cache.Bounded)
    (hfull : cache.maxSize <= cache.entries.length)
    (hnow : forall e, e ∈ cache.entries -> now <= e.lastAccessed)
    (hused : usedAt now cache.entries ≠ [])
    (hknown : forall e, e ∈ saved -> e.topic ∈ cache.entries.map CacheEntry.topic)
    (hnone : ¬ exists result, Renews now (usedAt now cache.entries) saved result) :
    (mergeAll now cache saved).entries.length < cache.entries.length := by
  induction hlen : saved.length using Nat.strong_induction_on generalizing saved cache with
  | _ n ih =>
      rcases exists_fullAt_of_used hbounded hfull hused with ⟨before, least, after, h⟩
      have hleast := h.least_eq_now hnow hused
      have hentries := h.usedAt_entries hleast
      rcases split_at_topic saved least.topic with
        hlost | ⟨passed, entry, rest, heq, htopic, hpassed⟩
      · have hsaved : saved ≠ [] := by
          intro hnil
          rw [hnil] at hnone
          exact hnone ⟨_, Renews.done _⟩
        rw [h.mergeAll_lost hsaved hknown hlost, h.split]
        show (before ++ after).length < (before ++ least :: after).length
        simp only [List.length_append, List.length_cons]
        omega
      · subst heq
        have hknownPassed : forall e, e ∈ passed -> e.topic ∈ cache.entries.map CacheEntry.topic :=
          fun e he => hknown e (List.mem_append_left _ he)
        have hqueue := h.usedAt_renewed hleast entry
        have hshorter : rest.length < n := by
          rw [List.length_append, List.length_cons] at hlen
          omega
        rw [h.mergeAll_renewed hknownPassed hpassed htopic, ← h.length_renewed now entry]
        apply ih rest.length hshorter (h.bounded_renewed now htopic)
          (by rw [h.length_renewed]; exact hfull) (h.now_le_renewed hnow entry)
        · rw [hqueue]
          simp
        · intro e he
          exact h.mem_topics_renewed htopic
            (hknown e (List.mem_append_right _ (List.mem_cons_of_mem entry he)))
        · intro hrenews
          rcases hrenews with ⟨result, hresult⟩
          rw [hqueue] at hresult
          apply hnone
          rw [hentries]
          exact ⟨result, Renews.next hpassed htopic hresult⟩
        · rfl

/-!
## What a load of known topics leaves
-/

/-- The same entries, in whatever order. -/
def SameEntries (cache cache' : SpeculativeCache F) : Prop :=
  forall e, e ∈ cache'.entries <-> e ∈ cache.entries

/-- Nothing is merged, or there is room, or nothing was used before the time of the load and
the saved entries renew those used at it, in turn, and leave entries that were there. -/
def LoadsInPlace (now : Timestamp) (cache : SpeculativeCache F) (snapshot : CacheSnapshot F) :
    Prop :=
  snapshot.version ≠ cacheSnapshotVersion ∨ snapshot.entries = [] ∨
    cache.entries.length < cache.maxSize ∨
    ((forall e, e ∈ cache.entries -> now <= e.lastAccessed) ∧
      exists result, Renews now (usedAt now cache.entries) snapshot.entries result ∧
        forall e, e ∈ result -> e ∈ cache.entries)

theorem Bounded.nodup {cache : SpeculativeCache F} (h : cache.Bounded) : cache.entries.Nodup :=
  List.Nodup.of_map CacheEntry.topic h.distinct

theorem mem_iff_usedAt {now : Timestamp} {entries : List (CacheEntry F)} {e : CacheEntry F} :
    e ∈ entries <-> e ∈ usedAt now entries ∨ e ∈ notUsedAt now entries := by
  unfold usedAt notUsedAt
  rw [List.mem_filter, List.mem_filter, decide_eq_true_eq, decide_eq_true_eq]
  constructor
  · intro h
    by_cases htime : e.lastAccessed = now
    · exact Or.inl ⟨h, htime⟩
    · exact Or.inr ⟨h, htime⟩
  · rintro (h | h)
    · exact h.1
    · exact h.1

/-- As many distinct entries, all of them from before, are the entries from before. -/
theorem sameEntries_of_subset {cache cache' : SpeculativeCache F} (hbounded : cache'.Bounded)
    (hsubset : forall e, e ∈ cache'.entries -> e ∈ cache.entries)
    (hlength : cache'.entries.length = cache.entries.length) : SameEntries cache cache' := by
  have hsub : cache'.entries.Subperm cache.entries :=
    List.Nodup.subperm hbounded.nodup (fun e he => hsubset e he)
  have hperm := hsub.perm_of_length_le (Nat.le_of_eq hlength.symm)
  exact fun e => hperm.mem_iff

/-- An entry that made room and was not used at the time of the load is gone. -/
theorem least_lost {now : Timestamp} {saved : List (CacheEntry F)} {cache : SpeculativeCache F}
    {before after : List (CacheEntry F)} {least : CacheEntry F}
    (h : FullAt cache before least after) (hsaved : saved ≠ [])
    (hleast : least.lastAccessed ≠ now) : least ∉ (mergeAll now cache saved).entries := by
  rw [h.mergeAll_evicted now hsaved]
  intro hmem
  rcases mem_mergeAll hmem with hkept | hnow
  · exact h.topic_not_mem (List.mem_map.mpr ⟨least, hkept, rfl⟩)
  · exact hleast hnow

/-- What renews the entries used at the time of the load leaves them as they were. -/
theorem sameEntries_of_renews {now : Timestamp} {saved result : List (CacheEntry F)}
    {cache : SpeculativeCache F} (hbounded : cache.Bounded)
    (hfull : cache.maxSize <= cache.entries.length)
    (hnow : forall e, e ∈ cache.entries -> now <= e.lastAccessed)
    (hknown : forall e, e ∈ saved -> e.topic ∈ cache.entries.map CacheEntry.topic)
    (hresult : Renews now (usedAt now cache.entries) saved result)
    (hold : forall e, e ∈ result -> e ∈ cache.entries) :
    SameEntries cache (mergeAll now cache saved) := by
  have hrenewed := mergeAll_of_renews hresult hbounded hfull hnow rfl hknown
  apply sameEntries_of_subset (hbounded.mergeAll now saved)
  · intro e he
    rcases mem_iff_usedAt.mp he with hnew | hkept
    · rw [hrenewed.used] at hnew
      exact hold e hnew
    · rw [hrenewed.others] at hkept
      exact mem_iff_usedAt.mpr (Or.inr hkept)
  · exact hrenewed.length

/-- Nothing else does. -/
theorem renews_of_sameEntries {now : Timestamp} {saved : List (CacheEntry F)}
    {cache : SpeculativeCache F} (hbounded : cache.Bounded)
    (hfull : cache.maxSize <= cache.entries.length) (hsaved : saved ≠ [])
    (hknown : forall e, e ∈ saved -> e.topic ∈ cache.entries.map CacheEntry.topic)
    (hsame : SameEntries cache (mergeAll now cache saved)) :
    (forall e, e ∈ cache.entries -> now <= e.lastAccessed) ∧
      exists result, Renews now (usedAt now cache.entries) saved result ∧
        forall e, e ∈ result -> e ∈ cache.entries := by
  have hne : cache.entries ≠ [] := by
    intro hnil
    rcases List.exists_mem_of_ne_nil _ hsaved with ⟨e, he⟩
    have hmem := hknown e he
    rw [hnil] at hmem
    cases hmem
  rcases exists_fullAt hbounded hfull hne with ⟨before, least, after, h⟩
  have hleast : least.lastAccessed = now := by
    by_contra hother
    exact least_lost h hsaved hother ((hsame least).mpr h.least_mem)
  have hnow : forall e, e ∈ cache.entries -> now <= e.lastAccessed := by
    intro e he
    rw [← hleast]
    exact h.least_le he
  have hused : usedAt now cache.entries ≠ [] := by
    rw [h.usedAt_entries hleast]
    exact List.cons_ne_nil _ _
  refine ⟨hnow, ?_⟩
  by_cases hrenews : exists result, Renews now (usedAt now cache.entries) saved result
  · rcases hrenews with ⟨result, hresult⟩
    have hrenewed := mergeAll_of_renews hresult hbounded hfull hnow rfl hknown
    refine ⟨result, hresult, ?_⟩
    intro e he
    rw [← hrenewed.used] at he
    exact (hsame e).mp (mem_iff_usedAt.mpr (Or.inl he))
  · have hlost := length_mergeAll_lt hbounded hfull hnow hused hknown hrenews
    have hsub : cache.entries.Subperm (mergeAll now cache saved).entries :=
      List.Nodup.subperm hbounded.nodup (fun e he => (hsame e).mpr he)
    exact absurd hsub.length_le (Nat.not_le.mpr hlost)

section Reload

variable [Scalar F] {text : TextOps F} {build : Build}

/-- A load whose topics are all known leaves the entries as they were exactly when it loads in
place. -/
theorem load_known_unchanged_iff {maxSize : Nat} {keywordThreshold embeddingThreshold : F}
    {calls : List (CacheCall F)} {cache : SpeculativeCache F}
    (hrun : runCalls text build (new maxSize keywordThreshold embeddingThreshold) calls =
      some cache)
    (now : Timestamp) {snapshot : CacheSnapshot F}
    (hknown : forall e, e ∈ snapshot.entries -> e.topic ∈ cache.entries.map CacheEntry.topic) :
    SameEntries cache (cache.load now (Except.ok snapshot)).2 <->
      LoadsInPlace now cache snapshot := by
  have hbounded := ((bounded_new maxSize keywordThreshold embeddingThreshold).run hrun).1
  unfold LoadsInPlace
  by_cases hversion : snapshot.version = cacheSnapshotVersion
  · have hload : (cache.load now (Except.ok snapshot)).2 =
        mergeAll now cache snapshot.entries := by
      unfold load
      simp only [hversion, ne_eq, not_true_eq_false, if_false]
    rw [hload]
    by_cases hsaved : snapshot.entries = []
    · rw [hsaved]
      exact iff_of_true (fun e => Iff.rfl) (Or.inr (Or.inl rfl))
    · rcases Nat.lt_or_ge cache.entries.length cache.maxSize with hroom | hfull
      · rw [mergeAll_of_known (withRoom_of_space hroom) hknown]
        exact iff_of_true (fun e => Iff.rfl) (Or.inr (Or.inr (Or.inl hroom)))
      · constructor
        · intro hsame
          exact Or.inr (Or.inr (Or.inr
            (renews_of_sameEntries hbounded hfull hsaved hknown hsame)))
        · rintro (hother | hnil | hroom | ⟨hnow, result, hresult, hold⟩)
          · exact absurd hversion hother
          · exact absurd hnil hsaved
          · exact absurd hroom (Nat.not_lt.mpr hfull)
          · exact sameEntries_of_renews hbounded hfull hnow hknown hresult hold
  · have hload : (cache.load now (Except.ok snapshot)).2 = cache := by
      unfold load
      simp only [hversion, ne_eq, not_false_eq_true, if_true]
    rw [hload]
    exact iff_of_true (fun e => Iff.rfl) (Or.inl hversion)

end Reload

def predicted (topic : String) : Option (String × List MemoryId × Option (List Rat)) :=
  some ("Context for " ++ topic, [], none)

/-- One prediction in a cache of two, and another one. -/
def halfCache : SpeculativeCache Rat :=
  (new 2 (1 / 2) (2 / 5)).preAssemble 10 ["auth"] predicted

def fullCache : SpeculativeCache Rat := halfCache.preAssemble 20 ["storage"] predicted

theorem load_known_unchanged_half :
    runCalls asciiOps Build.wrapping (new 2 (1 / 2) (2 / 5))
      [CacheCall.preAssemble 10 ["auth"] predicted] = some halfCache ∧
    (SameEntries halfCache (halfCache.load 30 (Except.ok ⟨1, halfCache.entries⟩)).2 <->
      LoadsInPlace 30 halfCache ⟨1, halfCache.entries⟩) := by
  have hrun : runCalls asciiOps Build.wrapping (new 2 (1 / 2) (2 / 5))
      [CacheCall.preAssemble 10 ["auth"] predicted] = some halfCache := rfl
  exact ⟨hrun, load_known_unchanged_iff hrun 30 (by decide)⟩

/-- The second entry is loaded while it is there, and the first one is gone. -/
theorem known_entry_evicts_another :
    runCalls asciiOps Build.wrapping (new 2 (1 / 2) (2 / 5))
      [CacheCall.preAssemble 10 ["auth"] predicted,
        CacheCall.preAssemble 20 ["storage"] predicted] = some fullCache ∧
    (fullCache.entries.map CacheEntry.topic) = ["auth", "storage"] ∧
    (fullCache.load 30 (Except.ok ⟨1, fullCache.entries.drop 1⟩)).2.entries.map
      CacheEntry.topic = ["storage"] ∧
    ¬ SameEntries fullCache (fullCache.load 30 (Except.ok ⟨1, fullCache.entries.drop 1⟩)).2 := by
  have htopics : (fullCache.load 30 (Except.ok ⟨1, fullCache.entries.drop 1⟩)).2.entries.map
      CacheEntry.topic = ["storage"] := by decide
  refine ⟨rfl, by decide, htopics, ?_⟩
  intro hsame
  have hlost : "auth" ∈ (fullCache.load 30
      (Except.ok ⟨1, fullCache.entries.drop 1⟩)).2.entries.map CacheEntry.topic := by
    rcases List.mem_map.mp (show "auth" ∈ fullCache.entries.map CacheEntry.topic by decide) with
      ⟨e, he, heq⟩
    exact List.mem_map.mpr ⟨e, (hsame e).mpr he, heq⟩
  rw [htopics] at hlost
  revert hlost
  decide

/-!
## Old entries
-/

/-- The age of an entry; one that was created later has none. -/
def ageAt (now : Timestamp) (e : CacheEntry F) : UInt64 :=
  if e.createdAt <= now then now - e.createdAt else 0

/-- Whatever the build, the entries that are too old are removed and no others. -/
def EvictsExactly (cache : SpeculativeCache F) (maxAgeUs : UInt64) (now : Timestamp) : Prop :=
  forall build : Build, cache.evictStale build maxAgeUs now =
    some { cache with entries := cache.entries.filter (fun e => decide (ageAt now e <= maxAgeUs)) }

theorem ageAt_of_le {now : Timestamp} {e : CacheEntry F} (h : e.createdAt <= now) :
    ageAt now e = now - e.createdAt := by
  unfold ageAt
  rw [if_pos h]

/-- The stale entries are removed exactly when no entry was created after the time that is
asked about. -/
theorem evict_stale_exact_iff (cache : SpeculativeCache F) (maxAgeUs : UInt64) (now : Timestamp) :
    EvictsExactly cache maxAgeUs now <-> forall e, e ∈ cache.entries -> e.createdAt <= now := by
  constructor
  · intro h e he
    have hreturns : (retain (fun e => (Build.checked.subU64 now e.createdAt).map
        (fun age => decide (age <= maxAgeUs))) cache.entries).isSome = true := by
      rw [← Option.isSome_map]
      exact Option.isSome_of_eq_some (h Build.checked)
    have hage := (retain_isSome_iff _ cache.entries).mp hreturns e he
    rw [Option.isSome_map] at hage
    by_contra hlater
    rw [Build.subU64_of_lt (UInt64.not_le.mp hlater)] at hage
    cases hage
  · intro h build
    unfold evictStale
    have htest : forall e, e ∈ cache.entries ->
        (build.subU64 now e.createdAt).map (fun age => decide (age <= maxAgeUs)) =
          some (decide (ageAt now e <= maxAgeUs)) := by
      intro e he
      rw [build.subU64_of_le (h e he), ageAt_of_le (h e he)]
      rfl
    rw [retain_of_test htest]
    rfl

/-- An entry of a session whose clock was ahead has the largest of ages, or stops the call. -/
theorem later_entry_is_evicted :
    ((new 2 (1 / 2) (2 / 5)).load 85 (Except.ok (fullCache.save 0))).2.evictStale
      Build.checked 50 15 = none ∧
    (((new 2 (1 / 2) (2 / 5)).load 85 (Except.ok (fullCache.save 0))).2.evictStale
      Build.wrapping 50 15).map (fun c => c.entries.map CacheEntry.topic) = some ["auth"] ∧
    ¬ EvictsExactly ((new 2 (1 / 2) (2 / 5)).load 85 (Except.ok (fullCache.save 0))).2 50 15 := by
  have hpanic : ((new 2 (1 / 2) (2 / 5)).load 85 (Except.ok (fullCache.save 0))).2.evictStale
      Build.checked 50 15 = none := by rfl
  refine ⟨hpanic, by decide, ?_⟩
  intro h
  have hreturns := h Build.checked
  rw [hpanic] at hreturns
  cases hreturns

end SpeculativeCache
end Cognitive
end MenteDb
