import MenteDb.Cognitive.Trajectory
import MenteDb.Foundation.Merging

/-!
# Saved transitions

A transition map is saved without the transitions that are too rare, and a saved map is merged
into the one that loads it.  Hash maps have no order: a file is read as a snapshot with the same
contents, listed in any order.
-/

namespace MenteDb
namespace Cognitive

open Foundation

/-- How often the topics of one table followed those of another. -/
abbrev Transitions : Type := Assoc String (Assoc String Nat)

structure TransitionSnapshot where
  version : Nat
  transitions : Transitions
  topicCache : Assoc String String

def transitionSnapshotVersion : Nat := 2

namespace TransitionMap

/-- The targets with enough counts, and the sources with such targets. -/
def pruned (minCount : Nat) (transitions : Transitions) : Transitions :=
  (transitions.update (fun _ _ => true)
    (fun _ targets => targets.deleteWhere (fun _ c => decide (c < minCount)))).deleteWhere
      (fun _ kept => kept.entries.isEmpty)

def save (m : TransitionMap) (minCount : Nat) : TransitionSnapshot where
  version := transitionSnapshotVersion
  transitions := pruned minCount m.transitions
  topicCache := m.topicCache

def mergeCounts (build : Build) (entry targets : Assoc String Nat) : Option (Assoc String Nat) :=
  entry.mergeRows (fun old count => build.addU32 (old.getD 0) count) targets.entries

def mergeTransitions (build : Build) (current saved : Transitions) : Option Transitions :=
  current.mergeRows (fun entry targets => mergeCounts build (entry.getD Assoc.empty) targets)
    saved.entries

/-- A label that is there stays. -/
def mergeTopics (current saved : Assoc String String) : Option (Assoc String String) :=
  current.mergeRows (fun old canonical => some (old.getD canonical)) saved.entries

/-- A file that cannot be read or holds no snapshot comes with its error; none stands for a
panic. -/
def load (build : Build) (m : TransitionMap) (file : Except String TransitionSnapshot) :
    Option (Except String Unit × TransitionMap) :=
  match file with
  | Except.error e => some (Except.error e, m)
  | Except.ok snapshot =>
      if transitionSnapshotVersion < snapshot.version then
        some (Except.error ("unsupported transition snapshot version: "
          ++ toString snapshot.version ++ " (expected <= " ++ toString transitionSnapshotVersion
          ++ ")"), m)
      else
        (mergeTransitions build m.transitions snapshot.transitions).bind (fun transitions =>
          (mergeTopics m.topicCache snapshot.topicCache).map (fun topicCache =>
            (Except.ok (), { transitions := transitions, topicCache := topicCache })))

/-!
## Counts in a table
-/

def countIn (t : Transitions) (source target : String) : Option Nat :=
  (t.find? source).bind (fun targets => targets.find? target)

theorem countIn_insert (t : Transitions) (source : String) (targets : Assoc String Nat)
    (a b : String) :
    countIn (t.insert source targets) a b =
      if a = source then targets.find? b else countIn t a b := by
  unfold countIn
  rw [Assoc.find?_insert]
  split
  · rfl
  · rfl

theorem countIn_erase (t : Transitions) (source a b : String) :
    countIn (t.erase source) a b = if a = source then none else countIn t a b := by
  unfold countIn
  rw [Assoc.find?_erase]
  split
  · rfl
  · rfl

theorem countIn_of_not_contains {t : Transitions} {source : String}
    (h : t.contains source = false) (target : String) : countIn t source target = none := by
  unfold countIn
  rw [Option.not_isSome_iff_eq_none.mp (Bool.eq_false_iff.mp h)]
  rfl

/-- The same sources with the same counts, whatever the order. -/
structure SameTables (t u : Transitions) : Prop where
  sources : forall source, t.contains source = u.contains source
  counts : forall source target, countIn t source target = countIn u source target

/-- Every source has a target, and every count is at least one and fits its type. -/
structure Normalized (t : Transitions) : Prop where
  nonempty : forall source, t.contains source = true ->
    exists target n, countIn t source target = some n
  counted : forall source target n, countIn t source target = some n -> 1 <= n ∧ n < 2 ^ 32

theorem SameTables.normalized {t u : Transitions} (h : SameTables t u) (hu : Normalized u) :
    Normalized t where
  nonempty source hsource := by
    rw [h.sources] at hsource
    rcases hu.nonempty source hsource with ⟨target, n, hn⟩
    exact ⟨target, n, (h.counts source target).trans hn⟩
  counted source target n hn := hu.counted source target n ((h.counts source target).symm.trans hn)

theorem isEmpty_eq_false_iff {targets : Assoc String Nat} :
    targets.entries.isEmpty = false <-> exists target n, targets.find? target = some n := by
  rw [List.isEmpty_eq_false_iff_exists_mem]
  constructor
  · rintro ⟨e, he⟩
    exact ⟨e.1, e.2, Assoc.find?_eq_some_iff.mpr he⟩
  · rintro ⟨target, n, hn⟩
    exact ⟨(target, n), Assoc.find?_eq_some_iff.mp hn⟩

theorem find?_of_isEmpty {targets : Assoc String Nat} (h : targets.entries.isEmpty = true)
    (target : String) : targets.find? target = none := by
  unfold Assoc.find?
  rw [List.isEmpty_iff.mp h]
  rfl

namespace Normalized

theorem empty : Normalized Assoc.empty where
  nonempty source hsource := by cases hsource
  counted source target n hn := by cases hn

theorem insert {t : Transitions} (h : Normalized t) (source : String)
    {targets : Assoc String Nat} (hne : targets.entries.isEmpty = false)
    (hcounted : forall target n, targets.find? target = some n -> 1 <= n ∧ n < 2 ^ 32) :
    Normalized (t.insert source targets) where
  nonempty a ha := by
    by_cases hsource : a = source
    · rcases isEmpty_eq_false_iff.mp hne with ⟨target, n, hn⟩
      refine ⟨target, n, ?_⟩
      rw [countIn_insert, if_pos hsource]
      exact hn
    · unfold Assoc.contains at ha
      rw [Assoc.find?_insert, if_neg hsource] at ha
      rcases h.nonempty a ha with ⟨target, n, hn⟩
      refine ⟨target, n, ?_⟩
      rw [countIn_insert, if_neg hsource]
      exact hn
  counted a target n hn := by
    rw [countIn_insert] at hn
    split at hn
    · exact hcounted target n hn
    · exact h.counted a target n hn

theorem erase {t : Transitions} (h : Normalized t) (source : String) :
    Normalized (t.erase source) where
  nonempty a ha := by
    unfold Assoc.contains at ha
    rw [Assoc.find?_erase] at ha
    split at ha
    · cases ha
    · rename_i hsource
      rcases h.nonempty a ha with ⟨target, n, hn⟩
      refine ⟨target, n, ?_⟩
      rw [countIn_erase, if_neg hsource]
      exact hn
  counted a target n hn := by
    rw [countIn_erase] at hn
    split at hn
    · cases hn
    · exact h.counted a target n hn

end Normalized

/-!
## The operations keep a table normalized
-/

section Operations

variable {F : Type} {text : TextOps F} {build : Build}

/-- An addition whose count stays below the width. -/
def AddFits (text : TextOps F) (bonus : Nat) (m : TransitionMap) (source target : String) : Prop :=
  (m.count (m.resolveTopic text source) (m.resolveTopic text target)).getD 0 + bonus < 2 ^ 32

theorem Normalized.addTo {bonus : Nat} (hbonus : 1 <= bonus) {m m' : TransitionMap}
    {source target : String} (h : Normalized m.transitions)
    (hfits : AddFits text bonus m source target)
    (hadd : addTo text build bonus m source target = some m') : Normalized m'.transitions := by
  rcases Option.map_eq_some_iff.mp hadd with ⟨n, hn, heq⟩
  rw [find?_targets, Build.addU32_of_lt build hfits] at hn
  rw [← heq]
  apply h.insert
  · rw [isEmpty_eq_false_iff]
    refine ⟨m.resolveTopic text target, n, ?_⟩
    rw [Assoc.find?_insert, if_pos rfl]
  · intro x k hk
    rw [Assoc.find?_insert] at hk
    split at hk
    · cases hk
      cases hn
      exact ⟨Nat.le_trans hbonus (Nat.le_add_left _ _), hfits⟩
    · rw [find?_targets] at hk
      exact h.counted _ x k hk

/-- The targets of a source after a decay. -/
def decayed (targets : Assoc String Nat) (target : String) : Assoc String Nat :=
  match targets.find? target with
  | none => targets
  | some n => if n - 1 = 0 then targets.erase target else targets.insert target (n - 1)

theorem decay_of_none {m : TransitionMap} {source : String}
    (h : m.transitions.find? (m.resolveTopic text source) = none) (target : String) :
    m.decay text source target = m := by
  unfold decay
  simp only [h]

theorem transitions_decay_of_some {m : TransitionMap} {source : String}
    {targets : Assoc String Nat}
    (h : m.transitions.find? (m.resolveTopic text source) = some targets) (target : String) :
    (m.decay text source target).transitions =
      if (decayed targets (m.resolveTopic text target)).entries.isEmpty then
        m.transitions.erase (m.resolveTopic text source)
      else m.transitions.insert (m.resolveTopic text source)
        (decayed targets (m.resolveTopic text target)) := by
  unfold decay decayed
  simp only [h]
  exact apply_ite transitions _ _ _

/-- A count that decays to zero is not kept. -/
theorem counted_decayed {targets : Assoc String Nat} {target : String}
    (h : forall x n, targets.find? x = some n -> 1 <= n ∧ n < 2 ^ 32) (x : String) (n : Nat)
    (hn : (decayed targets target).find? x = some n) : 1 <= n ∧ n < 2 ^ 32 := by
  unfold decayed at hn
  cases hfind : targets.find? target with
  | none =>
      rw [hfind] at hn
      exact h x n hn
  | some k =>
      have hk := h target k hfind
      rw [hfind] at hn
      simp only at hn
      split at hn
      · rw [Assoc.find?_erase] at hn
        split at hn
        · cases hn
        · exact h x n hn
      · rw [Assoc.find?_insert] at hn
        split at hn
        · cases hn
          omega
        · exact h x n hn

theorem Normalized.decay {m : TransitionMap} (h : Normalized m.transitions)
    (source target : String) : Normalized (m.decay text source target).transitions := by
  cases hfind : m.transitions.find? (m.resolveTopic text source) with
  | none =>
      rw [decay_of_none hfind]
      exact h
  | some targets =>
      rw [transitions_decay_of_some hfind]
      split
      · exact h.erase _
      · rename_i hleft
        apply h.insert _ (Bool.eq_false_iff.mpr hleft)
        apply counted_decayed
        intro x n hn
        apply h.counted (m.resolveTopic text source) x n
        unfold countIn
        rw [hfind]
        exact hn

theorem transitions_learnCanonical (m : TransitionMap) (raw canonical : String) :
    (m.learnCanonical text raw canonical).transitions = m.transitions := by
  unfold learnCanonical
  split
  · rfl
  · rfl

end Operations

/-!
## Saving
-/

theorem find?_pruned (minCount : Nat) (t : Transitions) (source : String) :
    (pruned minCount t).find? source =
      ((t.find? source).map (fun targets =>
        targets.deleteWhere (fun _ c => decide (c < minCount)))).filter
          (fun kept => !kept.entries.isEmpty) := by
  unfold pruned
  rw [Assoc.find?_deleteWhere, Assoc.find?_update]
  rfl

theorem countIn_pruned (minCount : Nat) (t : Transitions) (source target : String) :
    countIn (pruned minCount t) source target =
      (countIn t source target).filter (fun n => decide (minCount <= n)) := by
  unfold countIn
  rw [find?_pruned]
  cases t.find? source with
  | none => rfl
  | some targets =>
      have hkept : (targets.deleteWhere (fun _ c => decide (c < minCount))).find? target =
          (targets.find? target).filter (fun n => decide (minCount <= n)) := by
        rw [Assoc.find?_deleteWhere]
        congr 1
        funext n
        rw [Bool.eq_iff_iff, Bool.not_eq_true', decide_eq_false_iff_not, decide_eq_true_eq,
          Nat.not_lt]
      rw [Option.map_some, Option.bind_some, ← hkept, Option.filter_some]
      cases hempty : (targets.deleteWhere (fun _ c => decide (c < minCount))).entries.isEmpty with
      | false => rfl
      | true => exact (find?_of_isEmpty hempty target).symm

/-- A source is kept with its targets, if it keeps one. -/
theorem contains_pruned_iff (minCount : Nat) (t : Transitions) (source : String) :
    (pruned minCount t).contains source = true <->
      exists target n, countIn (pruned minCount t) source target = some n := by
  unfold Assoc.contains countIn
  cases hfind : (pruned minCount t).find? source with
  | none => simp
  | some kept =>
      have hne : kept.entries.isEmpty = false := by
        rw [find?_pruned] at hfind
        simpa using (Option.filter_eq_some_iff.mp hfind).2
      exact iff_of_true rfl (isEmpty_eq_false_iff.mp hne)

theorem Normalized.pruned {t : Transitions} (h : Normalized t) (minCount : Nat) :
    Normalized (pruned minCount t) where
  nonempty source hsource := (contains_pruned_iff minCount t source).mp hsource
  counted source target n hn := by
    rw [countIn_pruned] at hn
    exact h.counted source target n (Option.filter_eq_some_iff.mp hn).1

/-- Without a threshold above one nothing is pruned. -/
theorem sameTables_pruned_one {t : Transitions} (h : Normalized t) :
    SameTables (TransitionMap.pruned 1 t) t := by
  have hcounts : forall source target,
      countIn (TransitionMap.pruned 1 t) source target = countIn t source target := by
    intro source target
    rw [countIn_pruned]
    cases hn : countIn t source target with
    | none => rfl
    | some n => rw [Option.filter_some, decide_eq_true (h.counted source target n hn).1, if_pos rfl]
  refine ⟨fun source => ?_, hcounts⟩
  rw [Bool.eq_iff_iff, contains_pruned_iff]
  constructor
  · rintro ⟨target, n, hn⟩
    by_contra hnone
    rw [hcounts, countIn_of_not_contains (by simpa using hnone)] at hn
    cases hn
  · intro hsource
    rcases h.nonempty source hsource with ⟨target, n, hn⟩
    exact ⟨target, n, (hcounts source target).trans hn⟩

/-!
## Loading
-/

section Loading

variable {build : Build}

theorem find?_mergeCounts {entry targets merged : Assoc String Nat}
    (h : mergeCounts build entry targets = some merged) (target : String) :
    merged.find? target =
      match targets.find? target with
      | none => entry.find? target
      | some c => build.addU32 ((entry.find? target).getD 0) c := by
  rw [Assoc.find?_mergeRows h target]
  cases targets.find? target with
  | none => rfl
  | some c => rfl

theorem contains_mergeTransitions {t u merged : Transitions}
    (h : mergeTransitions build t u = some merged) (source : String) :
    merged.contains source = (t.contains source || u.contains source) := by
  unfold Assoc.contains
  cases hsource : u.find? source with
  | none =>
      rw [Assoc.find?_mergeRows h source, hsource]
      simp
  | some targets =>
      rcases Assoc.find?_mergeRows_of_mem u.nodup h (Assoc.find?_eq_some_iff.mp hsource) with
        ⟨v, -, hv⟩
      rw [hv]
      simp

theorem countIn_mergeTransitions {t u merged : Transitions}
    (h : mergeTransitions build t u = some merged) (source target : String) :
    countIn merged source target =
      match countIn u source target with
      | none => countIn t source target
      | some c => build.addU32 ((countIn t source target).getD 0) c := by
  unfold countIn
  cases hsource : u.find? source with
  | none =>
      rw [Assoc.find?_mergeRows h source, hsource]
      rfl
  | some targets =>
      rcases Assoc.find?_mergeRows_of_mem u.nodup h (Assoc.find?_eq_some_iff.mp hsource) with
        ⟨entry, hentry, hfind⟩
      have hold : ((t.find? source).getD Assoc.empty).find? target =
          (t.find? source).bind (fun targets => targets.find? target) := by
        cases t.find? source with
        | none => rfl
        | some old => rfl
      rw [hfind, Option.bind_some, Option.bind_some, find?_mergeCounts hentry, hold]

/-- The sums of a merge stay below the width. -/
def MergeFits (t u : Transitions) : Prop :=
  forall source target c, countIn u source target = some c ->
    (countIn t source target).getD 0 + c < 2 ^ 32

theorem mergeTransitions_isSome {t u : Transitions} (hfits : MergeFits t u) :
    (mergeTransitions build t u).isSome = true := by
  apply Assoc.mergeRows_isSome u.nodup
  intro row hrow
  have hsource := Assoc.find?_eq_some_iff.mpr hrow
  apply Assoc.mergeRows_isSome row.2.nodup
  intro count hcount
  have hfit := hfits row.1 count.1 count.2 (by
    unfold countIn
    rw [hsource]
    exact Assoc.find?_eq_some_iff.mpr hcount)
  have hold : ((t.find? row.1).getD Assoc.empty).find? count.1 = countIn t row.1 count.1 := by
    unfold countIn
    cases t.find? row.1 with
    | none => rfl
    | some old => rfl
  rw [hold, Build.addU32_of_lt build hfit]
  rfl

theorem Normalized.mergeTransitions {t u merged : Transitions} (ht : Normalized t)
    (hu : Normalized u) (hfits : MergeFits t u)
    (h : mergeTransitions build t u = some merged) : Normalized merged where
  nonempty source hsource := by
    by_cases hsaved : u.contains source = true
    · rcases hu.nonempty source hsaved with ⟨target, c, hc⟩
      refine ⟨target, (countIn t source target).getD 0 + c, ?_⟩
      rw [countIn_mergeTransitions h, hc]
      exact Build.addU32_of_lt build (hfits source target c hc)
    · have hnone : u.contains source = false := by simpa using hsaved
      rw [contains_mergeTransitions h, hnone, Bool.or_false] at hsource
      rcases ht.nonempty source hsource with ⟨target, n, hn⟩
      refine ⟨target, n, ?_⟩
      rw [countIn_mergeTransitions h, countIn_of_not_contains hnone]
      exact hn
  counted source target n hn := by
    rw [countIn_mergeTransitions h] at hn
    cases hc : countIn u source target with
    | none =>
        rw [hc] at hn
        exact ht.counted source target n hn
    | some c =>
        rw [hc] at hn
        have hfit := hfits source target c hc
        have hpos := (hu.counted source target c hc).1
        simp only at hn
        rw [Build.addU32_of_lt build hfit] at hn
        cases hn
        omega

theorem mergeTopics_isSome (current saved : Assoc String String) :
    (mergeTopics current saved).isSome = true :=
  Assoc.mergeRows_isSome saved.nodup (fun _ _ => rfl)

end Loading

/-- What is read from a file is what was written, in any order. -/
structure Reads (file written : TransitionSnapshot) : Prop where
  version : file.version = written.version
  transitions : SameTables file.transitions written.transitions
  topics : forall raw, file.topicCache.find? raw = written.topicCache.find? raw

/-- The same transitions and the same labels. -/
structure Same (m m' : TransitionMap) : Prop where
  transitions : SameTables m.transitions m'.transitions
  topics : forall raw, m.topicCache.find? raw = m'.topicCache.find? raw

section Histories

variable {F : Type} {text : TextOps F} {build : Build}

theorem load_eq_ok {m m' : TransitionMap} {file : TransitionSnapshot}
    (h : m.load build (Except.ok file) = some (Except.ok (), m')) :
    mergeTransitions build m.transitions file.transitions = some m'.transitions ∧
      mergeTopics m.topicCache file.topicCache = some m'.topicCache := by
  unfold load at h
  simp only at h
  split at h
  · cases h
  · rcases Option.bind_eq_some_iff.mp h with ⟨transitions, htransitions, hrest⟩
    rcases Option.map_eq_some_iff.mp hrest with ⟨topicCache, htopics, heq⟩
    cases heq
    exact ⟨htransitions, htopics⟩

theorem load_of_fits {m : TransitionMap} {file : TransitionSnapshot}
    (hversion : file.version <= transitionSnapshotVersion)
    (hfits : MergeFits m.transitions file.transitions) :
    exists m', m.load build (Except.ok file) = some (Except.ok (), m') := by
  have hmerged : (mergeTransitions build m.transitions file.transitions).isSome = true :=
    mergeTransitions_isSome hfits
  rcases Option.isSome_iff_exists.mp hmerged with ⟨transitions, htransitions⟩
  rcases Option.isSome_iff_exists.mp
    (mergeTopics_isSome m.topicCache file.topicCache) with ⟨topicCache, htopics⟩
  refine ⟨{ transitions := transitions, topicCache := topicCache }, ?_⟩
  unfold load
  simp only
  rw [if_neg (Nat.not_lt.mpr hversion), htransitions, Option.bind_some, htopics]
  rfl

/-- The maps after every sequence of calls whose counts stay below the width.  A file that is
loaded was written by a map of such a sequence. -/
inductive Reached (text : TextOps F) (build : Build) : TransitionMap -> Prop where
  | default : Reached text build TransitionMap.default
  | record {m m' : TransitionMap} {source target : String} : Reached text build m ->
      AddFits text 1 m source target -> m.record text build source target = some m' ->
      Reached text build m'
  | reinforce {m m' : TransitionMap} {source target : String} : Reached text build m ->
      AddFits text reinforcementBonus m source target ->
      m.reinforce text build source target = some m' -> Reached text build m'
  | decay {m : TransitionMap} (source target : String) : Reached text build m ->
      Reached text build (m.decay text source target)
  | learnCanonical {m : TransitionMap} (raw canonical : String) : Reached text build m ->
      Reached text build (m.learnCanonical text raw canonical)
  | load {m m' writer : TransitionMap} {minCount : Nat} {file : TransitionSnapshot} :
      Reached text build m -> Reached text build writer -> Reads file (writer.save minCount) ->
      MergeFits m.transitions file.transitions ->
      m.load build (Except.ok file) = some (Except.ok (), m') -> Reached text build m'

theorem Reached.normalized {m : TransitionMap} (h : Reached text build m) :
    Normalized m.transitions := by
  induction h with
  | default => exact Normalized.empty
  | record _ hfits hrecord ih => exact ih.addTo (Nat.le_refl 1) hfits hrecord
  | reinforce _ hfits hreinforce ih => exact ih.addTo (by decide) hfits hreinforce
  | decay source target _ ih => exact ih.decay source target
  | learnCanonical raw canonical _ ih =>
      rw [transitions_learnCanonical]
      exact ih
  | load _ _ hreads hfits hload ih ihwriter =>
      have hfile := hreads.transitions.normalized (ihwriter.pruned _)
      exact ih.mergeTransitions hfile hfits (load_eq_ok hload).1

/-- A normalized map is read back as it was. -/
theorem load_save {m : TransitionMap} (h : Normalized m.transitions) {file : TransitionSnapshot}
    (hreads : Reads file (m.save 1)) :
    exists m', TransitionMap.default.load build (Except.ok file) = some (Except.ok (), m') ∧
      Same m' m := by
  have hsame := sameTables_pruned_one h
  have hfile := hreads.transitions.normalized (h.pruned 1)
  have hnothing : forall source target,
      countIn TransitionMap.default.transitions source target = none := fun _ _ => rfl
  have hfits : MergeFits TransitionMap.default.transitions file.transitions := by
    intro source target c hc
    rw [hnothing]
    have hwidth := (hfile.counted source target c hc).2
    show 0 + c < 2 ^ 32
    omega
  have hloads : exists m', TransitionMap.default.load build (Except.ok file) =
      some (Except.ok (), m') := load_of_fits (Nat.le_of_eq hreads.version) hfits
  rcases hloads with ⟨m', hload⟩
  rcases load_eq_ok hload with ⟨htransitions, htopics⟩
  refine ⟨m', hload, ⟨?_, ?_⟩, ?_⟩
  · intro source
    rw [contains_mergeTransitions htransitions, hreads.transitions.sources]
    exact hsame.sources source
  · intro source target
    have hcount : countIn file.transitions source target = countIn m.transitions source target :=
      (hreads.transitions.counts source target).trans (hsame.counts source target)
    rw [← hcount, countIn_mergeTransitions htransitions, hnothing]
    cases hc : countIn file.transitions source target with
    | none => rfl
    | some c =>
        have hfit := hfits source target c hc
        rw [hnothing] at hfit
        refine (Build.addU32_of_lt build hfit).trans ?_
        rw [Option.getD_none, Nat.zero_add]
  · intro raw
    have htopic : file.topicCache.find? raw = m.topicCache.find? raw := hreads.topics raw
    rw [← htopic, Assoc.find?_mergeRows htopics raw]
    cases file.topicCache.find? raw with
    | none => rfl
    | some canonical => rfl

/-- In every map of a history, counts are at least one and sources have targets, and a new map
that loads what it saves is the same. -/
theorem saved_transitions_are_faithful {m : TransitionMap} (h : Reached text build m) :
    (forall source target n, m.count source target = some n -> 1 <= n) ∧
    (forall source, m.transitions.contains source = true ->
      exists target n, m.count source target = some n) ∧
    forall file, Reads file (m.save 1) ->
      exists m', TransitionMap.default.load build (Except.ok file) = some (Except.ok (), m') ∧
        Same m' m :=
  ⟨fun source target n hn => (h.normalized.counted source target n hn).1, h.normalized.nonempty,
    fun _ hreads => load_save h.normalized hreads⟩

end Histories

/-- A map after a call that does not overflow. -/
def orDefault (m : Option TransitionMap) : TransitionMap := m.getD TransitionMap.default

theorem eq_some_orDefault {m : Option TransitionMap} (h : m.isSome = true) :
    m = some (orDefault m) := by
  cases m with
  | none => cases h
  | some m => rfl

def recordedOnce : TransitionMap :=
  orDefault (TransitionMap.default.record asciiOps Build.checked "rust" "lean")

def recordedTwice : TransitionMap :=
  orDefault (recordedOnce.record asciiOps Build.checked "lean" "proofs")

/-- The second transition is undone, and the source of the first one gets another name, under
which it is reinforced. -/
def practised : TransitionMap :=
  orDefault (((recordedTwice.decay asciiOps "lean" "proofs").learnCanonical asciiOps "RS"
    "rust").reinforce asciiOps Build.checked "rs" "lean")

theorem saved_transitions_are_faithful_practised :
    practised.count "rust" "lean" = some 3 ∧ practised.count "lean" "proofs" = none ∧
      forall file, Reads file (practised.save 1) ->
        exists m', TransitionMap.default.load Build.checked (Except.ok file) =
          some (Except.ok (), m') ∧ Same m' practised := by
  have hfirst : TransitionMap.default.record asciiOps Build.checked "rust" "lean" =
      some recordedOnce := eq_some_orDefault (by decide +kernel)
  have hsecond : recordedOnce.record asciiOps Build.checked "lean" "proofs" =
      some recordedTwice := eq_some_orDefault (by decide +kernel)
  have hthird : ((recordedTwice.decay asciiOps "lean" "proofs").learnCanonical asciiOps "RS"
      "rust").reinforce asciiOps Build.checked "rs" "lean" = some practised :=
    eq_some_orDefault (by decide +kernel)
  have hfits1 : AddFits asciiOps 1 TransitionMap.default "rust" "lean" := by
    unfold AddFits
    decide +kernel
  have hfits2 : AddFits asciiOps 1 recordedOnce "lean" "proofs" := by
    unfold AddFits
    decide +kernel
  have hfits3 : AddFits asciiOps reinforcementBonus
      ((recordedTwice.decay asciiOps "lean" "proofs").learnCanonical asciiOps "RS" "rust")
        "rs" "lean" := by
    unfold AddFits
    decide +kernel
  have hreached := (((Reached.default.record hfits1 hfirst).record hfits2 hsecond).decay "lean"
    "proofs").learnCanonical "RS" "rust"
  have hfaithful := saved_transitions_are_faithful (hreached.reinforce hfits3 hthird)
  exact ⟨by decide +kernel, by decide +kernel, hfaithful.2.2⟩

end TransitionMap
end Cognitive
end MenteDb
