import Mathlib.Data.List.Induction
import Mathlib.Order.Lattice
import MenteDb.Core.Types

/-!
# Conflicts

Versions of a memory by different agents within a second are in conflict.
-/

namespace MenteDb
namespace Core

structure ConflictVersion (F : Type) where
  agentId : AgentId
  content : String
  confidence : F
  timestamp : Timestamp

inductive Resolution where
  | keepLatest
  | keepHighestConfidence
  | merge (merged : String)
  | manual (text : String)

structure Conflict (F : Type) where
  memoryId : MemoryId
  versions : List (ConflictVersion F)
  resolution : Option Resolution

/-- One second. -/
def conflictWindowUs : Timestamp := 1000000

def absDiff (a b : Timestamp) : Timestamp := if a <= b then b - a else a - b

variable {F : Type}

def rivals (a b : ConflictVersion F) : Bool :=
  decide (absDiff a.timestamp b.timestamp <= conflictWindowUs) && decide (a.agentId ≠ b.agentId)

/-- Marks the two versions at the places if they are rivals. -/
def markPair (versions : List (ConflictVersion F)) (marks : List Bool) (pair : Nat × Nat) :
    List Bool :=
  match versions[pair.1]?, versions[pair.2]? with
  | some a, some b => if rivals a b then (marks.set pair.1 true).set pair.2 true else marks
  | _, _ => marks

/-- The loop over the pairs of places, the second one after the first. -/
def markRivals (versions : List (ConflictVersion F)) : List Bool :=
  (List.range versions.length).foldl (fun marks i =>
    (List.range' (i + 1) (versions.length - (i + 1))).foldl (fun marks j =>
      markPair versions marks (i, j)) marks)
    (List.replicate versions.length false)

def detectConflict (memoryId : MemoryId) (versions : List (ConflictVersion F)) :
    Option (Conflict F) :=
  if versions.length < 2 then none
  else
    let conflicting := ((versions.zip (markRivals versions)).filter Prod.snd).map Prod.fst
    if conflicting.length >= 2 then
      some { memoryId := memoryId, versions := conflicting, resolution := none }
    else none

section Resolving

/-- The last of the greatest elements. -/
def maxBy {α : Type} (le : α -> α -> Bool) : List α -> Option α
  | [] => none
  | x :: rest => some (rest.foldl (fun best y => if le best y then y else best) x)

variable [LinearOrder F] [Zero F] [One F]

def latestTimestamp (versions : List (ConflictVersion F)) : Timestamp :=
  ((maxBy (fun a b => decide (a <= b)) (versions.map ConflictVersion.timestamp))).getD 0

def resolveKeepLatest (c : Conflict F) : Option (ConflictVersion F) :=
  maxBy (fun a b => decide (a.timestamp <= b.timestamp)) c.versions

def resolveKeepHighestConfidence (c : Conflict F) : Option (ConflictVersion F) :=
  maxBy (fun a b => decide (a.confidence <= b.confidence)) c.versions

/-- None stands for a panic: there is no version to take the agent from. -/
def autoResolve (c : Conflict F) : Resolution -> Option (ConflictVersion F)
  | Resolution.keepLatest => resolveKeepLatest c
  | Resolution.keepHighestConfidence => resolveKeepHighestConfidence c
  | Resolution.merge merged => c.versions.head?.map (fun first =>
      { agentId := first.agentId
        content := merged
        confidence := (c.versions.map ConflictVersion.confidence).foldl max 0
        timestamp := latestTimestamp c.versions })
  | Resolution.manual text => c.versions.head?.map (fun first =>
      { agentId := first.agentId
        content := text
        confidence := 1
        timestamp := latestTimestamp c.versions })

end Resolving

/-!
### The marks
-/

/-- A version has a rival. -/
def contested (versions : List (ConflictVersion F)) (v : ConflictVersion F) : Bool :=
  versions.any (fun w => rivals v w)

theorem absDiff_comm (a b : Timestamp) : absDiff a b = absDiff b a := by
  unfold absDiff
  split
  · rename_i hab
    split
    · rename_i hba
      rw [UInt64.le_antisymm hab hba]
    · rfl
  · rename_i hab
    rw [if_pos (UInt64.le_of_lt (UInt64.not_le.mp hab))]

theorem rivals_comm (a b : ConflictVersion F) : rivals a b = rivals b a := by
  unfold rivals
  rw [absDiff_comm, Bool.eq_iff_iff, Bool.and_eq_true, Bool.and_eq_true, decide_eq_true_eq,
    decide_eq_true_eq, decide_eq_true_eq, ne_comm]

theorem rivals_self (a : ConflictVersion F) : rivals a a = false := by
  unfold rivals
  rw [decide_eq_false (fun h : a.agentId ≠ a.agentId => h rfl), Bool.and_false]

def marked (marks : List Bool) (k : Nat) : Bool := marks[k]?.getD false

theorem marked_set {marks : List Bool} {i : Nat} (hi : i < marks.length) (k : Nat) :
    marked (marks.set i true) k = (marked marks k || decide (k = i)) := by
  unfold marked
  rw [List.getElem?_set]
  by_cases h : i = k
  · rw [if_pos h, if_pos hi, decide_eq_true h.symm, Bool.or_true]
    rfl
  · rw [if_neg h, decide_eq_false (fun heq => h heq.symm), Bool.or_false]

/-- What a pair marks. -/
def Marks (versions : List (ConflictVersion F)) (pair : Nat × Nat) (k : Nat) : Prop :=
  exists a b, versions[pair.1]? = some a ∧ versions[pair.2]? = some b ∧ rivals a b = true ∧
    (k = pair.1 ∨ k = pair.2)

theorem markPair_spec {versions : List (ConflictVersion F)} {marks : List Bool}
    (hlength : marks.length = versions.length) (pair : Nat × Nat) :
    (markPair versions marks pair).length = versions.length ∧
      forall k, marked (markPair versions marks pair) k = true <->
        marked marks k = true ∨ Marks versions pair k := by
  unfold markPair
  split
  · rename_i a b ha hb
    have hfirst : pair.1 < marks.length := by
      rw [hlength]
      exact (List.getElem?_eq_some_iff.mp ha).1
    have hsecond : pair.2 < (marks.set pair.1 true).length := by
      rw [List.length_set, hlength]
      exact (List.getElem?_eq_some_iff.mp hb).1
    split
    · rename_i hrivals
      refine ⟨by rw [List.length_set, List.length_set, hlength], fun k => ?_⟩
      rw [marked_set hsecond, marked_set hfirst, Bool.or_eq_true, Bool.or_eq_true,
        decide_eq_true_eq, decide_eq_true_eq, or_assoc]
      constructor
      · rintro (hold | hnew)
        · exact Or.inl hold
        · exact Or.inr ⟨a, b, ha, hb, hrivals, hnew⟩
      · rintro (hold | ⟨_, _, _, _, _, hnew⟩)
        · exact Or.inl hold
        · exact Or.inr hnew
    · rename_i hpeace
      refine ⟨hlength, fun k => ⟨Or.inl, ?_⟩⟩
      rintro (hold | ⟨a', b', ha', hb', hrivals, _⟩)
      · exact hold
      · rw [ha] at ha'
        rw [hb] at hb'
        cases ha'
        cases hb'
        exact absurd hrivals hpeace
  · rename_i hmissing
    refine ⟨hlength, fun k => ⟨Or.inl, ?_⟩⟩
    rintro (hold | ⟨a, b, ha, hb, _, _⟩)
    · exact hold
    · exact absurd hb (hmissing a b ha)

theorem foldl_markPair {versions : List (ConflictVersion F)} (pairs : List (Nat × Nat))
    {marks : List Bool} (hlength : marks.length = versions.length) :
    (pairs.foldl (markPair versions) marks).length = versions.length ∧
      forall k, marked (pairs.foldl (markPair versions) marks) k = true <->
        marked marks k = true ∨ exists pair, pair ∈ pairs ∧ Marks versions pair k := by
  induction pairs generalizing marks with
  | nil => exact ⟨hlength, fun k => by simp⟩
  | cons pair rest ih =>
      rcases markPair_spec hlength pair with ⟨hpair, hmarks⟩
      rcases ih hpair with ⟨hrest, hlater⟩
      refine ⟨hrest, fun k => ?_⟩
      rw [List.foldl_cons, hlater, hmarks, or_assoc]
      simp only [List.mem_cons, exists_eq_or_imp]

/-- The pairs of places that the loops go through. -/
def placePairs (n : Nat) : List (Nat × Nat) :=
  (List.range n).flatMap (fun i => (List.range' (i + 1) (n - (i + 1))).map (fun j => (i, j)))

theorem mem_placePairs {n : Nat} {pair : Nat × Nat} :
    pair ∈ placePairs n <-> pair.1 < pair.2 ∧ pair.2 < n := by
  unfold placePairs
  rw [List.mem_flatMap]
  constructor
  · rintro ⟨i, hi, hpair⟩
    rcases List.mem_map.mp hpair with ⟨j, hj, rfl⟩
    rw [List.mem_range] at hi
    rw [List.mem_range'_1] at hj
    dsimp only
    omega
  · rintro ⟨hlt, hn⟩
    refine ⟨pair.1, List.mem_range.mpr (hlt.trans hn), List.mem_map.mpr ⟨pair.2, ?_, rfl⟩⟩
    rw [List.mem_range'_1]
    omega

theorem markRivals_eq_foldl (versions : List (ConflictVersion F)) :
    markRivals versions = (placePairs versions.length).foldl (markPair versions)
      (List.replicate versions.length false) := by
  unfold markRivals placePairs
  rw [List.foldl_flatMap]
  simp only [List.foldl_map]

theorem exists_marks_iff {versions : List (ConflictVersion F)} {k : Nat}
    {v : ConflictVersion F} (hv : versions[k]? = some v) :
    (exists pair, pair ∈ placePairs versions.length ∧ Marks versions pair k) <->
      contested versions v = true := by
  unfold contested
  rw [List.any_eq_true]
  constructor
  · rintro ⟨pair, _, a, b, ha, hb, hrivals, hk | hk⟩
    · rw [hk, ha] at hv
      cases hv
      exact ⟨b, List.mem_of_getElem? hb, hrivals⟩
    · rw [hk, hb] at hv
      cases hv
      exact ⟨a, List.mem_of_getElem? ha, by rw [rivals_comm]; exact hrivals⟩
  · rintro ⟨w, hw, hrivals⟩
    rcases List.getElem?_of_mem hw with ⟨m, hm⟩
    have hlow : k < versions.length := (List.getElem?_eq_some_iff.mp hv).1
    have hhigh : m < versions.length := (List.getElem?_eq_some_iff.mp hm).1
    rcases Nat.lt_trichotomy k m with hlt | heq | hgt
    · exact ⟨(k, m), mem_placePairs.mpr ⟨hlt, hhigh⟩, v, w, hv, hm, hrivals, Or.inl rfl⟩
    · rw [heq, hm] at hv
      cases hv
      rw [rivals_self] at hrivals
      cases hrivals
    · exact ⟨(m, k), mem_placePairs.mpr ⟨hgt, hlow⟩, w, v, hm, hv,
        by rw [rivals_comm]; exact hrivals, Or.inr rfl⟩

/-- The loops mark the versions that have a rival. -/
theorem markRivals_eq (versions : List (ConflictVersion F)) :
    markRivals versions = versions.map (contested versions) := by
  have hfold := foldl_markPair (placePairs versions.length)
    (List.length_replicate : (List.replicate versions.length false).length = versions.length)
  rw [← markRivals_eq_foldl] at hfold
  apply List.ext_getElem?
  intro k
  rw [List.getElem?_map]
  cases hv : versions[k]? with
  | none =>
      rw [List.getElem?_eq_none_iff] at hv
      rw [Option.map_none, List.getElem?_eq_none_iff, hfold.1]
      exact hv
  | some v =>
      have hk : k < (markRivals versions).length := by
        rw [hfold.1]
        exact (List.getElem?_eq_some_iff.mp hv).1
      have hmark := hfold.2 k
      have hfresh : marked (List.replicate versions.length false) k = false := by
        unfold marked
        rw [List.getElem?_replicate]
        split <;> rfl
      rw [hfresh, exists_marks_iff hv] at hmark
      unfold marked at hmark
      rw [List.getElem?_eq_getElem hk] at hmark ⊢
      rw [Option.map_some]
      congr 1
      rw [Bool.eq_iff_iff]
      simpa using hmark

theorem filter_zip_map {α : Type} (f : α -> Bool) (xs : List α) :
    ((xs.zip (xs.map f)).filter Prod.snd).map Prod.fst = xs.filter f := by
  induction xs with
  | nil => rfl
  | cons x rest ih =>
      rw [List.map_cons, List.zip_cons_cons, List.filter_cons, List.filter_cons]
      show List.map Prod.fst (if f x = true then _ else _) = _
      by_cases h : f x = true
      · rw [if_pos h, if_pos h, List.map_cons, ih]
      · rw [if_neg h, if_neg h, ih]

/-- One contested version is not alone. -/
theorem two_le_length_contested {versions : List (ConflictVersion F)}
    (h : versions.filter (contested versions) ≠ []) :
    2 <= (versions.filter (contested versions)).length := by
  rcases List.exists_mem_of_ne_nil _ h with ⟨v, hv⟩
  rcases List.mem_filter.mp hv with ⟨hmem, hcontested⟩
  rcases List.any_eq_true.mp hcontested with ⟨w, hw, hrivals⟩
  have hother : w ∈ versions.filter (contested versions) := by
    refine List.mem_filter.mpr ⟨hw, List.any_eq_true.mpr ⟨v, hmem, ?_⟩⟩
    rw [rivals_comm]
    exact hrivals
  by_contra hshort
  have hone : (versions.filter (contested versions)).length = 1 := by
    have hpos := List.length_pos_of_mem hv
    omega
  rcases List.length_eq_one_iff.mp hone with ⟨x, hx⟩
  rw [hx, List.mem_singleton] at hv hother
  rw [hv, hother, rivals_self] at hrivals
  cases hrivals

theorem detectConflict_eq (memoryId : MemoryId) (versions : List (ConflictVersion F)) :
    detectConflict memoryId versions =
      if versions.filter (contested versions) = [] then none
      else
        some
          { memoryId := memoryId
            versions := versions.filter (contested versions)
            resolution := none } := by
  unfold detectConflict
  rw [markRivals_eq, filter_zip_map]
  by_cases hnone : versions.filter (contested versions) = []
  · rw [if_pos hnone, hnone]
    split <;> rfl
  · have htwo := two_le_length_contested hnone
    have hlong := List.length_filter_le (contested versions) versions
    rw [if_neg hnone, if_neg (by omega)]
    exact if_pos htwo

/-!
### Resolutions
-/

theorem maxBy_append_singleton {α : Type} (le : α -> α -> Bool) (xs : List α) (y : α) :
    maxBy le (xs ++ [y]) = some (match maxBy le xs with
      | none => y
      | some best => if le best y then y else best) := by
  cases xs with
  | nil => rfl
  | cons x rest =>
      show some ((rest ++ [y]).foldl _ x) = _
      rw [List.foldl_append]
      rfl

/-- The last of the greatest elements is there, when there is any. -/
theorem maxBy_spec {α κ : Type} [LinearOrder κ] {key : α -> κ} {le : α -> α -> Bool}
    (hle : forall a b, le a b = true <-> key a <= key b) {xs : List α} (hne : xs ≠ []) :
    exists best before after, maxBy le xs = some best ∧ xs = before ++ best :: after ∧
      (forall v, v ∈ before -> key v <= key best) ∧
      forall v, v ∈ after -> key v < key best := by
  induction xs using List.reverseRecOn with
  | nil => exact absurd rfl hne
  | append_singleton xs y ih =>
      rw [maxBy_append_singleton]
      by_cases hxs : xs = []
      · rw [hxs]
        exact ⟨y, [], [], rfl, rfl, (fun _ h => by cases h), fun _ h => by cases h⟩
      · rcases ih hxs with ⟨best, before, after, hbest, heq, hbefore, hafter⟩
        rw [hbest]
        dsimp only
        by_cases hy : le best y = true
        · rw [if_pos hy]
          refine ⟨y, xs, [], rfl, rfl, ?_, fun _ h => by cases h⟩
          have hkey := (hle best y).mp hy
          intro v hv
          rw [heq, List.mem_append, List.mem_cons] at hv
          rcases hv with hv | rfl | hv
          · exact (hbefore v hv).trans hkey
          · exact hkey
          · exact (le_of_lt (hafter v hv)).trans hkey
        · rw [if_neg hy]
          refine ⟨best, before, after ++ [y], rfl, ?_, hbefore, ?_⟩
          · rw [heq, List.append_assoc, List.cons_append]
          · intro v hv
            rcases List.mem_append.mp hv with hold | hnew
            · exact hafter v hold
            · rw [List.mem_singleton.mp hnew]
              exact not_le.mp (fun hkey => hy ((hle best y).mpr hkey))

theorem le_foldl_max [LinearOrder F] (xs : List F) (start : F) :
    start <= xs.foldl max start ∧ forall x, x ∈ xs -> x <= xs.foldl max start := by
  induction xs generalizing start with
  | nil => exact ⟨le_refl _, fun _ h => by cases h⟩
  | cons y rest ih =>
      rcases ih (max start y) with ⟨hstart, hrest⟩
      refine ⟨(le_max_left start y).trans hstart, ?_⟩
      intro x hx
      rcases List.mem_cons.mp hx with heq | hmem
      · rw [heq]
        exact (le_max_right start y).trans hstart
      · exact hrest x hmem

theorem latestTimestamp_spec {versions : List (ConflictVersion F)} (hne : versions ≠ []) :
    (exists v, v ∈ versions ∧ v.timestamp = latestTimestamp versions) ∧
      forall v, v ∈ versions -> v.timestamp <= latestTimestamp versions := by
  have hle : forall a b : Timestamp, decide (a <= b) = true <-> a.toNat <= b.toNat := by
    intro a b
    rw [decide_eq_true_eq, UInt64.le_iff_toNat_le]
  rcases maxBy_spec hle (List.map_eq_nil_iff.not.mpr hne :
      versions.map ConflictVersion.timestamp ≠ []) with
    ⟨best, before, after, hbest, heq, hbefore, hafter⟩
  have hlatest : latestTimestamp versions = best := by
    unfold latestTimestamp
    rw [hbest]
    rfl
  rw [hlatest]
  constructor
  · have hmem : best ∈ versions.map ConflictVersion.timestamp := by
      rw [heq]
      exact List.mem_append_right _ List.mem_cons_self
    exact List.mem_map.mp hmem
  · intro v hv
    have hmem := List.mem_map_of_mem (f := ConflictVersion.timestamp) hv
    rw [heq, List.mem_append, List.mem_cons] at hmem
    rw [UInt64.le_iff_toNat_le]
    rcases hmem with hmem | hsame | hmem
    · exact hbefore _ hmem
    · rw [hsame]
    · exact le_of_lt (hafter _ hmem)

section Resolved

variable [LinearOrder F] [Zero F] [One F]

/-- The last of the versions with the greatest key. -/
def LastGreatest {κ : Type} [LinearOrder κ] (key : ConflictVersion F -> κ)
    (versions : List (ConflictVersion F)) (w : ConflictVersion F) : Prop :=
  exists before after, versions = before ++ w :: after ∧
    (forall v, v ∈ before -> key v <= key w) ∧ forall v, v ∈ after -> key v < key w

/-- A text for all versions: it is as late as the latest of them. -/
def Replaces (versions : List (ConflictVersion F)) (text : String) (w : ConflictVersion F) :
    Prop :=
  w.content = text ∧ (exists v, v ∈ versions ∧ v.agentId = w.agentId) ∧
    (exists v, v ∈ versions ∧ v.timestamp = w.timestamp) ∧
    forall v, v ∈ versions -> v.timestamp <= w.timestamp

/-- What a resolution makes of a conflict. -/
def Resolves (versions : List (ConflictVersion F)) (w : ConflictVersion F) :
    Resolution -> Prop
  | Resolution.keepLatest => LastGreatest (fun v => v.timestamp.toNat) versions w
  | Resolution.keepHighestConfidence => LastGreatest ConflictVersion.confidence versions w
  | Resolution.merge merged => Replaces versions merged w ∧ 0 <= w.confidence ∧
      (forall v, v ∈ versions -> v.confidence <= w.confidence)
  | Resolution.manual text => Replaces versions text w ∧ w.confidence = 1

theorem autoResolve_spec {c : Conflict F} (hne : c.versions ≠ []) (resolution : Resolution) :
    exists w, autoResolve c resolution = some w ∧ Resolves c.versions w resolution := by
  cases resolution with
  | keepLatest =>
      have hle : forall a b : ConflictVersion F, decide (a.timestamp <= b.timestamp) = true <->
          a.timestamp.toNat <= b.timestamp.toNat := by
        intro a b
        rw [decide_eq_true_eq, UInt64.le_iff_toNat_le]
      rcases maxBy_spec hle hne with ⟨w, before, after, hw, hparts⟩
      exact ⟨w, hw, before, after, hparts⟩
  | keepHighestConfidence =>
      have hle : forall a b : ConflictVersion F,
          decide (a.confidence <= b.confidence) = true <-> a.confidence <= b.confidence :=
        fun a b => decide_eq_true_iff
      rcases maxBy_spec hle hne with ⟨w, before, after, hw, hparts⟩
      exact ⟨w, hw, before, after, hparts⟩
  | merge merged =>
      rcases List.exists_cons_of_ne_nil hne with ⟨first, rest, hversions⟩
      have hfirst : c.versions.head? = some first := by rw [hversions]; rfl
      have hmem : first ∈ c.versions := hversions ▸ List.mem_cons_self
      rcases latestTimestamp_spec hne with ⟨hsome, hall⟩
      rcases le_foldl_max (c.versions.map ConflictVersion.confidence) 0 with ⟨hzero, hconf⟩
      unfold autoResolve
      rw [hfirst]
      exact ⟨_, rfl, ⟨rfl, ⟨first, hmem, rfl⟩, hsome, hall⟩, hzero,
        fun v hv => hconf _ (List.mem_map_of_mem hv)⟩
  | manual text =>
      rcases List.exists_cons_of_ne_nil hne with ⟨first, rest, hversions⟩
      have hfirst : c.versions.head? = some first := by rw [hversions]; rfl
      have hmem : first ∈ c.versions := hversions ▸ List.mem_cons_self
      rcases latestTimestamp_spec hne with ⟨hsome, hall⟩
      unfold autoResolve
      rw [hfirst]
      exact ⟨_, rfl, ⟨rfl, ⟨first, hmem, rfl⟩, hsome, hall⟩, rfl⟩

/-- A conflict is found when a version has a rival, and consists of the versions that have one,
in their order; another order of the versions only changes the order in the conflict.  Versions
of at least two agents are in conflict, and every way of resolving the conflict has a result. -/
theorem conflicts_are_rivals (memoryId : MemoryId) (versions : List (ConflictVersion F)) :
    (detectConflict memoryId versions = none <->
      forall v w, v ∈ versions -> w ∈ versions -> rivals v w = false) ∧
    forall c, detectConflict memoryId versions = some c ->
      c.versions = versions.filter (contested versions) ∧
        (exists v w, v ∈ c.versions ∧ w ∈ c.versions ∧ v.agentId ≠ w.agentId) ∧
        (forall versions', versions'.Perm versions ->
          exists c', detectConflict memoryId versions' = some c' ∧
            c'.versions.Perm c.versions) ∧
        forall resolution, exists w, autoResolve c resolution = some w ∧
          Resolves c.versions w resolution := by
  constructor
  · rw [detectConflict_eq]
    constructor
    · intro h v w hv hw
      split at h
      · rename_i hnone
        have hcalm := List.filter_eq_nil_iff.mp hnone v hv
        by_contra hrivals
        exact hcalm (List.any_eq_true.mpr ⟨w, hw, by simpa using hrivals⟩)
      · cases h
    · intro h
      rw [if_pos]
      rw [List.filter_eq_nil_iff]
      intro v hv hcontested
      rcases List.any_eq_true.mp hcontested with ⟨w, hw, hrivals⟩
      rw [h v w hv hw] at hrivals
      cases hrivals
  · intro c hc
    rw [detectConflict_eq] at hc
    split at hc
    · cases hc
    · rename_i hsome
      cases hc
      refine ⟨rfl, ?_, ?_, fun resolution => autoResolve_spec hsome resolution⟩
      · rcases List.exists_mem_of_ne_nil _ hsome with ⟨v, hv⟩
        rcases List.mem_filter.mp hv with ⟨hmem, hcontested⟩
        rcases List.any_eq_true.mp hcontested with ⟨w, hw, hrivals⟩
        refine ⟨v, w, hv, List.mem_filter.mpr ⟨hw, List.any_eq_true.mpr ⟨v, hmem, ?_⟩⟩, ?_⟩
        · rw [rivals_comm]
          exact hrivals
        · unfold rivals at hrivals
          rw [Bool.and_eq_true] at hrivals
          exact of_decide_eq_true hrivals.2
      · intro versions' hperm
        have hcontested : contested versions' = contested versions := by
          funext v
          exact hperm.any_eq
        have hfilter := hperm.filter (contested versions)
        rw [detectConflict_eq, hcontested, if_neg]
        · exact ⟨_, rfl, hfilter⟩
        · intro hnil
          rw [hnil] at hfilter
          exact hsome hfilter.nil_eq.symm

end Resolved

/-- Two agents half a second apart, and the first of them again much later. -/
def rivalNotes : List (ConflictVersion Nat) :=
  [{ agentId := ⟨1⟩, content := "tea", confidence := 8, timestamp := 1000000 },
    { agentId := ⟨2⟩, content := "coffee", confidence := 9, timestamp := 1500000 },
    { agentId := ⟨1⟩, content := "water", confidence := 1, timestamp := 9000000 }]

theorem conflicts_are_rivals_notes :
    exists c, detectConflict MemoryId.nil rivalNotes = some c ∧
      c.versions = rivalNotes.take 2 ∧
      exists w, autoResolve c Resolution.keepLatest = some w ∧
        LastGreatest (fun v => v.timestamp.toNat) c.versions w := by
  have hfound : (detectConflict MemoryId.nil rivalNotes).isSome = true := by decide
  rcases Option.isSome_iff_exists.mp hfound with ⟨c, hc⟩
  rcases (conflicts_are_rivals MemoryId.nil rivalNotes).2 c hc with ⟨hversions, _, _, hresolve⟩
  exact ⟨c, hc, hversions, hresolve Resolution.keepLatest⟩

end Core
end MenteDb
