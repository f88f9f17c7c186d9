import Mathlib.Data.String.Basic
import MenteDb.Facade.MergeGroups
import MenteDb.Sqlite.Queries

/-!
# The entity resolver

A table takes normalized names to canonical names.  A name that is not in the table is compared,
word by word, with the canonical names that are; a name that matches none stands for itself.  The
table is a map of one step: what a name was given last is what it resolves to, and names that
were confirmed to be different are recorded beside it.
-/

namespace MenteDb
namespace Facade

open Foundation
open Cognitive
open Sqlite

variable {F : Type}

/-!
## The resolver
-/

inductive ResolutionSource where
  | cache
  | ruleBased
  | llm
  /-- No resolution found. -/
  | identity
deriving DecidableEq, Repr

structure ResolvedEntity (F : Type) where
  canonical : String
  confidence : F
  source : ResolutionSource
deriving DecidableEq

structure EntityResolver (F : Type) where
  aliases : Assoc String String
  confidence : Assoc String F
  negativePairs : Assoc (String × String) Unit

/-- What {lit}`save` writes and {lit}`load` reads. -/
structure Snapshot (F : Type) where
  version : Nat
  aliases : Assoc String String
  confidence : Assoc String F
  negativePairs : List (String × String)

def snapshotVersion : Nat := 2

/-- Lower case words with one space between them. -/
def normalizeEntity (text : TextOps F) (raw : String) : String :=
  " ".intercalate ((text.splitWhitespace raw).map text.toLowercase)

def isNameSeparator (c : Char) : Bool := isWhitespace c || c == '-' || c == '_'

/-- The words of a name, for the comparison with other names. -/
def nameWords (name : String) : List (List Char) := Strings.words isNameSeparator name.toList

/-- The words of one name are among those of the other. -/
def comparable (a b : String) : Bool :=
  (nameWords a).all (fun w => decide (w ∈ nameWords b)) ||
    (nameWords b).all (fun w => decide (w ∈ nameWords a))

namespace EntityResolver

def new : EntityResolver F where
  aliases := Assoc.empty
  confidence := Assoc.empty
  negativePairs := Assoc.empty

def knownEntities (r : EntityResolver F) : List String :=
  orderBy (fun a b => decide (a <= b)) (r.aliases.entries.map Prod.snd).dedup

def ruleBasedMatch [Scalar F] (r : EntityResolver F) (normalized : String) :
    Option (String × F) :=
  if nameWords normalized = [] then none
  else
    (r.knownEntities.find? (fun canonical =>
      decide (canonical ≠ normalized) && comparable normalized canonical)).map
      (fun canonical => (canonical, ratio 7 10))

def resolve [Scalar F] (text : TextOps F) (r : EntityResolver F) (name : String) :
    ResolvedEntity F :=
  let normalized := normalizeEntity text name
  match r.aliases.find? normalized with
  | some canonical =>
      { canonical := canonical
        confidence := (r.confidence.find? normalized).getD 1
        source := ResolutionSource.cache }
  | none =>
      match r.ruleBasedMatch normalized with
      | some (canonical, confidence) =>
          { canonical := canonical
            confidence := confidence
            source := ResolutionSource.ruleBased }
      | none =>
          { canonical := normalized
            confidence := 1
            source := ResolutionSource.identity }

/-- A name is given a canonical name, both of them normalized. -/
def learn (r : EntityResolver F) (confidence : F) (pair : String × String) : EntityResolver F :=
  { r with
    aliases := r.aliases.insert pair.1 pair.2
    confidence := r.confidence.insert pair.1 confidence }

def learnGroup (text : TextOps F) (r : EntityResolver F) (group : EntityMergeGroup F) :
    EntityResolver F :=
  let canonical := normalizeEntity text group.canonical
  group.aliases.foldl (fun r aliasName =>
    let normalizedAlias := normalizeEntity text aliasName
    if normalizedAlias ≠ canonical then r.learn group.confidence (normalizedAlias, canonical)
    else r) (r.learn group.confidence (canonical, canonical))

def addAlias (text : TextOps F) (r : EntityResolver F) (aliasName canonical : String)
    (confidence : F) : EntityResolver F :=
  r.learn confidence (normalizeEntity text aliasName, normalizeEntity text canonical)

def negativeKey (text : TextOps F) (a b : String) : String × String :=
  let na := normalizeEntity text a
  let nb := normalizeEntity text b
  if na <= nb then (na, nb) else (nb, na)

def isKnownDifferent (text : TextOps F) (r : EntityResolver F) (a b : String) : Bool :=
  r.negativePairs.contains (negativeKey text a b)

def markDifferent (text : TextOps F) (r : EntityResolver F) (a b : String) : EntityResolver F :=
  { r with negativePairs := r.negativePairs.insert (negativeKey text a b) () }

/-- Entries of a snapshot are added where there is none. -/
def load (r : EntityResolver F) (read : Except String (Snapshot F)) :
    Except String (EntityResolver F) := do
  let snapshot ← read
  if snapshotVersion < snapshot.version then
    throw ("unsupported entity snapshot version: " ++ toString snapshot.version ++
      " (expected <= " ++ toString snapshotVersion ++ ")")
  else
    pure
      { aliases := snapshot.aliases.entries.foldl
          (fun t e => t.upsert e.1 (fun old => old.getD e.2)) r.aliases
        confidence := snapshot.confidence.entries.foldl
          (fun t e => t.upsert e.1 (fun old => old.getD e.2)) r.confidence
        negativePairs := snapshot.negativePairs.foldl (fun t p => t.insert p ()) r.negativePairs }

end EntityResolver

/-!
## Calls
-/

inductive LearnCall (F : Type) where
  | learnGroup (group : EntityMergeGroup F)
  | addAlias (aliasName canonical : String) (confidence : F)

inductive ResolverCall (F : Type) where
  | learn (call : LearnCall F)
  | markDifferent (a b : String)
  | load (read : Except String (Snapshot F))

namespace EntityResolver

def afterLearn (text : TextOps F) (r : EntityResolver F) : LearnCall F -> EntityResolver F
  | LearnCall.learnGroup group => r.learnGroup text group
  | LearnCall.addAlias aliasName canonical confidence =>
    r.addAlias text aliasName canonical confidence

/-- A snapshot that cannot be loaded changes nothing. -/
def after (text : TextOps F) (r : EntityResolver F) : ResolverCall F -> EntityResolver F
  | ResolverCall.learn call => r.afterLearn text call
  | ResolverCall.markDifferent a b => r.markDifferent text a b
  | ResolverCall.load read =>
      match r.load read with
      | Except.ok loaded => loaded
      | Except.error _ => r

/-- The resolver after some calls that teach it names. -/
def learned (text : TextOps F) (calls : List (LearnCall F)) : EntityResolver F :=
  calls.foldl (EntityResolver.afterLearn text) EntityResolver.new

def afterAll (text : TextOps F) (calls : List (ResolverCall F)) : EntityResolver F :=
  calls.foldl (EntityResolver.after text) EntityResolver.new

end EntityResolver

/-!
## What a name resolves to
-/

namespace EntityResolver

/-- A canonical name that some name was given. -/
def InUse (r : EntityResolver F) (c : String) : Prop := exists x, r.aliases.find? x = some c

/-- The alphabetically first canonical name that the rules match with a name. -/
structure FirstMatch (r : EntityResolver F) (x c : String) : Prop where
  words : nameWords x ≠ []
  inUse : r.InUse c
  other : c ≠ x
  comparable : comparable x c = true
  first : forall d, r.InUse d -> d ≠ x -> Facade.comparable x d = true -> c <= d

/-- The rules match a name with no canonical name. -/
def Unmatched (r : EntityResolver F) (x : String) : Prop :=
  nameWords x = [] ∨ forall d, r.InUse d -> d ≠ x -> comparable x d = false

variable {r : EntityResolver F}

theorem mem_knownEntities {c : String} : c ∈ r.knownEntities <-> r.InUse c := by
  unfold knownEntities InUse
  rw [mem_orderBy, List.mem_dedup]
  constructor
  · intro h
    rcases List.mem_map.mp h with ⟨⟨x, c'⟩, hentry, heq⟩
    exact ⟨x, by rw [← heq]; exact Assoc.find?_eq_some_iff.mpr hentry⟩
  · intro h
    rcases h with ⟨x, hx⟩
    exact List.mem_map.mpr ⟨(x, c), Assoc.find?_eq_some_iff.mp hx, rfl⟩

theorem pairwise_knownEntities (r : EntityResolver F) :
    r.knownEntities.Pairwise (fun a b => a <= b) := by
  have horders : OrdersBy (fun x : String => x) (fun a b => decide (a <= b)) :=
    fun a b => decide_eq_true_iff
  exact horders.pairwise _

variable [Scalar F]

theorem ruleBasedMatch_eq_some_iff {x c : String} {confidence : F} :
    r.ruleBasedMatch x = some (c, confidence) <->
      r.FirstMatch x c ∧ confidence = ratio 7 10 := by
  unfold ruleBasedMatch
  by_cases hwords : nameWords x = []
  · rw [if_pos hwords]
    constructor
    · intro h
      cases h
    · intro h
      exact absurd hwords h.1.words
  · rw [if_neg hwords, Option.map_eq_some_iff]
    simp only [find?_of_pairwise_le r.pairwise_knownEntities, mem_knownEntities,
      Bool.and_eq_true, decide_eq_true_eq, Prod.mk.injEq]
    constructor
    · intro h
      rcases h with ⟨c', ⟨hknown, ⟨hne, hcomparable⟩, hfirst⟩, hc, hconfidence⟩
      rw [hc] at hknown hne hcomparable hfirst
      exact ⟨⟨hwords, hknown, hne, hcomparable, fun d hd hdx hcmp => hfirst d hd ⟨hdx, hcmp⟩⟩,
        hconfidence.symm⟩
    · intro h
      rcases h with ⟨hmatch, hconfidence⟩
      exact ⟨c, ⟨hmatch.inUse, ⟨hmatch.other, hmatch.comparable⟩,
        fun d hd hboth => hmatch.first d hd hboth.1 hboth.2⟩, rfl, hconfidence.symm⟩

theorem ruleBasedMatch_eq_none_iff {x : String} :
    r.ruleBasedMatch x = none <-> r.Unmatched x := by
  unfold ruleBasedMatch Unmatched
  by_cases hwords : nameWords x = []
  · simp [hwords]
  · rw [if_neg hwords, Option.map_eq_none_iff, List.find?_eq_none]
    simp only [mem_knownEntities, Bool.and_eq_true, decide_eq_true_eq, not_and, Bool.not_eq_true]
    constructor
    · exact Or.inr
    · intro h
      rcases h with h | h
      · exact absurd h hwords
      · exact h

omit [Scalar F] in
theorem FirstMatch.unique {x c c' : String} (h : r.FirstMatch x c) (h' : r.FirstMatch x c') :
    c = c' :=
  le_antisymm (h.first c' h'.inUse h'.other h'.comparable)
    (h'.first c h.inUse h.other h.comparable)

theorem not_firstMatch_of_none {x : String} (hrule : r.ruleBasedMatch x = none) (c : String) :
    ¬ r.FirstMatch x c := by
  intro h
  have hsome := ruleBasedMatch_eq_some_iff.mpr ⟨h, rfl⟩
  rw [hrule] at hsome
  cases hsome

/-- The three tiers: a name in the table has its canonical name, another one its first match,
and a name without one stands for itself. -/
theorem canonical_resolve_iff (text : TextOps F) {name c : String} :
    (r.resolve text name).canonical = c <->
      r.aliases.find? (normalizeEntity text name) = some c ∨
        (r.aliases.find? (normalizeEntity text name) = none ∧
          (r.FirstMatch (normalizeEntity text name) c ∨
            (r.Unmatched (normalizeEntity text name) ∧ normalizeEntity text name = c))) := by
  unfold resolve
  generalize normalizeEntity text name = x
  dsimp only
  cases htable : r.aliases.find? x with
  | some c' => simp
  | none =>
      cases hrule : r.ruleBasedMatch x with
      | some found =>
          rcases found with ⟨c', confidence⟩
          have hmatch := (ruleBasedMatch_eq_some_iff.mp hrule).1
          have hnot : ¬ r.Unmatched x := by
            rw [← ruleBasedMatch_eq_none_iff, hrule]
            exact Option.some_ne_none _
          constructor
          · intro h
            rw [← h]
            exact Or.inr ⟨rfl, Or.inl hmatch⟩
          · intro h
            rcases h with h | ⟨_, h | h⟩
            · cases h
            · exact hmatch.unique h
            · exact absurd h.1 hnot
      | none =>
          have hunmatched := ruleBasedMatch_eq_none_iff.mp hrule
          constructor
          · intro h
            exact Or.inr ⟨rfl, Or.inr ⟨hunmatched, h⟩⟩
          · intro h
            rcases h with h | ⟨_, h | h⟩
            · cases h
            · exact absurd h (not_firstMatch_of_none hrule c)
            · exact h.2

/-- The rule tier answered. -/
theorem source_resolve_ruleBased_iff (text : TextOps F) {name c : String} :
    ((r.resolve text name).source = ResolutionSource.ruleBased ∧
        (r.resolve text name).canonical = c) <->
      r.aliases.find? (normalizeEntity text name) = none ∧
        r.FirstMatch (normalizeEntity text name) c := by
  unfold resolve
  generalize normalizeEntity text name = x
  dsimp only
  cases htable : r.aliases.find? x with
  | some c' => simp
  | none =>
      cases hrule : r.ruleBasedMatch x with
      | some found =>
          rcases found with ⟨c', confidence⟩
          have hmatch := (ruleBasedMatch_eq_some_iff.mp hrule).1
          constructor
          · intro h
            rw [← h.2]
            exact ⟨rfl, hmatch⟩
          · intro h
            exact ⟨rfl, hmatch.unique h.2⟩
      | none =>
          constructor
          · intro h
            cases h.1
          · intro h
            exact absurd h.2 (not_firstMatch_of_none hrule c)

end EntityResolver

/-!
## What the rules match
-/

section Rules

/-- An answer of the rule tier has a word in common with the name. -/
def RulesShareWord [Scalar F] (text : TextOps F) (r : EntityResolver F) : Prop :=
  forall name c, (r.resolve text name).source = ResolutionSource.ruleBased ->
    (r.resolve text name).canonical = c ->
    exists w, w ∈ nameWords (normalizeEntity text name) ∧ w ∈ nameWords c

/-- No canonical name in the table is made of separators only. -/
def CanonicalsWorded (r : EntityResolver F) : Prop :=
  forall c, c ∈ r.knownEntities -> nameWords c ≠ []

/-- A call gives canonical names that have words. -/
def ResolverCall.Worded (text : TextOps F) : ResolverCall F -> Prop
  | ResolverCall.learn (LearnCall.learnGroup group) =>
      nameWords (normalizeEntity text group.canonical) ≠ []
  | ResolverCall.learn (LearnCall.addAlias _ canonical _) =>
      nameWords (normalizeEntity text canonical) ≠ []
  | ResolverCall.markDifferent _ _ => True
  | ResolverCall.load read =>
      forall snapshot, read = Except.ok snapshot ->
        forall e, e ∈ snapshot.aliases.entries -> nameWords e.2 ≠ []

theorem comparable_iff {a b : String} :
    comparable a b = true <->
      (forall w, w ∈ nameWords a -> w ∈ nameWords b) ∨
        (forall w, w ∈ nameWords b -> w ∈ nameWords a) := by
  unfold comparable
  rw [Bool.or_eq_true, List.all_eq_true, List.all_eq_true]
  simp only [decide_eq_true_eq]

/-- Two names with words that match have a word in common. -/
theorem shared_word {a b : String} (ha : nameWords a ≠ []) (hb : nameWords b ≠ [])
    (h : comparable a b = true) : exists w, w ∈ nameWords a ∧ w ∈ nameWords b := by
  rcases comparable_iff.mp h with hsub | hsub
  · rcases List.exists_mem_of_ne_nil _ ha with ⟨w, hw⟩
    exact ⟨w, hw, hsub w hw⟩
  · rcases List.exists_mem_of_ne_nil _ hb with ⟨w, hw⟩
    exact ⟨w, hsub w hw, hw⟩

/-- A word of one letter repeated that is not among the given ones. -/
theorem exists_fresh_word (avoid : List (List Char)) :
    exists n, List.replicate (n + 1) 'a' ∉ avoid := by
  have hinjective : Function.Injective (fun n => List.replicate (n + 1) 'a') := by
    intro m n h
    have hlength := congrArg List.length h
    simpa using hlength
  rcases (Set.infinite_range_of_injective hinjective).exists_notMem_finset avoid.toFinset with
    ⟨w, ⟨n, hn⟩, hw⟩
  rw [List.mem_toFinset, ← hn] at hw
  exact ⟨n, hw⟩

theorem isWord_replicate {p : Char -> Bool} {c : Char} (hc : p c = false) (n : Nat) :
    Strings.IsWord p (List.replicate (n + 1) c) := by
  constructor
  · exact List.cons_ne_nil _ _
  · intro d hd
    rw [List.eq_of_mem_replicate hd]
    exact hc

theorem normalizeEntity_word {text : TextOps F} {w : List Char}
    (hw : Strings.IsWord isWhitespace w)
    (hlower : text.toLowercase (String.ofList w) = String.ofList w) :
    normalizeEntity text.atWhitespace (String.ofList w) = String.ofList w := by
  unfold normalizeEntity TextOps.atWhitespace
  simp only [String.toList_ofList, hw.words, List.map_cons, List.map_nil, hlower]
  rw [String.intercalate_singleton]

theorem nameWords_replicate (n : Nat) :
    nameWords (String.ofList (List.replicate (n + 1) 'a')) = [List.replicate (n + 1) 'a'] := by
  unfold nameWords
  rw [String.toList_ofList]
  exact (isWord_replicate (by decide) n).words

theorem exists_firstMatch {r : EntityResolver F} {x c : String} (hwords : nameWords x ≠ [])
    (hc : r.InUse c) (hne : c ≠ x) (hcomparable : comparable x c = true) :
    exists d, r.FirstMatch x d := by
  have hsome :
      (r.knownEntities.find? (fun d => decide (d ≠ x) && comparable x d)).isSome = true := by
    rw [List.find?_isSome]
    exact ⟨c, EntityResolver.mem_knownEntities.mpr hc, by simp [hne, hcomparable]⟩
  rcases Option.isSome_iff_exists.mp hsome with ⟨d, hd⟩
  rcases (find?_of_pairwise_le r.pairwise_knownEntities).mp hd with ⟨hknown, hboth, hfirst⟩
  rw [Bool.and_eq_true, decide_eq_true_eq] at hboth
  refine ⟨d, hwords, EntityResolver.mem_knownEntities.mp hknown, hboth.1, hboth.2, ?_⟩
  intro e he hex hcmp
  exact hfirst e (EntityResolver.mem_knownEntities.mpr he) (by simp [hex, hcmp])

section State

variable [Scalar F] {text : TextOps F} {r : EntityResolver F}

theorem CanonicalsWorded.rulesShareWord (h : CanonicalsWorded r) : RulesShareWord text r := by
  intro name c hsource hcanonical
  rcases (EntityResolver.source_resolve_ruleBased_iff text).mp ⟨hsource, hcanonical⟩ with
    ⟨_, hmatch⟩
  exact shared_word hmatch.words (h c (EntityResolver.mem_knownEntities.mpr hmatch.inUse))
    hmatch.comparable

/-- A canonical name without words matches every name: also one that has nothing in common with
any canonical name. -/
theorem RulesShareWord.canonicalsWorded
    (hlower : forall n, text.toLowercase (String.ofList (List.replicate n 'a')) =
      String.ofList (List.replicate n 'a'))
    (h : RulesShareWord text.atWhitespace r) : CanonicalsWorded r := by
  intro c hc hempty
  rcases exists_fresh_word (r.aliases.keys.map String.toList ++ r.knownEntities.flatMap nameWords)
    with ⟨n, hfresh⟩
  rw [List.mem_append, not_or] at hfresh
  have hname : normalizeEntity text.atWhitespace (String.ofList (List.replicate (n + 1) 'a')) =
      String.ofList (List.replicate (n + 1) 'a') :=
    normalizeEntity_word (isWord_replicate (by decide) n) (hlower (n + 1))
  have hwords := nameWords_replicate n
  have hnone : r.aliases.find? (String.ofList (List.replicate (n + 1) 'a')) = none := by
    rw [Assoc.find?_eq_none_iff]
    intro hkey
    apply hfresh.1
    rw [← String.toList_ofList (l := List.replicate (n + 1) 'a')]
    exact List.mem_map_of_mem hkey
  have hne : c ≠ String.ofList (List.replicate (n + 1) 'a') := by
    intro heq
    rw [heq, hwords] at hempty
    cases hempty
  have hcomparable : comparable (String.ofList (List.replicate (n + 1) 'a')) c = true := by
    rw [comparable_iff, hempty]
    exact Or.inr (fun w hw => absurd hw List.not_mem_nil)
  have hnamed : nameWords (String.ofList (List.replicate (n + 1) 'a')) ≠ [] := by
    rw [hwords]
    exact List.cons_ne_nil _ _
  rcases exists_firstMatch hnamed (EntityResolver.mem_knownEntities.mp hc) hne hcomparable with
    ⟨d, hmatch⟩
  rw [← hname] at hnone hmatch
  rcases (EntityResolver.source_resolve_ruleBased_iff text.atWhitespace).mpr ⟨hnone, hmatch⟩ with
    ⟨hsource, hcanonical⟩
  rcases h _ d hsource hcanonical with ⟨w, hw, hwd⟩
  rw [hname, hwords, List.mem_singleton] at hw
  apply hfresh.2
  rw [← hw]
  exact List.mem_flatMap.mpr ⟨d, EntityResolver.mem_knownEntities.mpr hmatch.inUse, hwd⟩

end State

/-!
## Runs that keep the canonical names worded
-/

theorem inUse_learn {r : EntityResolver F} {confidence : F} {pair : String × String} {d : String}
    (h : (r.learn confidence pair).InUse d) : d = pair.2 ∨ r.InUse d := by
  rcases h with ⟨x, hx⟩
  unfold EntityResolver.learn at hx
  rw [Assoc.find?_insert] at hx
  by_cases hkey : x = pair.1
  · rw [if_pos hkey] at hx
    exact Or.inl (Option.some.inj hx).symm
  · rw [if_neg hkey] at hx
    exact Or.inr ⟨x, hx⟩

theorem inUse_learnGroup {text : TextOps F} {r : EntityResolver F} {group : EntityMergeGroup F}
    {d : String} (h : (r.learnGroup text group).InUse d) :
    d = normalizeEntity text group.canonical ∨ r.InUse d := by
  unfold EntityResolver.learnGroup at h
  dsimp only at h
  revert h
  refine List.foldlRecOn
    (motive := fun r' : EntityResolver F => r'.InUse d ->
      d = normalizeEntity text group.canonical ∨ r.InUse d)
    group.aliases _ ?_ ?_
  · exact inUse_learn
  · intro r' ih aliasName _ h
    split at h
    · rcases inUse_learn h with heq | hold
      · exact Or.inl heq
      · exact ih hold
    · exact ih h

theorem inUse_addMissing {entries : List (String × String)} {t : Assoc String String} {x d : String}
    (h : (entries.foldl (fun t e => t.upsert e.1 (fun old => old.getD e.2)) t).find? x = some d) :
    (exists e, e ∈ entries ∧ e.2 = d) ∨ t.find? x = some d := by
  induction entries generalizing t with
  | nil => exact Or.inr h
  | cons e rest ih =>
      rw [List.foldl_cons] at h
      rcases ih h with ⟨e', he', heq⟩ | hfind
      · exact Or.inl ⟨e', List.mem_cons_of_mem e he', heq⟩
      · rw [Assoc.find?_upsert] at hfind
        by_cases hkey : x = e.1
        · rw [if_pos hkey, Option.some_inj] at hfind
          cases hold : t.find? e.1 with
          | none =>
              rw [hold] at hfind
              exact Or.inl ⟨e, List.mem_cons_self, hfind⟩
          | some c =>
              rw [hold] at hfind
              rw [hkey, hold]
              exact Or.inr (congrArg some hfind)
        · rw [if_neg hkey] at hfind
          exact Or.inr hfind

/-- A worded call keeps the canonical names worded. -/
theorem CanonicalsWorded.after {text : TextOps F} {r : EntityResolver F} (h : CanonicalsWorded r)
    {call : ResolverCall F} (hcall : call.Worded text) : CanonicalsWorded (r.after text call) := by
  have hknown : forall d, r.InUse d -> nameWords d ≠ [] :=
    fun d hd => h d (EntityResolver.mem_knownEntities.mpr hd)
  intro d hd
  rw [EntityResolver.mem_knownEntities] at hd
  cases call with
  | learn call =>
      cases call with
      | learnGroup group =>
          rcases inUse_learnGroup hd with heq | hold
          · rw [heq]
            exact hcall
          · exact hknown d hold
      | addAlias aliasName canonical confidence =>
          rcases inUse_learn hd with heq | hold
          · rw [heq]
            exact hcall
          · exact hknown d hold
  | markDifferent a b => exact hknown d hd
  | load read =>
      unfold EntityResolver.after at hd
      cases read with
      | error e => exact hknown d hd
      | ok snapshot =>
          by_cases hversion : snapshotVersion < snapshot.version
          · have hload : exists e, r.load (Except.ok snapshot) = Except.error e := by
              unfold EntityResolver.load
              exact ⟨_, if_pos hversion⟩
            rcases hload with ⟨e, hload⟩
            simp only [hload] at hd
            exact hknown d hd
          · have hload : exists loaded, r.load (Except.ok snapshot) = Except.ok loaded ∧
                loaded.aliases = snapshot.aliases.entries.foldl
                  (fun t e => t.upsert e.1 (fun old => old.getD e.2)) r.aliases := by
              unfold EntityResolver.load
              exact ⟨_, if_neg hversion, rfl⟩
            rcases hload with ⟨loaded, hload, haliases⟩
            simp only [hload] at hd
            rcases hd with ⟨x, hx⟩
            rw [haliases] at hx
            rcases inUse_addMissing hx with ⟨e, he, heq⟩ | hold
            · rw [← heq]
              exact hcall snapshot rfl e he
            · exact hknown d ⟨x, hold⟩

theorem canonicalsWorded_afterAll {text : TextOps F} {calls : List (ResolverCall F)}
    (h : forall call, call ∈ calls -> call.Worded text) :
    CanonicalsWorded (EntityResolver.afterAll text calls) := by
  unfold EntityResolver.afterAll
  refine List.foldlRecOn calls _ ?_ ?_
  · intro c hc
    rcases EntityResolver.mem_knownEntities.mp hc with ⟨x, hx⟩
    cases hx
  · intro r hr call hcall
    exact hr.after (h call hcall)

/-- Answers of the rule tier share a word with the name exactly in the states in which no
canonical name is made of separators only, and so in every run whose calls give none. -/
theorem rules_share_word_iff [Scalar F] (text : TextOps F)
    (hlower : forall n, text.toLowercase (String.ofList (List.replicate n 'a')) =
      String.ofList (List.replicate n 'a')) :
    (forall r : EntityResolver F,
      RulesShareWord text.atWhitespace r <-> CanonicalsWorded r) ∧
      forall calls : List (ResolverCall F),
        (forall call, call ∈ calls -> call.Worded text.atWhitespace) ->
          RulesShareWord text.atWhitespace (EntityResolver.afterAll text.atWhitespace calls) := by
  constructor
  · intro r
    constructor
    · exact RulesShareWord.canonicalsWorded hlower
    · exact CanonicalsWorded.rulesShareWord
  · intro calls hcalls
    exact (canonicalsWorded_afterAll hcalls).rulesShareWord

theorem toLowercase_nameText (n : Nat) :
    nameText.toLowercase (String.ofList (List.replicate n 'a')) =
      String.ofList (List.replicate n 'a') := by
  apply String.toList_inj.mp
  show (String.toLower (String.ofList (List.replicate n 'a'))).toList = _
  unfold String.toLower
  rw [String.toList_map, String.toList_ofList, List.map_replicate]
  rfl

/-- A saved table that gives {lit}`bob` another name. -/
def savedNames : Snapshot Rat where
  version := 2
  aliases := Assoc.empty.insert "bob" "bob jones"
  confidence := Assoc.empty
  negativePairs := []

/-- One call of each kind, and a snapshot that cannot be read. -/
def wordedCalls : List (ResolverCall Rat) :=
  [ResolverCall.learn (LearnCall.learnGroup ⟨"Alice  Smith", ["Al", "alice smith"], 9 / 10⟩),
    ResolverCall.learn (LearnCall.addAlias "Acme" "acme-corp" 1),
    ResolverCall.markDifferent "alice" "acme",
    ResolverCall.load (Except.error "no such file"),
    ResolverCall.load (Except.ok savedNames)]

theorem worded_wordedCalls : forall call, call ∈ wordedCalls ->
    call.Worded nameText.atWhitespace := by
  intro call hcall
  simp only [wordedCalls, List.mem_cons, List.not_mem_nil, or_false] at hcall
  rcases hcall with h | h | h | h | h
  · rw [h]
    show nameWords _ ≠ []
    decide +kernel
  · rw [h]
    show nameWords _ ≠ []
    decide +kernel
  · rw [h]
    trivial
  · rw [h]
    intro snapshot hread
    cases hread
  · rw [h]
    intro snapshot hread e he
    cases hread
    rw [List.mem_singleton.mp (show e ∈ [("bob", "bob jones")] from he)]
    decide +kernel

/-- After these calls the rules answer for a single name, and both parts apply. -/
theorem rules_share_word_iff_taught :
    (EntityResolver.afterAll nameText.atWhitespace wordedCalls).resolve nameText.atWhitespace
        "Smith" = ⟨"alice smith", ratio 7 10, ResolutionSource.ruleBased⟩ ∧
      RulesShareWord nameText.atWhitespace
        (EntityResolver.afterAll nameText.atWhitespace wordedCalls) ∧
      CanonicalsWorded (EntityResolver.afterAll nameText.atWhitespace wordedCalls) := by
  have hboth := rules_share_word_iff (F := Rat) nameText toLowercase_nameText
  have hshare := hboth.2 wordedCalls worded_wordedCalls
  exact ⟨by decide +kernel, hshare, (hboth.1 _).mp hshare⟩

/-- A group whose canonical name is empty, as merged groups can be. -/
def unnamedGroup : EntityMergeGroup Rat := ⟨"", ["x"], 1⟩

/-- With an empty canonical name in the table every new name resolves to it. -/
theorem empty_canonical_matches_all :
    ¬ RulesShareWord nameText.atWhitespace (EntityResolver.afterAll nameText.atWhitespace
      [ResolverCall.learn (LearnCall.learnGroup unnamedGroup)]) := by
  intro h
  have hanswer : ((EntityResolver.afterAll nameText.atWhitespace
      [ResolverCall.learn (LearnCall.learnGroup unnamedGroup)]).resolve nameText.atWhitespace
        "bob") = ⟨"", ratio 7 10, ResolutionSource.ruleBased⟩ := by decide +kernel
  rcases h "bob" "" (by rw [hanswer]) (by rw [hanswer]) with ⟨w, _, hw⟩
  have hnone : nameWords "" = [] := by decide
  rw [hnone] at hw
  cases hw

end Rules

/-!
## Resolving twice
-/

section Projection

/-- The names a call gives as aliases, each with the canonical name. -/
def LearnCall.pairs (text : TextOps F) : LearnCall F -> List (String × String)
  | LearnCall.learnGroup group =>
      group.aliases.map (fun aliasName =>
        (normalizeEntity text aliasName, normalizeEntity text group.canonical))
  | LearnCall.addAlias aliasName canonical _ =>
      [(normalizeEntity text aliasName, normalizeEntity text canonical)]

/-- What lower case does to words. -/
structure LowercaseWords (text : TextOps F) : Prop where
  lower_lower : forall s, text.toLowercase (text.toLowercase s) = text.toLowercase s
  isWord_lower : forall s, Strings.IsWord isWhitespace s.toList ->
    Strings.IsWord isWhitespace (text.toLowercase s).toList

variable {text : TextOps F}

theorem normalizeEntity_normalizeEntity (hlaws : LowercaseWords text) (raw : String) :
    normalizeEntity text.atWhitespace (normalizeEntity text.atWhitespace raw) =
      normalizeEntity text.atWhitespace raw := by
  have hwords : forall w, w ∈ text.atWhitespace.splitWhitespace raw ->
      Strings.IsWord isWhitespace w.toList :=
    fun w hw => isWord_of_mem_splitWhitespace text hw
  have hlowered : forall w, w ∈ (text.atWhitespace.splitWhitespace raw).map text.toLowercase ->
      Strings.IsWord isWhitespace w.toList := by
    intro w hw
    rcases List.mem_map.mp hw with ⟨w', hw', heq⟩
    rw [← heq]
    exact hlaws.isWord_lower w' (hwords w' hw')
  have hsplit := splitWhitespace_join text hlowered
  have htwice : text.toLowercase ∘ text.toLowercase = text.toLowercase :=
    funext (fun w => hlaws.lower_lower w)
  show " ".intercalate ((text.atWhitespace.splitWhitespace (" ".intercalate
    ((text.atWhitespace.splitWhitespace raw).map text.toLowercase))).map text.toLowercase) =
      " ".intercalate ((text.atWhitespace.splitWhitespace raw).map text.toLowercase)
  rw [hsplit, List.map_map]
  exact congrArg (fun f => " ".intercalate ((text.atWhitespace.splitWhitespace raw).map f)) htwice

/-- Resolving twice is resolving once. -/
def IsProjection [Scalar F] (text : TextOps F) (r : EntityResolver F) : Prop :=
  forall name, (r.resolve text (r.resolve text name).canonical).canonical =
    (r.resolve text name).canonical

/-- An alias of an alias resolves as the name at the end of the chain. -/
def FollowsChains [Scalar F] (text : TextOps F) (pairs : List (String × String))
    (r : EntityResolver F) : Prop :=
  forall x y z, (x, y) ∈ pairs -> (y, z) ∈ pairs ->
    (r.resolve text x).canonical = (r.resolve text z).canonical

/-- What was given last: canonical names in use were given themselves, or nothing and match no
other one; and the ends of every chain of two aliases were given one canonical name, or the far
end was given nothing and is, or first matches, the canonical name of the near end. -/
structure AliasesSettled (pairs : List (String × String)) (r : EntityResolver F) : Prop where
  inUse : forall c, r.InUse c ->
    r.aliases.find? c = some c ∨ (r.aliases.find? c = none ∧ r.Unmatched c)
  chains : forall x y z c, (x, y) ∈ pairs -> (y, z) ∈ pairs -> r.aliases.find? x = some c ->
    r.aliases.find? z = some c ∨ (r.aliases.find? z = none ∧ (z = c ∨ r.FirstMatch z c))

/-- The table after some calls: what it holds is normalized, and it has every alias. -/
structure Tabled (text : TextOps F) (pairs : List (String × String)) (r : EntityResolver F) :
    Prop where
  normalized : forall x c, r.aliases.find? x = some c ->
    normalizeEntity text x = x ∧ normalizeEntity text c = c
  pairs_normalized : forall x y, (x, y) ∈ pairs ->
    normalizeEntity text x = x ∧ normalizeEntity text y = y
  known : forall x y, (x, y) ∈ pairs -> r.aliases.contains x = true

theorem Tabled.learn {pairs : List (String × String)} {r : EntityResolver F}
    (h : Tabled text pairs r) {a c : String} (ha : normalizeEntity text a = a)
    (hc : normalizeEntity text c = c) (confidence : F) :
    Tabled text pairs (r.learn confidence (a, c)) where
  normalized := by
    intro x c' hfind
    unfold EntityResolver.learn at hfind
    rw [Assoc.find?_insert] at hfind
    by_cases hkey : x = a
    · rw [if_pos hkey, Option.some_inj] at hfind
      rw [hkey, ← hfind]
      exact ⟨ha, hc⟩
    · rw [if_neg hkey] at hfind
      exact h.normalized x c' hfind
  pairs_normalized := h.pairs_normalized
  known := by
    intro x y hpair
    unfold EntityResolver.learn Assoc.insert
    rw [Assoc.contains_upsert, Bool.or_eq_true]
    exact Or.inr (h.known x y hpair)

theorem Tabled.add {pairs : List (String × String)} {r : EntityResolver F}
    (h : Tabled text pairs r) {x y : String} (hx : normalizeEntity text x = x)
    (hy : normalizeEntity text y = y) (hknown : r.aliases.contains x = true) :
    Tabled text (pairs ++ [(x, y)]) r where
  normalized := h.normalized
  pairs_normalized := by
    intro x' y' hpair
    rcases List.mem_append.mp hpair with hpair | hpair
    · exact h.pairs_normalized x' y' hpair
    · cases List.mem_singleton.mp hpair
      exact ⟨hx, hy⟩
  known := by
    intro x' y' hpair
    rcases List.mem_append.mp hpair with hpair | hpair
    · exact h.known x' y' hpair
    · cases List.mem_singleton.mp hpair
      exact hknown

theorem contains_learn_self (r : EntityResolver F) (confidence : F) (a c : String) :
    (r.learn confidence (a, c)).aliases.contains a = true := by
  unfold EntityResolver.learn Assoc.insert
  rw [Assoc.contains_upsert, Bool.or_eq_true]
  exact Or.inl (decide_eq_true rfl)

theorem contains_learn {r : EntityResolver F} (confidence : F) (a c : String) {x : String}
    (h : r.aliases.contains x = true) : (r.learn confidence (a, c)).aliases.contains x = true := by
  unfold EntityResolver.learn Assoc.insert
  rw [Assoc.contains_upsert, Bool.or_eq_true]
  exact Or.inr h

/-- A group tables its canonical name and one alias after the other. -/
theorem Tabled.learnAliases (hlaws : LowercaseWords text) {pairs : List (String × String)}
    {r : EntityResolver F} (h : Tabled text.atWhitespace pairs r) (confidence : F)
    (canonical : String) (aliasNames : List String) :
    Tabled text.atWhitespace
        (pairs ++ aliasNames.map (fun a => (normalizeEntity text.atWhitespace a,
          normalizeEntity text.atWhitespace canonical)))
        (r.learnGroup text.atWhitespace ⟨canonical, aliasNames, confidence⟩) ∧
      (r.learnGroup text.atWhitespace ⟨canonical, aliasNames, confidence⟩).aliases.contains
        (normalizeEntity text.atWhitespace canonical) = true := by
  have hcanonical := normalizeEntity_normalizeEntity hlaws canonical
  induction aliasNames using List.reverseRecOn with
  | nil =>
      rw [List.map_nil, List.append_nil]
      exact ⟨h.learn hcanonical hcanonical confidence, contains_learn_self r confidence _ _⟩
  | append_singleton past a ih =>
      rcases ih with ⟨htabled, hcontains⟩
      have halias := normalizeEntity_normalizeEntity hlaws a
      have hstep : r.learnGroup text.atWhitespace ⟨canonical, past ++ [a], confidence⟩ =
          if normalizeEntity text.atWhitespace a ≠ normalizeEntity text.atWhitespace canonical then
            (r.learnGroup text.atWhitespace ⟨canonical, past, confidence⟩).learn confidence
              (normalizeEntity text.atWhitespace a, normalizeEntity text.atWhitespace canonical)
          else r.learnGroup text.atWhitespace ⟨canonical, past, confidence⟩ := by
        unfold EntityResolver.learnGroup
        dsimp only
        rw [List.foldl_append]
        rfl
      rw [hstep, List.map_append, ← List.append_assoc]
      split
      · constructor
        · exact (htabled.learn halias hcanonical confidence).add halias hcanonical
            (contains_learn_self _ confidence _ _)
        · exact contains_learn confidence _ _ hcontains
      · rename_i heq
        constructor
        · refine htabled.add halias hcanonical ?_
          rw [not_not.mp heq]
          exact hcontains
        · exact hcontains

theorem Tabled.afterLearn (hlaws : LowercaseWords text) {pairs : List (String × String)}
    {r : EntityResolver F} (h : Tabled text.atWhitespace pairs r) (call : LearnCall F) :
    Tabled text.atWhitespace (pairs ++ call.pairs text.atWhitespace)
      (r.afterLearn text.atWhitespace call) := by
  cases call with
  | learnGroup group =>
    exact (h.learnAliases hlaws group.confidence group.canonical group.aliases).1
  | addAlias aliasName canonical confidence =>
      have halias := normalizeEntity_normalizeEntity hlaws aliasName
      have hcanonical := normalizeEntity_normalizeEntity hlaws canonical
      exact (h.learn halias hcanonical confidence).add halias hcanonical
        (contains_learn_self r confidence _ _)

theorem tabled_learned (hlaws : LowercaseWords text) (calls : List (LearnCall F)) :
    Tabled text.atWhitespace (calls.flatMap (LearnCall.pairs text.atWhitespace))
      (EntityResolver.learned text.atWhitespace calls) := by
  induction calls using List.reverseRecOn with
  | nil =>
      constructor
      · intro x c hfind
        cases hfind
      · intro x y hpair
        cases hpair
      · intro x y hpair
        cases hpair
  | append_singleton past call ih =>
      have hstep : EntityResolver.learned text.atWhitespace (past ++ [call]) =
          (EntityResolver.learned text.atWhitespace past).afterLearn text.atWhitespace call := by
        unfold EntityResolver.learned
        rw [List.foldl_append]
        rfl
      rw [hstep, List.flatMap_append, List.flatMap_singleton]
      exact ih.afterLearn hlaws call

section Answers

variable [Scalar F] {pairs : List (String × String)} {r : EntityResolver F}

/-- When a name resolves to itself. -/
theorem canonical_resolve_self {c : String} (hc : normalizeEntity text c = c) :
    (r.resolve text c).canonical = c <->
      r.aliases.find? c = some c ∨ (r.aliases.find? c = none ∧ r.Unmatched c) := by
  rw [EntityResolver.canonical_resolve_iff, hc]
  constructor
  · intro h
    rcases h with h | ⟨hnone, h | h⟩
    · exact Or.inl h
    · exact absurd rfl h.other
    · exact Or.inr ⟨hnone, h.1⟩
  · intro h
    rcases h with h | ⟨hnone, h⟩
    · exact Or.inl h
    · exact Or.inr ⟨hnone, Or.inr ⟨h, rfl⟩⟩

/-- An answer is a canonical name in use or the normalized name. -/
theorem inUse_or_identity (name : String) :
    r.InUse (r.resolve text name).canonical ∨
      (r.resolve text name).canonical = normalizeEntity text name := by
  rcases (EntityResolver.canonical_resolve_iff text).mp
    (rfl : (r.resolve text name).canonical = _) with h | ⟨_, h | h⟩
  · exact Or.inl ⟨_, h⟩
  · exact Or.inl h.inUse
  · exact Or.inr h.2.symm

theorem isProjection_iff (hlaws : LowercaseWords text)
    (h : Tabled text.atWhitespace pairs r) :
    IsProjection text.atWhitespace r <-> forall c, r.InUse c ->
      r.aliases.find? c = some c ∨ (r.aliases.find? c = none ∧ r.Unmatched c) := by
  constructor
  · intro hproj c huse
    have hc : normalizeEntity text.atWhitespace c = c := by
      rcases huse with ⟨x, hx⟩
      exact (h.normalized x c hx).2
    rw [← canonical_resolve_self hc]
    rcases huse with ⟨x, hx⟩
    have hresolve : (r.resolve text.atWhitespace x).canonical = c := by
      rw [EntityResolver.canonical_resolve_iff, (h.normalized x c hx).1]
      exact Or.inl hx
    have htwice := hproj x
    rw [hresolve] at htwice
    exact htwice
  · intro hsettled name
    rcases inUse_or_identity (F := F) name with huse | hsame
    · have hc : normalizeEntity text.atWhitespace (r.resolve text.atWhitespace name).canonical =
          (r.resolve text.atWhitespace name).canonical := by
        rcases huse with ⟨x, hx⟩
        exact (h.normalized x _ hx).2
      exact (canonical_resolve_self hc).mpr (hsettled _ huse)
    · rw [hsame]
      unfold EntityResolver.resolve at hsame ⊢
      rw [normalizeEntity_normalizeEntity hlaws]
      exact hsame

/-- After every sequence of calls that teach names: resolving is a projection that follows
chains of aliases exactly when what the names were given last is settled. -/
theorem projection_follows_chains_iff (hlaws : LowercaseWords text) (calls : List (LearnCall F)) :
    (IsProjection text.atWhitespace (EntityResolver.learned text.atWhitespace calls) ∧
        FollowsChains text.atWhitespace (calls.flatMap (LearnCall.pairs text.atWhitespace))
          (EntityResolver.learned text.atWhitespace calls)) <->
      AliasesSettled (calls.flatMap (LearnCall.pairs text.atWhitespace))
        (EntityResolver.learned text.atWhitespace calls) := by
  have htabled := tabled_learned hlaws calls
  generalize EntityResolver.learned text.atWhitespace calls = r at htabled ⊢
  generalize calls.flatMap (LearnCall.pairs text.atWhitespace) = pairs at htabled ⊢
  rw [isProjection_iff hlaws htabled]
  have hnear : forall x y c, (x, y) ∈ pairs -> r.aliases.find? x = some c ->
      (r.resolve text.atWhitespace x).canonical = c := by
    intro x y c hxy hx
    rw [EntityResolver.canonical_resolve_iff, (htabled.pairs_normalized x y hxy).1]
    exact Or.inl hx
  constructor
  · intro h
    constructor
    · exact h.1
    · intro x y z c hxy hyz hx
      have hz := (htabled.pairs_normalized y z hyz).2
      have hends := h.2 x y z hxy hyz
      rw [hnear x y c hxy hx, eq_comm, EntityResolver.canonical_resolve_iff, hz] at hends
      rcases hends with hends | ⟨hnone, hends | hends⟩
      · exact Or.inl hends
      · exact Or.inr ⟨hnone, Or.inr hends⟩
      · exact Or.inr ⟨hnone, Or.inl hends.2⟩
  · intro h
    constructor
    · exact h.inUse
    · intro x y z hxy hyz
      have hz := (htabled.pairs_normalized y z hyz).2
      rcases Assoc.contains_iff_exists.mp (htabled.known x y hxy) with ⟨c, hx⟩
      rw [hnear x y c hxy hx, eq_comm, EntityResolver.canonical_resolve_iff, hz]
      rcases h.chains x y z c hxy hyz hx with hfar | ⟨hnone, heq | hmatch⟩
      · exact Or.inl hfar
      · rcases h.inUse c ⟨x, hx⟩ with hself | ⟨_, hunmatched⟩
        · rw [heq] at hnone
          rw [hnone] at hself
          cases hself
        · rw [heq] at hnone ⊢
          exact Or.inr ⟨hnone, Or.inr ⟨hunmatched, rfl⟩⟩
      · exact Or.inr ⟨hnone, Or.inl hmatch⟩

end Answers

theorem lowercaseWords_nameText : LowercaseWords nameText where
  lower_lower s := by
    apply String.toList_inj.mp
    show (s.toLower.toLower).toList = s.toLower.toList
    unfold String.toLower
    rw [String.toList_map, String.toList_map, List.map_map]
    exact List.map_congr_left (fun c _ => toLower_toLower c)
  isWord_lower s h := by
    show Strings.IsWord isWhitespace s.toLower.toList
    unfold String.toLower
    rw [String.toList_map]
    constructor
    · intro hnil
      exact h.1 (List.map_eq_nil_iff.mp hnil)
    · intro c hc
      rcases List.mem_map.mp hc with ⟨d, hd, heq⟩
      rw [← heq, isWhitespace_toLower]
      exact h.2 d hd

/-- A group, and a group that takes it over with its alias. -/
def twoGroups : List (LearnCall Rat) :=
  [LearnCall.learnGroup ⟨"b", ["a"], 1⟩, LearnCall.learnGroup ⟨"c", ["b", "a"], 1⟩]

/-- Both aliases and the name itself end at the last canonical name. -/
theorem projection_follows_chains_iff_twoGroups :
    IsProjection nameText.atWhitespace (EntityResolver.learned nameText.atWhitespace twoGroups) ∧
      FollowsChains nameText.atWhitespace
        (twoGroups.flatMap (LearnCall.pairs nameText.atWhitespace))
        (EntityResolver.learned nameText.atWhitespace twoGroups) := by
  have hself : (EntityResolver.learned nameText.atWhitespace twoGroups).aliases.find? "c" =
      some "c" := by decide +kernel
  have hrows : forall row,
      row ∈ (EntityResolver.learned nameText.atWhitespace twoGroups).aliases.entries ->
        row.2 = "c" := by decide +kernel
  have hpairs : forall pair, pair ∈ twoGroups.flatMap (LearnCall.pairs nameText.atWhitespace) ->
      pair.2 = "b" ∨ pair.2 = "c" := by decide +kernel
  have hfound : forall x c,
      (EntityResolver.learned nameText.atWhitespace twoGroups).aliases.find? x = some c ->
        c = "c" := fun x c hx => hrows (x, c) (Assoc.find?_eq_some_iff.mp hx)
  have hmiddle : (EntityResolver.learned nameText.atWhitespace twoGroups).aliases.find? "b" =
      some "c" := by decide +kernel
  refine (projection_follows_chains_iff lowercaseWords_nameText twoGroups).mpr ?_
  constructor
  · intro c huse
    rcases huse with ⟨x, hx⟩
    rw [hfound x c hx]
    exact Or.inl hself
  · intro x y z c hxy hyz hx
    rw [hfound x c hx]
    rcases hpairs (y, z) hyz with hz | hz
    · rw [show z = "b" from hz]
      exact Or.inl hmiddle
    · rw [show z = "c" from hz]
      exact Or.inl hself

/-- A name that is an alias of an alias. -/
def aliasChain : List (LearnCall Rat) :=
  [LearnCall.addAlias "a" "b" 1, LearnCall.addAlias "b" "c" 1]

/-- The first name resolves to the second one, which resolves to the third. -/
theorem alias_chain_is_not_followed :
    ¬ (IsProjection nameText.atWhitespace
        (EntityResolver.learned nameText.atWhitespace aliasChain) ∧
      FollowsChains nameText.atWhitespace
        (aliasChain.flatMap (LearnCall.pairs nameText.atWhitespace))
        (EntityResolver.learned nameText.atWhitespace aliasChain)) := by
  have hfirst : ((EntityResolver.learned nameText.atWhitespace aliasChain).resolve
      nameText.atWhitespace "a").canonical = "b" := by decide +kernel
  have hsecond : ((EntityResolver.learned nameText.atWhitespace aliasChain).resolve
      nameText.atWhitespace "b").canonical = "c" := by decide +kernel
  intro h
  have htwice := h.1 "a"
  rw [hfirst, hsecond] at htwice
  exact absurd htwice (by decide)

end Projection

end Facade
end MenteDb
