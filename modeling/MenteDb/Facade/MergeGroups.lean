import MenteDb.Consolidation.Components

/-!
# Merging merge groups

The groups of names that independent batches answer with are merged when they share a name up
to lower case.  A union-find over the groups follows an index from every name to the last group
that mentioned it, so the merged groups are the components of the graph of shared names.  The
name a merged group is known by starts as the empty text and is only replaced by that of a group
with a positive confidence.
-/

namespace MenteDb
namespace Facade

open Foundation
open Cognitive
open Consolidation
open Relation

variable {F : Type}

structure EntityMergeGroup (F : Type) where
  canonical : String
  aliases : List String
  confidence : F
deriving DecidableEq

def EntityMergeGroup.names (group : EntityMergeGroup F) : List String :=
  group.canonical :: group.aliases

/-!
## The name index
-/

structure NameIndex where
  nameToGroup : Assoc String Nat
  parent : Forest

def NameIndex.start : NameIndex where
  nameToGroup := Assoc.empty
  parent := Forest.singletons

/-- One name of the group at an index; the group is joined with the last one that had it. -/
def NameIndex.mention (text : TextOps F) (n : Nat) (s : NameIndex) (idx : Nat) (name : String) :
    NameIndex :=
  let key := text.toLowercase name
  { nameToGroup := s.nameToGroup.insert key idx
    parent :=
      match s.nameToGroup.find? key with
      | some existingIdx => s.parent.link n idx existingIdx
      | none => s.parent }

def joinByName (text : TextOps F) (groups : List (EntityMergeGroup F)) : NameIndex :=
  groups.zipIdx.foldl (fun s entry =>
    entry.1.names.foldl (fun s name => s.mention text groups.length entry.2 name) s)
    NameIndex.start

/-!
## Merged groups
-/

section Merging

variable [Scalar F]

structure MergeState (F : Type) where
  allNames : Assoc String Unit
  bestConfidence : F
  canonical : String

def MergeState.start : MergeState F where
  allNames := Assoc.empty
  bestConfidence := 0
  canonical := ""

def MergeState.add (s : MergeState F) (group : EntityMergeGroup F) : MergeState F :=
  let allNames := group.names.foldl (fun names name => names.insert name ()) s.allNames
  if s.bestConfidence < group.confidence then
    { allNames := allNames
      bestConfidence := group.confidence
      canonical := group.canonical }
  else { s with allNames := allNames }

/-- The groups at some indices. -/
def groupsAt (groups : List (EntityMergeGroup F)) (indices : List Nat) :
    List (EntityMergeGroup F) :=
  indices.filterMap (fun idx => groups[idx]?)

def mergeIndices (o : HashOrder) (groups : List (EntityMergeGroup F)) (indices : List Nat) :
    EntityMergeGroup F :=
  let merged := (groupsAt groups indices).foldl MergeState.add MergeState.start
  { canonical := merged.canonical
    aliases := o.order (merged.allNames.erase merged.canonical).keys
    confidence := merged.bestConfidence }

def consolidateMergeGroups (o : HashOrder) (text : TextOps F)
    (groups : List (EntityMergeGroup F)) : List (EntityMergeGroup F) :=
  let n := groups.length
  let rootGroups := (groupByRoot n (joinByName text groups).parent (List.range n)).2
  ((o.order rootGroups.entries).map Prod.snd).map (mergeIndices o groups)

end Merging

/-!
## Names and groups
-/

/-- Two groups have a name in common, up to lower case. -/
def SharesName (text : TextOps F) (groups : List (EntityMergeGroup F)) (i j : Nat) : Prop :=
  exists g h, groups[i]? = some g ∧ groups[j]? = some h ∧
    exists x y, x ∈ g.names ∧ y ∈ h.names ∧ text.toLowercase x = text.toLowercase y

/-- A group has a name, up to lower case. -/
def EntityMergeGroup.Named (text : TextOps F) (group : EntityMergeGroup F) (name : String) : Prop :=
  exists x, x ∈ group.names ∧ text.toLowercase x = text.toLowercase name

/-- Every name with the index of its group, in the order of the loops. -/
def mentions (groups : List (EntityMergeGroup F)) : List (Nat × String) :=
  groups.zipIdx.flatMap (fun entry => entry.1.names.map (fun name => (entry.2, name)))

theorem mem_mentions {groups : List (EntityMergeGroup F)} {i : Nat} {name : String} :
    (i, name) ∈ mentions groups <-> exists g, groups[i]? = some g ∧ name ∈ g.names := by
  unfold mentions
  rw [List.mem_flatMap]
  constructor
  · intro h
    rcases h with ⟨⟨g, idx⟩, hentry, hname⟩
    rcases List.mem_map.mp hname with ⟨name', hmem, heq⟩
    cases heq
    exact ⟨g, List.mem_zipIdx_iff_getElem?.mp hentry, hmem⟩
  · intro h
    rcases h with ⟨g, hg, hname⟩
    exact ⟨(g, i), List.mem_zipIdx_iff_getElem?.mpr hg, List.mem_map_of_mem hname⟩

theorem joinByName_eq (text : TextOps F) (groups : List (EntityMergeGroup F)) :
    joinByName text groups =
      (mentions groups).foldl (fun s e => s.mention text groups.length e.1 e.2)
        NameIndex.start := by
  unfold joinByName mentions
  simp only [List.foldl_flatMap, List.foldl_map]

/-!
## Indexing keeps the classes
-/

section Indexing

variable {text : TextOps F} {n : Nat}

/-- Two groups have mentioned one name, up to lower case. -/
def SameKey (text : TextOps F) (done : List (Nat × String)) (a b : Nat) : Prop :=
  exists x y, (a, x) ∈ done ∧ (b, y) ∈ done ∧ text.toLowercase x = text.toLowercase y

/-- After some mentions: the index finds a group for each name that was mentioned and the
forest has the classes of the groups that mentioned one name. -/
structure Indexed (text : TextOps F) (n : Nat) (done : List (Nat × String)) (s : NameIndex) :
    Prop where
  rankable : Forest.Rankable n s.parent
  classes : forall i j, s.parent.root n i = s.parent.root n j <-> EqvGen (SameKey text done) i j
  found : forall key e, s.nameToGroup.find? key = some e ->
    exists x, (e, x) ∈ done ∧ text.toLowercase x = key
  complete : forall e x, (e, x) ∈ done ->
    s.nameToGroup.contains (text.toLowercase x) = true

theorem indexed_start : Indexed text n [] NameIndex.start where
  rankable := (Forest.ranked_singletons n).rankable
  classes i j := by
    constructor
    · intro hij
      have heq : i = j := by simpa [NameIndex.start, Forest.root_singletons] using hij
      rw [heq]
      exact EqvGen.refl j
    · intro hij
      refine Forest.eq_of_eqvGen ?_ hij
      intro a b hab
      rcases hab with ⟨x, y, hx, _⟩
      cases hx
  found key e h := by cases h
  complete e x h := by cases h

theorem SameKey.mono {done : List (Nat × String)} {entry : Nat × String} {a b : Nat}
    (h : SameKey text done a b) : SameKey text (done ++ [entry]) a b := by
  rcases h with ⟨x, y, hx, hy, hkey⟩
  exact ⟨x, y, List.mem_append_left _ hx, List.mem_append_left _ hy, hkey⟩

/-- The first mention of a name connects nothing. -/
theorem eqvGen_sameKey_new {done : List (Nat × String)} {idx : Nat} {name : String}
    (hnew : forall e x, (e, x) ∈ done -> text.toLowercase x ≠ text.toLowercase name) (i j : Nat) :
    EqvGen (SameKey text (done ++ [(idx, name)])) i j <-> EqvGen (SameKey text done) i j := by
  constructor
  · apply eqvGen_of_forall
    intro a b hab
    rcases hab with ⟨x, y, hx, hy, hkey⟩
    rcases List.mem_append.mp hx with hx | hx
    · rcases List.mem_append.mp hy with hy | hy
      · exact EqvGen.rel a b ⟨x, y, hx, hy, hkey⟩
      · cases List.mem_singleton.mp hy
        exact absurd hkey (hnew a x hx)
    · cases List.mem_singleton.mp hx
      rcases List.mem_append.mp hy with hy | hy
      · exact absurd hkey.symm (hnew b y hy)
      · cases List.mem_singleton.mp hy
        exact EqvGen.refl _
  · apply eqvGen_of_forall
    intro a b hab
    exact EqvGen.rel a b hab.mono

/-- A further mention of a name connects its group with one that mentioned it. -/
theorem eqvGen_sameKey_known {done : List (Nat × String)} {idx e : Nat} {name x : String}
    (he : (e, x) ∈ done) (hx : text.toLowercase x = text.toLowercase name) (i j : Nat) :
    EqvGen (SameKey text (done ++ [(idx, name)])) i j <->
      EqvGen (fun a b => SameKey text done a b ∨ (a = idx ∧ b = e)) i j := by
  have hpair : EqvGen (fun a b => SameKey text done a b ∨ (a = idx ∧ b = e)) idx e :=
    EqvGen.rel idx e (Or.inr ⟨rfl, rfl⟩)
  have hold : forall b y, (b, y) ∈ done -> text.toLowercase y = text.toLowercase name ->
      EqvGen (fun a b => SameKey text done a b ∨ (a = idx ∧ b = e)) idx b := by
    intro b y hy hkey
    refine EqvGen.trans idx e b hpair (EqvGen.rel e b (Or.inl ?_))
    exact ⟨x, y, he, hy, hx.trans hkey.symm⟩
  constructor
  · apply eqvGen_of_forall
    intro a b hab
    rcases hab with ⟨y, z, hy, hz, hkey⟩
    rcases List.mem_append.mp hy with hy | hy
    · rcases List.mem_append.mp hz with hz | hz
      · exact EqvGen.rel a b (Or.inl ⟨y, z, hy, hz, hkey⟩)
      · cases List.mem_singleton.mp hz
        exact EqvGen.symm _ _ (hold a y hy hkey)
    · cases List.mem_singleton.mp hy
      rcases List.mem_append.mp hz with hz | hz
      · exact hold b z hz hkey.symm
      · cases List.mem_singleton.mp hz
        exact EqvGen.refl _
  · apply eqvGen_of_forall
    intro a b hab
    rcases hab with hab | ⟨ha, hb⟩
    · exact EqvGen.rel a b hab.mono
    · rw [ha, hb]
      exact EqvGen.rel idx e ⟨name, x, List.mem_append_right _ (List.mem_singleton.mpr rfl),
        List.mem_append_left _ he, hx.symm⟩

/-- One mention keeps the index and the classes. -/
theorem Indexed.mention {done : List (Nat × String)} {s : NameIndex} (h : Indexed text n done s)
    (hdone : forall e x, (e, x) ∈ done -> e < n) {idx : Nat} (hidx : idx < n) (name : String) :
    Indexed text n (done ++ [(idx, name)]) (s.mention text n idx name) := by
  have hfound : forall key e, (s.mention text n idx name).nameToGroup.find? key = some e ->
      exists x, (e, x) ∈ done ++ [(idx, name)] ∧ text.toLowercase x = key := by
    intro key e he
    unfold NameIndex.mention at he
    simp only [Assoc.find?_insert] at he
    by_cases hkey : key = text.toLowercase name
    · rw [if_pos hkey] at he
      cases he
      exact ⟨name, List.mem_append_right _ (List.mem_singleton.mpr rfl), hkey.symm⟩
    · rw [if_neg hkey] at he
      rcases h.found key e he with ⟨x, hx, hlower⟩
      exact ⟨x, List.mem_append_left _ hx, hlower⟩
  have hcomplete : forall e x, (e, x) ∈ done ++ [(idx, name)] ->
      (s.mention text n idx name).nameToGroup.contains (text.toLowercase x) = true := by
    intro e x hx
    unfold NameIndex.mention Assoc.insert
    simp only [Assoc.contains_upsert, Bool.or_eq_true, decide_eq_true_eq]
    rcases List.mem_append.mp hx with hx | hx
    · exact Or.inr (h.complete e x hx)
    · cases List.mem_singleton.mp hx
      exact Or.inl rfl
  cases hlast : s.nameToGroup.find? (text.toLowercase name) with
  | none =>
      have hparent : (s.mention text n idx name).parent = s.parent := by
        simp only [NameIndex.mention, hlast]
      have hnew : forall e x, (e, x) ∈ done -> text.toLowercase x ≠ text.toLowercase name := by
        intro e x hx hkey
        have hknown := h.complete e x hx
        rw [hkey, Assoc.contains, hlast] at hknown
        cases hknown
      constructor
      · rw [hparent]
        exact h.rankable
      · intro i j
        rw [hparent, h.classes, eqvGen_sameKey_new hnew]
      · exact hfound
      · exact hcomplete
  | some e =>
      have hparent : (s.mention text n idx name).parent = s.parent.link n idx e := by
        simp only [NameIndex.mention, hlast]
      rcases h.found _ e hlast with ⟨x, he, hx⟩
      rcases h.rankable.link_eq hidx (hdone e x he) with ⟨hlinked, hjoined⟩
      constructor
      · rw [hparent]
        exact hlinked
      · intro i j
        rw [hparent, hjoined, h.classes, h.classes, h.classes, h.classes, h.classes,
          eqvGen_sameKey_known he hx, Forest.eqvGen_join (fun _ _ => Iff.rfl)]
      · exact hfound
      · exact hcomplete

/-- Any number of mentions of groups below the bound. -/
theorem indexed_foldl (entries : List (Nat × String)) (h : forall e x, (e, x) ∈ entries -> e < n) :
    Indexed text n entries
      (entries.foldl (fun s e => s.mention text n e.1 e.2) NameIndex.start) := by
  induction entries using List.reverseRecOn with
  | nil => exact indexed_start
  | append_singleton past entry ih =>
      have hpast : forall e x, (e, x) ∈ past -> e < n :=
        fun e x hx => h e x (List.mem_append_left _ hx)
      rw [List.foldl_append]
      exact (ih hpast).mention hpast
        (h entry.1 entry.2 (List.mem_append_right _ (List.mem_singleton.mpr rfl))) entry.2

theorem sameKey_mentions {groups : List (EntityMergeGroup F)} {i j : Nat} :
    SameKey text (mentions groups) i j <-> SharesName text groups i j := by
  constructor
  · intro h
    rcases h with ⟨x, y, hx, hy, hkey⟩
    rcases mem_mentions.mp hx with ⟨g, hg, hxg⟩
    rcases mem_mentions.mp hy with ⟨g', hg', hyg⟩
    exact ⟨g, g', hg, hg', x, y, hxg, hyg, hkey⟩
  · intro h
    rcases h with ⟨g, g', hg, hg', x, y, hxg, hyg, hkey⟩
    exact ⟨x, y, mem_mentions.mpr ⟨g, hg, hxg⟩, mem_mentions.mpr ⟨g', hg', hyg⟩, hkey⟩

/-- The forest over the groups has the components of shared names as its classes. -/
theorem joinByName_classes (text : TextOps F) (groups : List (EntityMergeGroup F)) :
    Forest.Rankable groups.length (joinByName text groups).parent ∧ forall i j,
      (joinByName text groups).parent.root groups.length i =
          (joinByName text groups).parent.root groups.length j <->
        EqvGen (SharesName text groups) i j := by
  have hbound : forall e x, (e, x) ∈ mentions groups -> e < groups.length := by
    intro e x hx
    rcases mem_mentions.mp hx with ⟨g, hg, _⟩
    exact (List.getElem?_eq_some_iff.mp hg).1
  have hindexed : Indexed text groups.length (mentions groups) (joinByName text groups) := by
    rw [joinByName_eq]
    exact indexed_foldl (mentions groups) hbound
  constructor
  · exact hindexed.rankable
  · intro i j
    rw [hindexed.classes]
    constructor
    · exact eqvGen_of_forall (fun a b hab => EqvGen.rel a b (sameKey_mentions.mp hab))
    · exact eqvGen_of_forall (fun a b hab => EqvGen.rel a b (sameKey_mentions.mpr hab))

end Indexing

/-!
## The names of a merged group
-/

section Merged

variable [Scalar F]

/-- After some groups: their names are collected, and the name is that of a group with a
positive confidence, or no group had one and it is still empty. -/
structure Collected (merged : List (EntityMergeGroup F)) (s : MergeState F) : Prop where
  allNames : forall name, s.allNames.contains name = true <->
    exists g, g ∈ merged ∧ name ∈ g.names
  nonneg : 0 <= s.bestConfidence
  chosen : (exists g, g ∈ merged ∧ 0 < g.confidence ∧ s.canonical = g.canonical) ∨
    ((forall g, g ∈ merged -> ¬ 0 < g.confidence) ∧ s.canonical = "" ∧ s.bestConfidence = 0)

theorem collected_start : Collected ([] : List (EntityMergeGroup F)) MergeState.start where
  allNames name := by
    constructor
    · intro h
      cases h
    · intro h
      rcases h with ⟨g, hg, _⟩
      cases hg
  nonneg := le_refl _
  chosen := Or.inr ⟨fun g hg => absurd hg List.not_mem_nil, rfl, rfl⟩

theorem MergeState.allNames_add (s : MergeState F) (group : EntityMergeGroup F) :
    (s.add group).allNames =
      group.names.foldl (fun names name => names.insert name ()) s.allNames := by
  unfold MergeState.add
  split
  · rfl
  · rfl

theorem Collected.add {merged : List (EntityMergeGroup F)} {s : MergeState F}
    (h : Collected merged s) (group : EntityMergeGroup F) :
    Collected (merged ++ [group]) (s.add group) := by
  have hlast : group ∈ merged ++ [group] :=
    List.mem_append_right _ (List.mem_singleton.mpr rfl)
  have hnames : forall name, (s.add group).allNames.contains name = true <->
      exists g, g ∈ merged ++ [group] ∧ name ∈ g.names := by
    intro name
    rw [MergeState.allNames_add, Assoc.contains_foldl_insert (fun name => name), h.allNames]
    constructor
    · intro hname
      rcases hname with ⟨x, hx, heq⟩ | ⟨g, hg, hname⟩
      · rw [heq]
        exact ⟨group, hlast, hx⟩
      · exact ⟨g, List.mem_append_left _ hg, hname⟩
    · intro hname
      rcases hname with ⟨g, hg, hname⟩
      rcases List.mem_append.mp hg with hg | hg
      · exact Or.inr ⟨g, hg, hname⟩
      · rw [List.mem_singleton.mp hg] at hname
        exact Or.inl ⟨name, hname, rfl⟩
  constructor
  · exact hnames
  · unfold MergeState.add
    split
    · rename_i hbetter
      exact h.nonneg.trans (le_of_lt hbetter)
    · exact h.nonneg
  · unfold MergeState.add
    split
    · rename_i hbetter
      exact Or.inl ⟨group, hlast, h.nonneg.trans_lt hbetter, rfl⟩
    · rename_i hworse
      rcases h.chosen with ⟨g, hg, hpositive, hcanonical⟩ | ⟨hnone, hcanonical, hbest⟩
      · exact Or.inl ⟨g, List.mem_append_left _ hg, hpositive, hcanonical⟩
      · rw [hbest] at hworse
        refine Or.inr ⟨?_, hcanonical, hbest⟩
        intro g hg
        rcases List.mem_append.mp hg with hg | hg
        · exact hnone g hg
        · rw [List.mem_singleton.mp hg]
          exact hworse

theorem collected_foldl (merged : List (EntityMergeGroup F)) :
    Collected merged (merged.foldl MergeState.add MergeState.start) := by
  induction merged using List.reverseRecOn with
  | nil => exact collected_start
  | append_singleton past group ih =>
      rw [List.foldl_append]
      exact ih.add group

omit [Scalar F] in
theorem mem_groupsAt {groups : List (EntityMergeGroup F)} {indices : List Nat}
    {g : EntityMergeGroup F} :
    g ∈ groupsAt groups indices <-> exists i, i ∈ indices ∧ groups[i]? = some g := by
  unfold groupsAt
  rw [List.mem_filterMap]

/-- The chosen name leaves the aliases, so a merged group has the chosen name and the names of
its groups. -/
theorem mem_names_mergeIndices {o : HashOrder} {groups : List (EntityMergeGroup F)}
    {indices : List Nat} {name : String} :
    name ∈ (mergeIndices o groups indices).names <->
      name = (mergeIndices o groups indices).canonical ∨
        exists g, g ∈ groupsAt groups indices ∧ name ∈ g.names := by
  have hcollected := collected_foldl (groupsAt groups indices)
  unfold mergeIndices EntityMergeGroup.names
  simp only
  rw [List.mem_cons, HashOrder.mem_order, ← Assoc.contains_iff_mem_keys, Assoc.contains,
    Assoc.find?_erase]
  generalize (groupsAt groups indices).foldl MergeState.add MergeState.start = s at hcollected ⊢
  by_cases hname : name = s.canonical
  · simp only [hname, true_or]
  · rw [if_neg hname, ← Assoc.contains, hcollected.allNames]
    rfl

/-- What a merged group is named: what its groups are named, and the empty text when none of
them has a positive confidence. -/
theorem named_mergeIndices {o : HashOrder} {text : TextOps F} {groups : List (EntityMergeGroup F)}
    {indices : List Nat} {name : String} :
    (mergeIndices o groups indices).Named text name <->
      (exists g, g ∈ groupsAt groups indices ∧ g.Named text name) ∨
        ((forall g, g ∈ groupsAt groups indices -> ¬ 0 < g.confidence) ∧
          text.toLowercase "" = text.toLowercase name) := by
  have hchosen : (exists g, g ∈ groupsAt groups indices ∧ 0 < g.confidence ∧
        (mergeIndices o groups indices).canonical = g.canonical) ∨
      ((forall g, g ∈ groupsAt groups indices -> ¬ 0 < g.confidence) ∧
        (mergeIndices o groups indices).canonical = "" ∧
        (mergeIndices o groups indices).confidence = 0) :=
    (collected_foldl (groupsAt groups indices)).chosen
  constructor
  · intro h
    rcases h with ⟨x, hx, hkey⟩
    rcases mem_names_mergeIndices.mp hx with heq | ⟨g, hg, hname⟩
    · rcases hchosen with ⟨g, hg, _, hcanonical⟩ | ⟨hnone, hcanonical, _⟩
      · rw [heq, hcanonical] at hkey
        exact Or.inl ⟨g, hg, g.canonical, List.mem_cons_self, hkey⟩
      · rw [heq, hcanonical] at hkey
        exact Or.inr ⟨hnone, hkey⟩
    · exact Or.inl ⟨g, hg, x, hname, hkey⟩
  · intro h
    rcases h with ⟨g, hg, x, hx, hkey⟩ | ⟨hnone, hkey⟩
    · exact ⟨x, mem_names_mergeIndices.mpr (Or.inr ⟨g, hg, hx⟩), hkey⟩
    · rcases hchosen with ⟨g, hg, hpositive, _⟩ | ⟨_, hcanonical, _⟩
      · exact absurd hpositive (hnone g hg)
      · rw [← hcanonical] at hkey
        exact ⟨_, mem_names_mergeIndices.mpr (Or.inl rfl), hkey⟩

end Merged

/-!
## Merged groups and components
-/

section Consolidated

variable [Scalar F]

/-- The output at a place has a name, up to lower case. -/
def NamedAt (text : TextOps F) (outputs : List (EntityMergeGroup F)) (name : String) (k : Nat) :
    Prop :=
  exists output, outputs[k]? = some output ∧ output.Named text name

/-- A merged group has the names of the groups at its indices and no name of another group. -/
structure Merges (text : TextOps F) (groups : List (EntityMergeGroup F)) (indices : List Nat)
    (output : EntityMergeGroup F) : Prop where
  named : forall i (g : EntityMergeGroup F) name, i ∈ indices -> groups[i]? = some g ->
    name ∈ g.names -> output.Named text name
  separate : forall i (g : EntityMergeGroup F) name, groups[i]? = some g -> name ∈ g.names ->
    output.Named text name -> i ∈ indices

/-- The outputs stand for the components of the graph of shared names, one for one, and every
name is in exactly one of them. -/
structure ConsolidatedByName (text : TextOps F) (groups outputs : List (EntityMergeGroup F)) :
    Prop where
  components : exists components,
    Components groups.length (SharesName text groups) components ∧
      List.Forall₂ (Merges text groups) components outputs
  unique : forall (i : Nat) (g : EntityMergeGroup F) name, groups[i]? = some g ->
    name ∈ g.names -> exists k, NamedAt text outputs name k ∧
      forall l, NamedAt text outputs name l -> l = k

/-- A component in which no group has a positive confidence is the only one with an empty name. -/
def EmptyNameSettled (text : TextOps F) (groups : List (EntityMergeGroup F)) : Prop :=
  forall i j h, i < groups.length -> groups[j]? = some h -> h.Named text "" ->
    (forall k g, EqvGen (SharesName text groups) i k -> groups[k]? = some g ->
      ¬ 0 < g.confidence) ->
    EqvGen (SharesName text groups) i j

variable (o : HashOrder) (text : TextOps F) (groups : List (EntityMergeGroup F))

/-- The indices of the groups that are merged. -/
def mergedIndices : List (List Nat) :=
  (o.order (groupByRoot groups.length (joinByName text groups).parent
    (List.range groups.length)).2.entries).map Prod.snd

omit [Scalar F] in
theorem components_mergedIndices :
    Components groups.length (SharesName text groups) (mergedIndices o text groups) := by
  rcases joinByName_classes text groups with ⟨hrankable, hclasses⟩
  exact components_groupByRoot o hrankable hclasses

theorem consolidateMergeGroups_eq :
    consolidateMergeGroups o text groups =
      (mergedIndices o text groups).map (mergeIndices o groups) := rfl

variable {o text groups}

theorem named_of_mem {indices : List Nat} {i : Nat} {g : EntityMergeGroup F} {name : String}
    (hi : i ∈ indices) (hg : groups[i]? = some g) (hname : name ∈ g.names) :
    (mergeIndices o groups indices).Named text name :=
  named_mergeIndices.mpr (Or.inl ⟨g, mem_groupsAt.mpr ⟨i, hi, hg⟩, name, hname, rfl⟩)

theorem namedAt_consolidated {k : Nat} {name : String} :
    NamedAt text (consolidateMergeGroups o text groups) name k <->
      exists hk : k < (mergedIndices o text groups).length,
        (mergeIndices o groups (mergedIndices o text groups)[k]).Named text name := by
  unfold NamedAt
  rw [consolidateMergeGroups_eq]
  constructor
  · intro h
    rcases h with ⟨output, houtput, hnamed⟩
    rcases List.getElem?_eq_some_iff.mp houtput with ⟨hk, hat⟩
    rw [List.getElem_map] at hat
    rw [← hat] at hnamed
    exact ⟨_, hnamed⟩
  · intro h
    rcases h with ⟨hk, hnamed⟩
    refine ⟨_, ?_, hnamed⟩
    rw [List.getElem?_map, List.getElem?_eq_getElem hk]
    rfl

/-- No merged group has a name of another component when the empty names are settled. -/
theorem EmptyNameSettled.separate (h : EmptyNameSettled text groups) {c : List Nat}
    (hc : c ∈ mergedIndices o text groups) {i : Nat} {g : EntityMergeGroup F} {name : String}
    (hg : groups[i]? = some g) (hname : name ∈ g.names)
    (hnamed : (mergeIndices o groups c).Named text name) : i ∈ c := by
  have hcomponents := components_mergedIndices o text groups
  have hi : i < groups.length := (List.getElem?_eq_some_iff.mp hg).1
  rcases named_mergeIndices.mp hnamed with ⟨g', hg', x, hx, hkey⟩ | ⟨hnone, hempty⟩
  · rcases mem_groupsAt.mp hg' with ⟨i', hi', hat⟩
    rw [hcomponents.mem_iff hc hi' i]
    exact ⟨hi, EqvGen.rel i' i ⟨g', g, hat, hg, x, name, hx, hname, hkey⟩⟩
  · rcases hcomponents.exists_mem hc with ⟨i', hi'⟩
    rw [hcomponents.mem_iff hc hi' i]
    refine ⟨hi, h i' i g (hcomponents.lt_of_mem hc hi') hg ⟨name, hname, hempty.symm⟩ ?_⟩
    intro k g' hk hat
    have hkc := (hcomponents.mem_iff hc hi' k).mpr ⟨(List.getElem?_eq_some_iff.mp hat).1, hk⟩
    exact hnone g' (mem_groupsAt.mpr ⟨k, hkc, hat⟩)

/-- The groups are merged as they share names exactly when a component without a positive
confidence, which is given the empty name, is the only one with that name. -/
theorem consolidateMergeGroups_iff (o : HashOrder) (text : TextOps F)
    (groups : List (EntityMergeGroup F)) :
    ConsolidatedByName text groups (consolidateMergeGroups o text groups) <->
      EmptyNameSettled text groups := by
  have hcomponents := components_mergedIndices o text groups
  constructor
  · intro h i j g hi hg hempty hnone
    rcases hempty with ⟨x, hx, hkey⟩
    have hj : j < groups.length := (List.getElem?_eq_some_iff.mp hg).1
    rcases hcomponents.complete i hi with ⟨c, hc, hic⟩
    rcases hcomponents.complete j hj with ⟨d, hd, hjd⟩
    rcases List.getElem_of_mem hc with ⟨k, hk, hkc⟩
    rcases List.getElem_of_mem hd with ⟨l, hl, hld⟩
    have hnamedC : (mergeIndices o groups c).Named text x := by
      refine named_mergeIndices.mpr (Or.inr ⟨?_, hkey.symm⟩)
      intro g' hg'
      rcases mem_groupsAt.mp hg' with ⟨i', hi', hat⟩
      exact hnone i' g' ((hcomponents.mem_iff hc hic i').mp hi').2 hat
    have hatK : NamedAt text (consolidateMergeGroups o text groups) x k := by
      rw [← hkc] at hnamedC
      exact namedAt_consolidated.mpr ⟨hk, hnamedC⟩
    have hatL : NamedAt text (consolidateMergeGroups o text groups) x l := by
      have hnamedD : (mergeIndices o groups d).Named text x := named_of_mem hjd hg hx
      rw [← hld] at hnamedD
      exact namedAt_consolidated.mpr ⟨hl, hnamedD⟩
    rcases h.unique j g x hg hx with ⟨place, _, hplace⟩
    have hsame : c = d := by
      rw [← hkc, ← hld]
      simp only [hplace k hatK, hplace l hatL]
    rw [← hsame] at hjd
    exact ((hcomponents.mem_iff hc hic j).mp hjd).2
  · intro h
    constructor
    · refine ⟨_, hcomponents, ?_⟩
      rw [consolidateMergeGroups_eq, List.forall₂_map_right_iff]
      apply List.forall₂_same.mpr
      intro c hc
      constructor
      · intro i g name hi hg hname
        exact named_of_mem hi hg hname
      · intro i g name hg hname hnamed
        exact h.separate hc hg hname hnamed
    · intro i g name hg hname
      rcases hcomponents.complete i (List.getElem?_eq_some_iff.mp hg).1 with ⟨c, hc, hic⟩
      rcases List.getElem_of_mem hc with ⟨k, hk, hkc⟩
      exists k
      constructor
      · rw [← hkc] at hic
        exact namedAt_consolidated.mpr ⟨hk, named_of_mem hic hg hname⟩
      · intro l hl
        rcases namedAt_consolidated.mp hl with ⟨hlt, hnamed⟩
        have hil := h.separate (List.getElem_mem hlt) hg hname hnamed
        rw [← hkc] at hic
        exact hcomponents.index_unique hlt hk hil hic

end Consolidated

/-!
## The name of a merged group
-/

section Canonical

variable [Scalar F]

/-- After some groups: the best confidence is the greatest, and the name is that of a group
with it, or no group was better than the start. -/
structure Elected (merged : List (EntityMergeGroup F)) (s : MergeState F) : Prop where
  greatest : forall g, g ∈ merged -> g.confidence <= s.bestConfidence
  winner : (exists g, g ∈ merged ∧ s.canonical = g.canonical ∧
      s.bestConfidence = g.confidence) ∨
    (s.canonical = "" ∧ s.bestConfidence = 0)

theorem elected_start : Elected ([] : List (EntityMergeGroup F)) MergeState.start where
  greatest _ hg := absurd hg List.not_mem_nil
  winner := Or.inr ⟨rfl, rfl⟩

theorem Elected.add {merged : List (EntityMergeGroup F)} {s : MergeState F}
    (h : Elected merged s) (group : EntityMergeGroup F) :
    Elected (merged ++ [group]) (s.add group) := by
  unfold MergeState.add
  split
  · rename_i hbetter
    constructor
    · intro g hg
      rcases List.mem_append.mp hg with hg | hg
      · exact (h.greatest g hg).trans (le_of_lt hbetter)
      · rw [List.mem_singleton.mp hg]
    · exact Or.inl ⟨group, List.mem_append_right _ (List.mem_singleton.mpr rfl), rfl, rfl⟩
  · rename_i hworse
    constructor
    · intro g hg
      rcases List.mem_append.mp hg with hg | hg
      · exact h.greatest g hg
      · rw [List.mem_singleton.mp hg]
        exact not_lt.mp hworse
    · rcases h.winner with ⟨g, hg, hcanonical, hbest⟩ | hstart
      · exact Or.inl ⟨g, List.mem_append_left _ hg, hcanonical, hbest⟩
      · exact Or.inr hstart

theorem elected_foldl (merged : List (EntityMergeGroup F)) :
    Elected merged (merged.foldl MergeState.add MergeState.start) := by
  induction merged using List.reverseRecOn with
  | nil => exact elected_start
  | append_singleton past group ih =>
      rw [List.foldl_append]
      exact ih.add group

/-- A name that a group of greatest confidence at the indices gave. -/
def BestNamed (groups : List (EntityMergeGroup F)) (indices : List Nat)
    (output : EntityMergeGroup F) : Prop :=
  exists i g, i ∈ indices ∧ groups[i]? = some g ∧ output.canonical = g.canonical ∧
    forall j h, j ∈ indices -> groups[j]? = some h -> h.confidence <= g.confidence

/-- Every output has the name of a best group of its component, so a name that was proposed. -/
structure CanonicalsReal (groups : List (EntityMergeGroup F)) (components : List (List Nat))
    (outputs : List (EntityMergeGroup F)) : Prop where
  best : List.Forall₂ (BestNamed groups) components outputs
  proposed : forall output, output ∈ outputs ->
    exists g, g ∈ groups ∧ output.canonical = g.canonical

/-- Every component has a group with a positive confidence, or one whose name is empty. -/
def WinnerInReach (text : TextOps F) (groups : List (EntityMergeGroup F)) : Prop :=
  forall i, i < groups.length -> exists j g, EqvGen (SharesName text groups) i j ∧
    groups[j]? = some g ∧ (0 < g.confidence ∨ g.canonical = "")

/-- With confidences of at least zero the winner is a best group, or all have confidence zero
and the name is the empty one of the start. -/
theorem bestNamed_mergeIndices_iff {o : HashOrder} {groups : List (EntityMergeGroup F)}
    (hnonneg : forall g, g ∈ groups -> 0 <= g.confidence) {indices : List Nat} :
    BestNamed groups indices (mergeIndices o groups indices) <->
      exists j g, j ∈ indices ∧ groups[j]? = some g ∧ (0 < g.confidence ∨ g.canonical = "") := by
  have helected : Elected (groupsAt groups indices)
      ((groupsAt groups indices).foldl MergeState.add MergeState.start) := elected_foldl _
  have hchosen := (collected_foldl (groupsAt groups indices)).chosen
  constructor
  · intro h
    rcases hchosen with ⟨g, hg, hpositive, _⟩ | ⟨_, hempty, _⟩
    · rcases mem_groupsAt.mp hg with ⟨j, hj, hat⟩
      exact ⟨j, g, hj, hat, Or.inl hpositive⟩
    · rcases h with ⟨i, g, hi, hat, hcanonical, _⟩
      exact ⟨i, g, hi, hat, Or.inr (hcanonical.symm.trans hempty)⟩
  · intro h
    rcases h with ⟨j, g, hj, hat, hreach⟩
    rcases helected.winner with ⟨w, hw, hcanonical, hbest⟩ | ⟨hcanonical, hbest⟩
    · rcases mem_groupsAt.mp hw with ⟨i, hi, hwat⟩
      refine ⟨i, w, hi, hwat, hcanonical, ?_⟩
      intro k m hk hkat
      rw [← hbest]
      exact helected.greatest m (mem_groupsAt.mpr ⟨k, hk, hkat⟩)
    · -- no group was better than the start, so all of them have confidence zero
      have hzero : forall k m, k ∈ indices -> groups[k]? = some m -> m.confidence <= 0 := by
        intro k m hk hkat
        rw [← hbest]
        exact helected.greatest m (mem_groupsAt.mpr ⟨k, hk, hkat⟩)
      rcases hreach with hpositive | hname
      · exact absurd hpositive (not_lt.mpr (hzero j g hj hat))
      · refine ⟨j, g, hj, hat, hcanonical.trans hname.symm, ?_⟩
        intro k m hk hkat
        exact (hzero k m hk hkat).trans (hnonneg g (List.mem_of_getElem? hat))

/-- With confidences between zero and one, the names of the outputs are names of best groups
exactly when every component has a group that can win. -/
theorem canonicals_real_iff (o : HashOrder) (text : TextOps F)
    (groups : List (EntityMergeGroup F))
    (hconfidence : forall g, g ∈ groups -> 0 <= g.confidence ∧ g.confidence <= 1) :
    Components groups.length (SharesName text groups) (mergedIndices o text groups) ∧
      (CanonicalsReal groups (mergedIndices o text groups)
          (consolidateMergeGroups o text groups) <-> WinnerInReach text groups) := by
  have hnonneg : forall g, g ∈ groups -> 0 <= g.confidence := fun g hg => (hconfidence g hg).1
  have hcomponents := components_mergedIndices o text groups
  have hforall : List.Forall₂ (BestNamed groups) (mergedIndices o text groups)
        (consolidateMergeGroups o text groups) <->
      forall c, c ∈ mergedIndices o text groups ->
        BestNamed groups c (mergeIndices o groups c) := by
    rw [consolidateMergeGroups_eq, List.forall₂_map_right_iff, List.forall₂_same]
  constructor
  · exact hcomponents
  constructor
  · intro h i hi
    rcases hcomponents.complete i hi with ⟨c, hc, hic⟩
    rcases (bestNamed_mergeIndices_iff hnonneg).mp (hforall.mp h.best c hc) with
      ⟨j, g, hj, hat, hreach⟩
    exact ⟨j, g, ((hcomponents.mem_iff hc hic j).mp hj).2, hat, hreach⟩
  · intro h
    have hbest : forall c, c ∈ mergedIndices o text groups ->
        BestNamed groups c (mergeIndices o groups c) := by
      intro c hc
      rcases hcomponents.exists_mem hc with ⟨i, hi⟩
      rcases h i (hcomponents.lt_of_mem hc hi) with ⟨j, g, hconnected, hat, hreach⟩
      have hj := (hcomponents.mem_iff hc hi j).mpr
        ⟨(List.getElem?_eq_some_iff.mp hat).1, hconnected⟩
      exact (bestNamed_mergeIndices_iff hnonneg).mpr ⟨j, g, hj, hat, hreach⟩
    constructor
    · exact hforall.mpr hbest
    · intro output houtput
      rcases List.mem_map.mp houtput with ⟨c, hc, heq⟩
      rcases hbest c hc with ⟨i, g, _, hat, hcanonical, _⟩
      rw [← heq]
      exact ⟨g, List.mem_of_getElem? hat, hcanonical⟩

end Canonical

/-- Text operations on the names of the groups below. -/
def nameText : TextOps Rat where
  splitWhitespace := fun s => [s]
  toLowercase := String.toLower
  trim := fun s => s
  fixed2 := fun _ => ""
  fixed3 := fun _ => ""

/-- A group with confidence zero and a group whose name is empty. -/
def unsureAndUnnamed : List (EntityMergeGroup Rat) := [⟨"a", [], 0⟩, ⟨"", [], 1⟩]

/-- The first group loses its name for the empty one, which is that of the second. -/
theorem unsure_group_takes_empty_name :
    ¬ ConsolidatedByName nameText unsureAndUnnamed
      (consolidateMergeGroups HashOrder.insertion nameText unsureAndUnnamed) := by
  have houtputs : consolidateMergeGroups HashOrder.insertion nameText unsureAndUnnamed =
      [⟨"", ["a"], 0⟩, ⟨"", [], 1⟩] := by decide +kernel
  rw [houtputs]
  intro h
  rcases h.unique 1 ⟨"", [], 1⟩ "" rfl List.mem_cons_self with ⟨place, _, hplace⟩
  have hfirst := hplace 0 ⟨_, rfl, "", List.mem_cons_self, rfl⟩
  have hsecond := hplace 1 ⟨_, rfl, "", List.mem_cons_self, rfl⟩
  rw [← hfirst] at hsecond
  exact Nat.one_ne_zero hsecond

/-- Two groups with a name in common, the first without confidence, and one of its own. -/
def namedTwice : List (EntityMergeGroup Rat) :=
  [⟨"Rust", ["rust-lang"], 0⟩, ⟨"Go", ["golang"], 1 / 2⟩, ⟨"Rust Lang", ["rust-lang"], 1⟩]

/-- The first group is joined with the last one, which gives both its name. -/
theorem canonicals_real_iff_namedTwice :
    CanonicalsReal namedTwice (mergedIndices HashOrder.insertion nameText namedTwice)
      (consolidateMergeGroups HashOrder.insertion nameText namedTwice) := by
  have hconfidence : forall g, g ∈ namedTwice -> 0 <= g.confidence ∧ g.confidence <= 1 := by
    decide +kernel
  have hshared : SharesName nameText namedTwice 0 2 :=
    ⟨_, _, rfl, rfl, "rust-lang", "rust-lang", by decide +kernel, by decide +kernel, rfl⟩
  refine (canonicals_real_iff HashOrder.insertion nameText namedTwice hconfidence).2.mpr ?_
  have hlast : exists g, namedTwice[2]? = some g ∧ (0 < g.confidence ∨ g.canonical = "") :=
    ⟨_, rfl, Or.inl zero_lt_one⟩
  have hmiddle : exists g, namedTwice[1]? = some g ∧ (0 < g.confidence ∨ g.canonical = "") :=
    ⟨_, rfl, Or.inl one_half_pos⟩
  intro i hi
  have hcases : i = 0 ∨ i = 1 ∨ i = 2 := by
    have hlength : namedTwice.length = 3 := rfl
    omega
  rcases hcases with h | h | h
  · subst h
    rcases hlast with ⟨g, hg⟩
    exact ⟨2, g, EqvGen.rel 0 2 hshared, hg⟩
  · subst h
    rcases hmiddle with ⟨g, hg⟩
    exact ⟨1, g, EqvGen.refl 1, hg⟩
  · subst h
    rcases hlast with ⟨g, hg⟩
    exact ⟨2, g, EqvGen.refl 2, hg⟩

/-- A group with confidence zero beside another group. -/
def unsureAndSure : List (EntityMergeGroup Rat) := [⟨"a", [], 0⟩, ⟨"b", [], 1⟩]

/-- The name of the first group is lost for one that nobody proposed. -/
theorem unsure_canonical_is_not_proposed :
    ¬ CanonicalsReal unsureAndSure (mergedIndices HashOrder.insertion nameText unsureAndSure)
      (consolidateMergeGroups HashOrder.insertion nameText unsureAndSure) := by
  have houtputs : consolidateMergeGroups HashOrder.insertion nameText unsureAndSure =
      [⟨"", ["a"], 0⟩, ⟨"b", [], 1⟩] := by decide +kernel
  rw [houtputs]
  intro h
  rcases h.proposed _ List.mem_cons_self with ⟨g, hg, hcanonical⟩
  simp only [unsureAndSure, List.mem_cons, List.not_mem_nil, or_false] at hg
  rcases hg with hg | hg
  · rw [hg] at hcanonical
    exact absurd hcanonical (by decide)
  · rw [hg] at hcanonical
    exact absurd hcanonical (by decide)

end Facade
end MenteDb
