import MenteDb.Facade.EntityLinks

/-!
# Names that were confirmed to be different

Pairs of names that were confirmed to be different are kept beside the table of names.
Neither the resolver nor the linking asks for them: two names stay apart as long as no write
to the table opens a canonical name to both of them.
-/

namespace MenteDb
namespace Facade

open Foundation
open Sqlite
open MenteDb.Graph
open Cognitive
open Consolidation

variable {F : Type}

namespace EntityResolver

/-- The table gives a name a canonical name, or the rules match it with one. -/
def Gives (r : EntityResolver F) (x c : String) : Prop :=
  r.aliases.find? x = some c ∨ (r.aliases.find? x = none ∧ r.FirstMatch x c)

/-- A name leads to what it is given, or else to itself. -/
def LeadsTo (r : EntityResolver F) (x c : String) : Prop :=
  r.Gives x c ∨ (r.aliases.find? x = none ∧ r.Unmatched x ∧ x = c)

variable [Scalar F] {text : TextOps F} {r : EntityResolver F}

theorem canonical_eq_iff_leadsTo {name c : String} :
    (r.resolve text name).canonical = c <-> r.LeadsTo (normalizeEntity text name) c := by
  rw [canonical_resolve_iff]
  unfold LeadsTo Gives
  constructor
  · intro h
    rcases h with h | ⟨hnone, h | h⟩
    · exact Or.inl (Or.inl h)
    · exact Or.inl (Or.inr ⟨hnone, h⟩)
    · exact Or.inr ⟨hnone, h⟩
  · intro h
    rcases h with (h | h) | ⟨hnone, h⟩
    · exact Or.inl h
    · exact Or.inr ⟨h.1, Or.inl h.2⟩
    · exact Or.inr ⟨hnone, Or.inr h⟩

theorem gives_of_known {name c : String} (h : r.known text name = some c) :
    r.Gives (normalizeEntity text name) c := by
  unfold known at h
  dsimp only at h
  split at h
  · cases h
  · rename_i hsource
    have hcanonical := canonical_eq_iff_leadsTo.mp (Option.some.inj h)
    rcases hcanonical with hgives | ⟨hnone, hunmatched, _⟩
    · exact hgives
    · apply absurd _ hsource
      unfold resolve
      dsimp only
      rw [hnone, ruleBasedMatch_eq_none_iff.mpr hunmatched]

end EntityResolver

/-!
## Canonical names that are open to a name
-/

/-- The rules may match the name with this canonical name. -/
def matchesByWords (x c : String) : Bool :=
  decide (nameWords x ≠ []) && (decide (c ≠ x) && comparable x c)

/-- The name itself and what the table has for it, or else every canonical name in use that the
rules match with it. -/
def openNames (text : TextOps F) (aliases : Assoc String String) (n : String) : List String :=
  let x := normalizeEntity text n
  n :: x ::
    match aliases.find? x with
    | some c => [c]
    | none => (aliases.entries.map Prod.snd).filter (matchesByWords x)

/-- No canonical name is open to both names. -/
def Apart (text : TextOps F) (aliases : Assoc String String) (a b : String) : Prop :=
  forall c, c ∈ openNames text aliases a -> c ∉ openNames text aliases b

instance (text : TextOps F) (aliases : Assoc String String) (a b : String) :
    Decidable (Apart text aliases a b) :=
  inferInstanceAs (Decidable (forall c, c ∈ openNames text aliases a ->
    c ∉ openNames text aliases b))

theorem mem_openNames {text : TextOps F} {aliases : Assoc String String} {n c : String} :
    c ∈ openNames text aliases n <->
      c = n ∨ c = normalizeEntity text n ∨ aliases.find? (normalizeEntity text n) = some c ∨
        (aliases.find? (normalizeEntity text n) = none ∧
          (exists y, aliases.find? y = some c) ∧
          matchesByWords (normalizeEntity text n) c = true) := by
  unfold openNames
  simp only [List.mem_cons]
  refine or_congr Iff.rfl (or_congr Iff.rfl ?_)
  cases hfind : aliases.find? (normalizeEntity text n) with
  | some d =>
      simp only [List.mem_singleton, Option.some_inj, reduceCtorEq, false_and, or_false]
      exact eq_comm
  | none =>
      simp only [List.mem_filter, List.mem_map, reduceCtorEq, true_and, false_or, Prod.exists,
        exists_eq_right, Assoc.find?_eq_some_iff]

/-!
## What a call writes in the table
-/

/-- One entry, which may be written only where the table has nothing yet. -/
structure TableWrite where
  aliasName : String
  canonical : String
  onlyNew : Bool

namespace TableWrite

def apply (aliases : Assoc String String) (w : TableWrite) : Assoc String String :=
  aliases.upsert w.aliasName (fun old => if w.onlyNew then old.getD w.canonical else w.canonical)

/-- The entry is written. -/
def takes (w : TableWrite) (aliases : Assoc String String) : Bool :=
  !w.onlyNew || !aliases.contains w.aliasName

/-- The write opens its canonical name to a name. -/
def opens (text : TextOps F) (w : TableWrite) (aliases : Assoc String String) (n : String) :
    Bool :=
  let x := normalizeEntity text n
  w.takes aliases &&
    (decide (w.aliasName = x) || (!aliases.contains x && matchesByWords x w.canonical))

/-- The write opens its canonical name to one of the names, and it is open to the other one
already or by the same write. -/
def Joins (text : TextOps F) (w : TableWrite) (aliases : Assoc String String) (a b : String) :
    Prop :=
  (w.opens text aliases a = true ∧
      (w.opens text aliases b = true ∨ w.canonical ∈ openNames text aliases b)) ∨
    (w.opens text aliases b = true ∧ w.canonical ∈ openNames text aliases a)

instance (text : TextOps F) (w : TableWrite) (aliases : Assoc String String) (a b : String) :
    Decidable (w.Joins text aliases a b) := inferInstanceAs (Decidable (_ ∨ _))

end TableWrite

def groupWrites (text : TextOps F) (group : EntityMergeGroup F) : List TableWrite :=
  let canonical := normalizeEntity text group.canonical
  ⟨canonical, canonical, false⟩ ::
    ((group.aliases.map (normalizeEntity text)).filter (fun x => decide (x ≠ canonical))).map
      (fun x => ⟨x, canonical, false⟩)

def ResolverCall.writes (text : TextOps F) : ResolverCall F -> List TableWrite
  | ResolverCall.learn (LearnCall.learnGroup group) => groupWrites text group
  | ResolverCall.learn (LearnCall.addAlias aliasName canonical _) =>
      [⟨normalizeEntity text aliasName, normalizeEntity text canonical, false⟩]
  | ResolverCall.markDifferent _ _ => []
  | ResolverCall.load (Except.error _) => []
  | ResolverCall.load (Except.ok snapshot) =>
      if snapshotVersion < snapshot.version then []
      else snapshot.aliases.entries.map (fun e => ⟨e.1, e.2, true⟩)

def LinkingCall.writes (text : TextOps F) : LinkingCall F -> List TableWrite
  | LinkingCall.linkEntities => []
  | LinkingCall.applyEntityLinkResolutions groups _ =>
      groups.flatMap (fun group => groupWrites text (group.mergeGroup text))
  | LinkingCall.store _ => []
  | LinkingCall.resolver call => call.writes text

theorem aliases_learnGroup (text : TextOps F) (r : EntityResolver F)
    (group : EntityMergeGroup F) :
    (r.learnGroup text group).aliases =
      (groupWrites text group).foldl TableWrite.apply r.aliases := by
  have hfold : forall (names : List String) (canonical : String) (r : EntityResolver F),
      (names.foldl (fun r aliasName =>
        if normalizeEntity text aliasName ≠ canonical then
          r.learn group.confidence (normalizeEntity text aliasName, canonical)
        else r) r).aliases =
      (((names.map (normalizeEntity text)).filter (fun x => decide (x ≠ canonical))).map
        (fun x => (⟨x, canonical, false⟩ : TableWrite))).foldl TableWrite.apply r.aliases := by
    intro names canonical
    induction names with
    | nil =>
        intro r
        rfl
    | cons name rest ih =>
        intro r
        rw [List.foldl_cons, ih]
        by_cases hname : normalizeEntity text name = canonical
        · simp [hname]
        · simp only [hname, ne_eq, not_false_eq_true, if_true, List.map_cons, decide_true,
            List.filter_cons, List.foldl_cons]
          rfl
  exact hfold _ _ _

theorem aliases_after (text : TextOps F) (r : EntityResolver F) (call : ResolverCall F) :
    (r.after text call).aliases = (call.writes text).foldl TableWrite.apply r.aliases := by
  cases call with
  | learn call =>
      cases call with
      | learnGroup group => exact aliases_learnGroup text r group
      | addAlias aliasName canonical confidence => rfl
  | markDifferent a b => rfl
  | load read =>
      cases read with
      | error e => rfl
      | ok snapshot =>
          unfold EntityResolver.after EntityResolver.load ResolverCall.writes
          by_cases hversion : snapshotVersion < snapshot.version
          · simp only [bind, Except.bind, if_pos hversion]
            rfl
          · simp only [bind, Except.bind, if_neg hversion, List.foldl_map]
            rfl

/-!
## Writes that join nothing
-/

section Writes

variable {text : TextOps F} {aliases : Assoc String String} {a b : String}

/-- What the table has after a write: what it had, or the canonical name that was written. -/
theorem find?_apply {w : TableWrite} {x c : String}
    (h : (w.apply aliases).find? x = some c) :
    aliases.find? x = some c ∨
      (c = w.canonical ∧ x = w.aliasName ∧ w.takes aliases = true) := by
  unfold TableWrite.apply at h
  rw [Assoc.find?_upsert] at h
  by_cases hkey : x = w.aliasName
  · rw [if_pos hkey, Option.some_inj] at h
    unfold TableWrite.takes Assoc.contains
    cases honly : w.onlyNew with
    | false =>
        rw [honly] at h
        exact Or.inr ⟨h.symm, hkey, rfl⟩
    | true =>
        rw [honly, if_pos rfl] at h
        cases hold : aliases.find? w.aliasName with
        | none =>
            rw [hold] at h
            exact Or.inr ⟨h.symm, hkey, rfl⟩
        | some d =>
            rw [hold] at h
            exact Or.inl (by rw [hkey, hold]; exact congrArg some h)
  · rw [if_neg hkey] at h
    exact Or.inl h

/-- What is open after a write was open before it, or is what the write opens. -/
theorem openNames_apply {w : TableWrite} {n c : String}
    (h : c ∈ openNames text (w.apply aliases) n) :
    c ∈ openNames text aliases n ∨ (c = w.canonical ∧ w.opens text aliases n = true) := by
  rw [mem_openNames] at h ⊢
  unfold TableWrite.opens
  simp only [Bool.and_eq_true, Bool.or_eq_true, decide_eq_true_eq, Bool.not_eq_true']
  rcases h with hself | hself | hentry | ⟨hnone, ⟨y, hy⟩, hmatch⟩
  · exact Or.inl (Or.inl hself)
  · exact Or.inl (Or.inr (Or.inl hself))
  · rcases find?_apply hentry with hold | ⟨hc, hkey, htakes⟩
    · exact Or.inl (Or.inr (Or.inr (Or.inl hold)))
    · exact Or.inr ⟨hc, htakes, Or.inl hkey.symm⟩
  · -- a name without an entry now had none before
    have hbefore : aliases.find? (normalizeEntity text n) = none := by
      unfold TableWrite.apply at hnone
      rw [Assoc.find?_upsert] at hnone
      split at hnone
      · cases hnone
      · exact hnone
    rcases find?_apply hy with hold | ⟨hc, _, htakes⟩
    · exact Or.inl (Or.inr (Or.inr (Or.inr ⟨hbefore, ⟨y, hold⟩, hmatch⟩)))
    · refine Or.inr ⟨hc, htakes, Or.inr ⟨?_, ?_⟩⟩
      · unfold Assoc.contains
        rw [hbefore]
        rfl
      · rw [← hc]
        exact hmatch

theorem Apart.apply {w : TableWrite} (h : Apart text aliases a b)
    (hw : ¬ w.Joins text aliases a b) : Apart text (w.apply aliases) a b := by
  intro c ha hb
  rcases openNames_apply ha with ha | ⟨hc, ha⟩
  · rcases openNames_apply hb with hb | ⟨hc, hb⟩
    · exact h c ha hb
    · rw [hc] at ha
      exact hw (Or.inr ⟨hb, ha⟩)
  · rcases openNames_apply hb with hb | ⟨_, hb⟩
    · rw [hc] at hb
      exact hw (Or.inl ⟨ha, Or.inr hb⟩)
    · exact hw (Or.inl ⟨ha, Or.inl hb⟩)

end Writes

/-- None of the writes, one after another, joins the names. -/
def NoneJoins (text : TextOps F) (a b : String) : Assoc String String -> List TableWrite -> Prop
  | _, [] => True
  | aliases, w :: rest => ¬ w.Joins text aliases a b ∧ NoneJoins text a b (w.apply aliases) rest

def decideNoneJoins (text : TextOps F) (a b : String) : (aliases : Assoc String String) ->
    (writes : List TableWrite) -> Decidable (NoneJoins text a b aliases writes)
  | _, [] => isTrue trivial
  | aliases, w :: rest =>
      have := decideNoneJoins text a b (w.apply aliases) rest
      inferInstanceAs (Decidable (_ ∧ _))

instance (text : TextOps F) (a b : String) (aliases : Assoc String String)
    (writes : List TableWrite) : Decidable (NoneJoins text a b aliases writes) :=
  decideNoneJoins text a b aliases writes

/-- No canonical name is open to both names, and none of the writes changes that. -/
structure KeptApart (text : TextOps F) (aliases : Assoc String String)
    (writes : List TableWrite) (a b : String) : Prop where
  apart : Apart text aliases a b
  writes : NoneJoins text a b aliases writes

instance (text : TextOps F) (aliases : Assoc String String) (writes : List TableWrite)
    (a b : String) : Decidable (KeptApart text aliases writes a b) :=
  decidable_of_iff (Apart text aliases a b ∧ NoneJoins text a b aliases writes)
    ⟨fun h => ⟨h.1, h.2⟩, fun h => ⟨h.1, h.2⟩⟩

theorem KeptApart.after {text : TextOps F} {aliases : Assoc String String}
    {writes : List TableWrite} {a b : String} (h : KeptApart text aliases writes a b) :
    Apart text (writes.foldl TableWrite.apply aliases) a b := by
  induction writes generalizing aliases with
  | nil => exact h.apart
  | cons w rest ih =>
      rw [List.foldl_cons]
      exact ih ⟨h.apart.apply h.writes.1, h.writes.2⟩

section Different

variable [Scalar F]

/-- A memory carries a name, in whatever spelling. -/
def TaggedWith (text : TextOps F) (mem : MemoryNode F) (name : String) : Prop :=
  exists n, n ∈ entityNames text mem ∧ normalizeEntity text n = normalizeEntity text name

instance (text : TextOps F) (mem : MemoryNode F) (name : String) :
    Decidable (TaggedWith text mem name) :=
  inferInstanceAs (Decidable (exists n, n ∈ entityNames text mem ∧
    normalizeEntity text n = normalizeEntity text name))

/-- An edge joins memories that carry the two names. -/
def JoinsNames (text : TextOps F) (t : Tables F) (a b : String) (edge : MemoryEdge F) : Prop :=
  exists ma mb, ma ∈ t.allMemories ∧ mb ∈ t.allMemories ∧ TaggedWith text ma a ∧
    TaggedWith text mb b ∧
    ((edge.source = ma.id ∧ edge.target = mb.id) ∨ (edge.source = mb.id ∧ edge.target = ma.id))

/-- Linking appends edges, and none of them joins memories that carry the two names. -/
def LinksApart (env : Env F) (db : EntityDatabase F) (a b : String) : Prop :=
  forall order, exists created,
    (db.linkEntities env order).world.tables.allEdges = db.world.tables.allEdges ++ created ∧
      forall edge, edge ∈ created -> ¬ JoinsNames env.text db.world.tables a b edge

/-- What is asked of two names that were confirmed to be different. -/
structure StayApart (env : Env F) (db : EntityDatabase F) (a b : String) : Prop where
  resolved : (db.resolver.resolve env.text a).canonical ≠ (db.resolver.resolve env.text b).canonical
  links : LinksApart env db a b

/-- A stored name belongs to the group of a canonical name. -/
def OfGroup (text : TextOps F) (r : EntityResolver F) (c n : String) : Prop :=
  r.Gives (normalizeEntity text n) c ∨ n = c

/-- No canonical name that some stored name is given has memories with both names in its
group. -/
def GroupsApart (text : TextOps F) (db : EntityDatabase F) (a b : String) : Prop :=
  forall c ma mb na nb,
    (exists mem n, mem ∈ db.world.tables.allMemories ∧ firstEntityName text mem = some n ∧
      db.resolver.Gives (normalizeEntity text n) c) ->
    ma ∈ db.world.tables.allMemories -> TaggedWith text ma a ->
    firstEntityName text ma = some na -> OfGroup text db.resolver c na ->
    mb ∈ db.world.tables.allMemories -> TaggedWith text mb b ->
    firstEntityName text mb = some nb -> ¬ OfGroup text db.resolver c nb

omit [Scalar F] in
/-- Linking only appends what was asked for. -/
theorem keeps_created (env : Env F) (requests : List (MemoryEdge F)) (t0 : Tables F) :
    Prog.Keeps (fun w : World F => exists created,
        w.tables.allEdges = t0.allEdges ++ created ∧ forall edge, edge ∈ created -> edge ∈ requests)
      (Prog.forEach requests (linkUnlessLinked env)) := by
  apply Prog.Keeps.forEach
  intro edge hedge
  apply Prog.Keeps.bind (Prog.keeps_gets _)
  intro linked
  apply Prog.triple_ite
  · intro _
    exact Prog.keeps_pure ()
  · intro _
    refine Prog.Keeps.bind (Prog.Keeps.attempt ?_) (fun _ => Prog.keeps_pure ())
    apply Prog.Keeps.bind
    · apply keeps_transact (fun _ _ _ h => h)
      intro w t h hrun
      rcases h with ⟨created, hedges, hcreated⟩
      cases hrun
      refine ⟨created ++ [edge], ?_, ?_⟩
      · show (w.tables.edges ++ [Tables.rowOfEdge edge]).map Tables.edgeOfRow = _
        rw [List.map_append, List.map_singleton, Tables.edgeOfRow_rowOfEdge]
        show w.tables.allEdges ++ [edge] = _
        rw [hedges, List.append_assoc]
      · intro e he
        rcases List.mem_append.mp he with he | he
        · exact hcreated e he
        · rw [List.mem_singleton.mp he]
          exact hedge
    · intro _
      exact keeps_onGraph (fun _ _ h => h)

theorem ofGroup_of_member {text : TextOps F} {db : EntityDatabase F} {c : String}
    {mem : MemoryNode F} (hmem : mem ∈ db.world.tables.allMemories)
    (h : GroupMember (db.resolver.known text) (buildEntityMemoryMap text db.world.tables) c
      mem.id) :
    exists n, firstEntityName text mem = some n ∧ OfGroup text db.resolver c n := by
  have hfirst : forall n,
      mem.id ∈ ((buildEntityMemoryMap text db.world.tables).find? n).getD [] ->
        firstEntityName text mem = some n := by
    intro n hn
    rcases (mem_buildEntityMemoryMap text).mp hn with ⟨mem', hmem', hname, hid⟩
    have hsame := Tables.mem_allMemories hmem'
    rw [hid, Tables.mem_allMemories hmem] at hsame
    rw [Option.some.inj hsame]
    exact hname
  rcases h with ⟨name, hknown, hid⟩ | hid
  · exact ⟨name, hfirst name hid, Or.inl (EntityResolver.gives_of_known hknown)⟩
  · exact ⟨c, hfirst c hid, Or.inr rfl⟩

theorem GroupsApart.linksApart {env : Env F} {db : EntityDatabase F} {a b : String}
    (h : GroupsApart env.text db a b) : LinksApart env db a b := by
  intro order
  have hrun := (keeps_created { env with hashOrder := order }
    (linkRequests order (db.resolver.known env.text)
      (buildEntityMemoryMap env.text db.world.tables) (env.clock db.world.ticks))
    db.world.tables).state (s := { db.world with ticks := db.world.ticks + 1 })
      ⟨[], by rw [List.append_nil], fun _ he => absurd he List.not_mem_nil⟩
  rcases hrun with ⟨created, hedges, hcreated⟩
  refine ⟨created, ?_, ?_⟩
  · show (Facade.linkEntities { env with hashOrder := order } (db.resolver.known env.text)
      db.world).2.tables.allEdges = _
    rw [linkEntities_eq]
    exact hedges
  · intro edge hedge hjoins
    rcases (linkRequests_pairs order (db.resolver.known env.text)
      (buildEntityMemoryMap env.text db.world.tables) (env.clock db.world.ticks) edge.source
      edge.target).mp ⟨edge, hcreated edge hedge, rfl, rfl⟩ with
        ⟨_, c, ⟨name, hname, hknown⟩, hsource, htarget⟩
    rcases (contains_buildEntityMemoryMap env.text db.world.tables name).mp hname with
      ⟨mem, hmem, hfirst⟩
    have hgiven := And.intro hmem (And.intro hfirst (EntityResolver.gives_of_known hknown))
    rcases hjoins with ⟨ma, mb, hma, hmb, htaga, htagb, hends⟩
    have hmembers : GroupMember (db.resolver.known env.text)
          (buildEntityMemoryMap env.text db.world.tables) c ma.id ∧
        GroupMember (db.resolver.known env.text)
          (buildEntityMemoryMap env.text db.world.tables) c mb.id := by
      rcases hends with ⟨hs, ht⟩ | ⟨hs, ht⟩
      · rw [hs] at hsource
        rw [ht] at htarget
        exact ⟨hsource, htarget⟩
      · rw [hs] at hsource
        rw [ht] at htarget
        exact ⟨htarget, hsource⟩
    rcases ofGroup_of_member hma hmembers.1 with ⟨na, hna, hgroupa⟩
    rcases ofGroup_of_member hmb hmembers.2 with ⟨nb, hnb, hgroupb⟩
    exact h c ma mb na nb ⟨mem, name, hgiven⟩ hma htaga hna hgroupa hmb htagb hnb hgroupb

/-!
## Runs
-/

/-- The run of calls after the names were marked as different. -/
def markedRun (env : Env F) (orders : Nat -> HashOrder) (before : EntityDatabase F)
    (a b : String) (calls : List (LinkingCall F)) : EntityDatabase F :=
  calls.foldl (EntityDatabase.step env orders)
    (before.step env orders (LinkingCall.resolver (ResolverCall.markDifferent a b)))

section Run

variable {env : Env F} {orders : Nat -> HashOrder} {a b : String}

omit [Scalar F] in
theorem markDifferent_foldl (text : TextOps F) (pairs : List (String × String))
    (r : EntityResolver F) :
    (pairs.foldl (fun r pair => r.markDifferent text pair.1 pair.2) r).aliases = r.aliases := by
  induction pairs generalizing r with
  | nil => rfl
  | cons pair rest ih => exact ih _

theorem aliases_step (db : EntityDatabase F) (call : LinkingCall F) :
    (db.step env orders call).resolver.aliases =
      (call.writes env.text).foldl TableWrite.apply db.resolver.aliases := by
  cases call with
  | linkEntities => rfl
  | store node => rfl
  | resolver call => exact aliases_after env.text db.resolver call
  | applyEntityLinkResolutions groups separations =>
      show (List.foldl _ (List.foldl _ db.resolver groups) separations).aliases = _
      rw [markDifferent_foldl]
      show _ = (groups.flatMap (fun group =>
        groupWrites env.text (group.mergeGroup env.text))).foldl TableWrite.apply
          db.resolver.aliases
      generalize db.resolver = r
      induction groups generalizing r with
      | nil => rfl
      | cons group rest ih =>
          rw [List.foldl_cons, ih, aliases_learnGroup, List.flatMap_cons, List.foldl_append]

theorem aliases_run (db : EntityDatabase F) (calls : List (LinkingCall F)) :
    (calls.foldl (EntityDatabase.step env orders) db).resolver.aliases =
      (calls.flatMap (LinkingCall.writes env.text)).foldl TableWrite.apply
        db.resolver.aliases := by
  induction calls generalizing db with
  | nil => rfl
  | cons call rest ih =>
      rw [List.foldl_cons, ih, aliases_step, List.flatMap_cons, List.foldl_append]

/-- The pairs that were marked stay marked. -/
def MarksKept (r r' : EntityResolver F) : Prop :=
  forall pair, r.negativePairs.contains pair = true -> r'.negativePairs.contains pair = true

omit [Scalar F] in
theorem MarksKept.trans {r s t : EntityResolver F} (h : MarksKept r s) (h' : MarksKept s t) :
    MarksKept r t := fun pair hpair => h' pair (h pair hpair)

omit [Scalar F] in
theorem marksKept_foldl {α : Type} {f : EntityResolver F -> α -> EntityResolver F}
    (hf : forall r x, MarksKept r (f r x)) (xs : List α) (r : EntityResolver F) :
    MarksKept r (xs.foldl f r) := by
  induction xs generalizing r with
  | nil => exact fun _ hpair => hpair
  | cons x rest ih => exact (hf r x).trans (ih (f r x))

omit [Scalar F] in
theorem marksKept_learnGroup (text : TextOps F) (r : EntityResolver F)
    (group : EntityMergeGroup F) : MarksKept r (r.learnGroup text group) := by
  refine MarksKept.trans (s := r.learn group.confidence _) (fun _ hpair => hpair)
    (marksKept_foldl ?_ group.aliases _)
  intro r' aliasName
  dsimp only
  split
  · exact fun _ hpair => hpair
  · exact fun _ hpair => hpair

omit [Scalar F] in
theorem marksKept_markDifferent (text : TextOps F) (r : EntityResolver F) (x y : String) :
    MarksKept r (r.markDifferent text x y) := by
  intro pair hpair
  unfold EntityResolver.markDifferent Assoc.insert
  rw [Assoc.contains_upsert, hpair, Bool.or_true]

omit [Scalar F] in
theorem marksKept_load {r loaded : EntityResolver F} {read : Except String (Snapshot F)}
    (h : r.load read = Except.ok loaded) : MarksKept r loaded := by
  unfold EntityResolver.load at h
  cases read with
  | error e => cases h
  | ok snapshot =>
      simp only [bind, Except.bind] at h
      split at h
      · cases h
      · cases h
        intro pair hpair
        show (snapshot.negativePairs.foldl (fun t p => t.insert p ())
          r.negativePairs).contains pair = true
        refine List.foldlRecOn (motive := fun t => Assoc.contains t pair = true)
          snapshot.negativePairs _ hpair ?_
        intro t ht p _
        unfold Assoc.insert
        rw [Assoc.contains_upsert, ht, Bool.or_true]

theorem marksKept_step (db : EntityDatabase F) (call : LinkingCall F) :
    MarksKept db.resolver (db.step env orders call).resolver := by
  cases call with
  | linkEntities => exact fun _ hpair => hpair
  | store node => exact fun _ hpair => hpair
  | applyEntityLinkResolutions groups separations =>
      exact (marksKept_foldl (fun r group => marksKept_learnGroup env.text r _) groups _).trans
        (marksKept_foldl (fun r pair => marksKept_markDifferent env.text r _ _) separations _)
  | resolver call =>
      show MarksKept db.resolver (db.resolver.after env.text call)
      cases call with
      | learn call =>
          cases call with
          | learnGroup group => exact marksKept_learnGroup env.text _ group
          | addAlias aliasName canonical confidence => exact fun _ hpair => hpair
      | markDifferent x y => exact marksKept_markDifferent env.text _ x y
      | load read =>
          cases hload : db.resolver.load read with
          | ok loaded =>
              have hafter : db.resolver.after env.text (ResolverCall.load read) = loaded := by
                simp only [EntityResolver.after, hload]
              rw [hafter]
              exact marksKept_load hload
          | error e =>
              have hafter : db.resolver.after env.text (ResolverCall.load read) = db.resolver := by
                simp only [EntityResolver.after, hload]
              rw [hafter]
              exact fun _ hpair => hpair

/-- After they were marked, the names are on record as different in every state. -/
theorem isKnownDifferent_markedRun (before : EntityDatabase F) (calls : List (LinkingCall F)) :
    (markedRun env orders before a b calls).resolver.isKnownDifferent env.text a b = true := by
  unfold markedRun EntityResolver.isKnownDifferent
  have hmarked : (before.step env orders
      (LinkingCall.resolver (ResolverCall.markDifferent a b))).resolver.negativePairs.contains
        (EntityResolver.negativeKey env.text a b) = true := by
    show (Assoc.insert before.resolver.negativePairs _ ()).contains _ = true
    unfold Assoc.insert
    rw [Assoc.contains_upsert, decide_eq_true rfl, Bool.true_or]
  generalize before.step env orders
    (LinkingCall.resolver (ResolverCall.markDifferent a b)) = db at hmarked
  induction calls generalizing db with
  | nil => exact hmarked
  | cons call rest ih => exact ih _ (marksKept_step db call _ hmarked)

/-- Nothing that the table holds before the run or that a call of the run writes is open to
both names, nor to the first names of memories that carry them. -/
structure NeverJoined (env : Env F) (orders : Nat -> HashOrder) (before : EntityDatabase F)
    (a b : String) (calls : List (LinkingCall F)) : Prop where
  names : KeptApart env.text before.resolver.aliases
    (calls.flatMap (LinkingCall.writes env.text)) a b
  groups : forall ma, ma ∈ (markedRun env orders before a b calls).world.tables.allMemories ->
    TaggedWith env.text ma a ->
    forall mb, mb ∈ (markedRun env orders before a b calls).world.tables.allMemories ->
    TaggedWith env.text mb b ->
    forall na, na ∈ firstEntityName env.text ma -> forall nb, nb ∈ firstEntityName env.text mb ->
      KeptApart env.text before.resolver.aliases
        (calls.flatMap (LinkingCall.writes env.text)) na nb

/-- What is kept apart by the table before the run and the writes of its calls is apart in
the state reached. -/
theorem KeptApart.markedRun {before : EntityDatabase F} {calls : List (LinkingCall F)}
    {na nb : String}
    (h : KeptApart env.text before.resolver.aliases
      (calls.flatMap (LinkingCall.writes env.text)) na nb) :
    Apart env.text (markedRun env orders before a b calls).resolver.aliases na nb := by
  have hrun := h.after
  unfold Facade.markedRun
  rw [aliases_run]
  exact hrun

end Run

namespace EntityResolver

variable {text : TextOps F} {r : EntityResolver F}

omit [Scalar F] in
theorem Gives.mem_openNames {n c : String} (h : r.Gives (normalizeEntity text n) c) :
    c ∈ openNames text r.aliases n := by
  rw [Facade.mem_openNames]
  rcases h with hentry | ⟨hnone, hmatch⟩
  · exact Or.inr (Or.inr (Or.inl hentry))
  · refine Or.inr (Or.inr (Or.inr ⟨hnone, hmatch.inUse, ?_⟩))
    unfold matchesByWords
    rw [decide_eq_true hmatch.words, decide_eq_true hmatch.other, hmatch.comparable]
    rfl

/-- A name resolves to something that is open to it. -/
theorem canonical_mem_openNames (text : TextOps F) (r : EntityResolver F) (name : String) :
    (r.resolve text name).canonical ∈ openNames text r.aliases name := by
  have hleads : (r.resolve text name).canonical = (r.resolve text name).canonical := rfl
  rcases canonical_eq_iff_leadsTo.mp hleads with hgives | ⟨_, _, hself⟩
  · exact hgives.mem_openNames
  · rw [← hself, Facade.mem_openNames]
    exact Or.inr (Or.inl rfl)

end EntityResolver

omit [Scalar F] in
theorem OfGroup.mem_openNames {text : TextOps F} {r : EntityResolver F} {c n : String}
    (h : OfGroup text r c n) : c ∈ openNames text r.aliases n := by
  rcases h with hgives | hself
  · exact hgives.mem_openNames
  · rw [hself, Facade.mem_openNames]
    exact Or.inl rfl

/-- Names that were marked as different are on record in every state after, and stay apart
when no call of the run joins them. -/
theorem names_stay_apart {env : Env F} {orders : Nat -> HashOrder} {before : EntityDatabase F}
    {a b : String} {calls : List (LinkingCall F)}
    (h : NeverJoined env orders before a b calls) :
    (markedRun env orders before a b calls).resolver.isKnownDifferent env.text a b = true ∧
      StayApart env (markedRun env orders before a b calls) a b := by
  refine ⟨isKnownDifferent_markedRun before calls, ?_, GroupsApart.linksApart ?_⟩
  · intro hsame
    have hleft := EntityResolver.canonical_mem_openNames env.text
      (markedRun env orders before a b calls).resolver a
    rw [hsame] at hleft
    exact h.names.markedRun _ hleft (EntityResolver.canonical_mem_openNames env.text _ b)
  · intro c ma mb na nb _ hma htaga hna hgroupa hmb htagb hnb hgroupb
    exact (h.groups ma hma htaga mb hmb htagb na hna nb hnb).markedRun c
      hgroupa.mem_openNames hgroupb.mem_openNames

/-- Names of two people; the table has the full name of one of them. -/
def beforeMark : EntityDatabase Rat :=
  afterCalls namingEnv
    [LinkingCall.store (entityMemory 1 "al"),
      LinkingCall.resolver (ResolverCall.learn (LearnCall.learnGroup ⟨"alice smith", ["al"], 1⟩))]

/-- A saved table that has another name for {lit}`al`, which is not taken over. -/
def otherNames : Snapshot Rat where
  version := 2
  aliases := Assoc.empty.insert "al" "bob jones"
  confidence := Assoc.empty
  negativePairs := []

def laterCalls : List (LinkingCall Rat) :=
  [LinkingCall.store (entityMemory 2 "bob"),
    LinkingCall.resolver (ResolverCall.load (Except.ok otherNames)),
    LinkingCall.applyEntityLinkResolutions [⟨"bob jones", ["bob", "Bob  Jones"], 9 / 10⟩]
      [("bob", "alice smith")],
    LinkingCall.store (entityMemory 3 "alice smith"),
    LinkingCall.resolver (ResolverCall.learn (LearnCall.addAlias "ally" "alice smith" 1)),
    LinkingCall.linkEntities]

theorem neverJoined_laterCalls :
    NeverJoined namingEnv (fun _ => HashOrder.insertion) beforeMark "al" "bob" laterCalls := by
  constructor
  · decide +kernel
  · decide +kernel

/-- Both people have got their full names, and the memories of one of them are linked. -/
theorem names_stay_apart_people :
    (markedRun namingEnv (fun _ => HashOrder.insertion) beforeMark "al" "bob"
        laterCalls).world.tables.edges.length = 1 ∧
      (markedRun namingEnv (fun _ => HashOrder.insertion) beforeMark "al" "bob"
        laterCalls).resolver.isKnownDifferent trimmedText "al" "bob" = true ∧
      StayApart namingEnv (markedRun namingEnv (fun _ => HashOrder.insertion) beforeMark "al"
        "bob" laterCalls) "al" "bob" :=
  ⟨by decide +kernel, names_stay_apart neverJoined_laterCalls⟩

/-- A name and a longer one, marked as different after the longer one was learned. -/
def markedCalls : List (LinkingCall Rat) :=
  [LinkingCall.store (entityMemory 1 "a"), LinkingCall.store (entityMemory 2 "a b"),
    LinkingCall.resolver (ResolverCall.learn (LearnCall.learnGroup ⟨"a b", [], 1⟩)),
    LinkingCall.resolver (ResolverCall.markDifferent "a" "a b")]

/-- The rules match names that are marked, and their memories are linked. -/
theorem marked_names_are_joined :
    (afterCalls namingEnv markedCalls).resolver.isKnownDifferent trimmedText "a" "a b" = true ∧
      ((afterCalls namingEnv markedCalls).linkEntities namingEnv
        HashOrder.insertion).world.tables.edges.length = 1 ∧
      ¬ StayApart namingEnv (afterCalls namingEnv markedCalls) "a" "a b" := by
  refine ⟨by decide +kernel, by decide +kernel, ?_⟩
  intro h
  apply h.resolved
  decide +kernel

end Different

end Facade
end MenteDb
