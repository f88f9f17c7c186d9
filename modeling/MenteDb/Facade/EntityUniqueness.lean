import MenteDb.Facade.Reindexing

/-!
# One entity for one name

Whether an entity exists already is decided by its exact name: two spellings of a name
that a batch would take for one become two entities when they come in two calls.  As
long as no call brings a new spelling of a stored name, the entities stay unique.
-/

namespace MenteDb
namespace Facade

open Foundation
open Sqlite
open Cognitive

variable {F : Type}

/-!
## Unique names
-/

/-- Two rows of one type whose names differ only in white space and case. -/
def SameName (text : TextOps F) (a b : EntityRow F) : Prop :=
  a.entityType = b.entityType ∧
    normalizeEntityKey text a.canonical = normalizeEntityKey text b.canonical

def UniqueEntities (text : TextOps F) (entities : Assoc String (EntityRow F)) : Prop :=
  forall id id' row row', entities.find? id = some row -> entities.find? id' = some row' ->
    SameName text row row' -> id = id'

/-- The record for a name: it has the type and the name, and it is the stored one if
there is one. -/
structure RecordFor (t : Tables F) (name : String × String) (record : EntityRecord F) : Prop where
  entityType : record.2.entityType = name.1
  canonical : record.2.canonical = name.2
  stored : forall found, t.entityByCanonical name.1 name.2 = some found -> record.1 = found.1

/-- A name that is not stored as it is, is not stored in another spelling either. -/
def NoTwin (text : TextOps F) (t : Tables F) (name : String × String) : Prop :=
  t.entityByCanonical name.1 name.2 = none -> forall id row, t.entities.find? id = some row ->
    row.entityType = name.1 ->
      normalizeEntityKey text row.canonical ≠ normalizeEntityKey text name.2

theorem entityByCanonical_some {t : Tables F} {entityType canonical : String}
    {record : EntityRecord F} (h : t.entityByCanonical entityType canonical = some record) :
    t.entities.find? record.1 = some record.2 ∧ record.2.entityType = entityType ∧
      record.2.canonical = canonical := by
  unfold Tables.entityByCanonical at h
  have hmem := List.mem_of_mem_head? (Option.mem_def.mpr h)
  rw [List.mem_insertionSort] at hmem
  rcases List.mem_filter.mp hmem with ⟨hentry, hnames⟩
  rw [Bool.and_eq_true, decide_eq_true_eq, decide_eq_true_eq] at hnames
  exact ⟨Assoc.find?_eq_some_iff.mpr hentry, hnames⟩

/-- A row after some records have been written is one of them, up to the time of its
creation, or an old row that none of them has overwritten. -/
theorem find?_upsertEntities {records : List (EntityRecord F)}
    {entities : Assoc String (EntityRow F)} {id : String} {row : EntityRow F}
    (h : (Tables.upsertEntities records entities).find? id = some row) :
    (exists record, record ∈ records ∧ record.1 = id ∧ row.entityType = record.2.entityType ∧
      row.canonical = record.2.canonical) ∨
      id ∉ records.map Prod.fst ∧ entities.find? id = some row := by
  induction records generalizing entities with
  | nil => exact Or.inr ⟨List.not_mem_nil, h⟩
  | cons record rest ih =>
      unfold Tables.upsertEntities at h ih
      rw [List.foldl_cons] at h
      cases ih h with
      | inl hwritten =>
          rcases hwritten with ⟨r, hr, hid⟩
          exact Or.inl ⟨r, List.mem_cons_of_mem record hr, hid⟩
      | inr hold =>
          rcases hold with ⟨hnot, hfind⟩
          rw [Assoc.find?_upsert] at hfind
          by_cases hid : id = record.1
          · rw [if_pos hid] at hfind
            cases hfind
            exact Or.inl ⟨record, List.mem_cons_self, hid.symm, rfl, rfl⟩
          · rw [if_neg hid] at hfind
            refine Or.inr ⟨?_, hfind⟩
            rw [List.map_cons, List.mem_cons]
            intro hmem
            cases hmem with
            | inl heq => exact hid heq
            | inr hin => exact hnot hin

/-- Records for names without a twin, no two of them for one entity, keep the entities
unique. -/
theorem unique_upsertEntities {text : TextOps F} {t : Tables F} {records : List (EntityRecord F)}
    (hunique : UniqueEntities text t.entities)
    (hrecords : forall record, record ∈ records -> exists name, RecordFor t name record ∧
      NoTwin text t name)
    (hdistinct : forall r r', r ∈ records -> r' ∈ records -> SameName text r.2 r'.2 ->
      r.1 = r'.1) :
    UniqueEntities text (Tables.upsertEntities records t.entities) := by
  -- an old row with the name of a record is the stored row the record was made from
  have hmixed : forall r id row, r ∈ records -> id ∉ records.map Prod.fst ->
      t.entities.find? id = some row -> ¬ SameName text r.2 row := by
    intro r id row hr hid hrow hsame
    rcases hrecords r hr with ⟨name, hrecord, hnoTwin⟩
    rw [SameName, hrecord.entityType, hrecord.canonical] at hsame
    cases hfound : t.entityByCanonical name.1 name.2 with
    | none => exact hnoTwin hfound id row hrow hsame.1.symm hsame.2.symm
    | some found =>
        rcases entityByCanonical_some hfound with ⟨hstored, htype, hcanonical⟩
        have heq : id = found.1 := by
          apply hunique id found.1 row found.2 hrow hstored
          rw [SameName, htype, hcanonical]
          exact ⟨hsame.1.symm, hsame.2.symm⟩
        rw [← hrecord.stored found hfound] at heq
        rw [heq] at hid
        exact hid (List.mem_map_of_mem hr)
  intro id id' row row' hrow hrow' hsame
  cases find?_upsertEntities hrow with
  | inl hnew =>
      rcases hnew with ⟨r, hr, hid, htype, hcanonical⟩
      rw [SameName, htype, hcanonical] at hsame
      cases find?_upsertEntities hrow' with
      | inl hnew' =>
          rcases hnew' with ⟨r', hr', hid', htype', hcanonical'⟩
          rw [htype', hcanonical'] at hsame
          rw [← hid, ← hid']
          exact hdistinct r r' hr hr' hsame
      | inr hold' => exact absurd hsame (hmixed r id' row' hr hold'.1 hold'.2)
  | inr hold =>
      cases find?_upsertEntities hrow' with
      | inl hnew' =>
          rcases hnew' with ⟨r', hr', hid', htype', hcanonical'⟩
          rw [SameName, htype', hcanonical'] at hsame
          exact absurd ⟨hsame.1.symm, hsame.2.symm⟩ (hmixed r' id row hr' hold.1 hold.2)
      | inr hold' => exact hunique id id' row row' hold.2 hold'.2 hsame

/-!
## Mentions
-/

section Mentions

variable [Scalar F]

theorem recordFor_entityRecordFor (env : Env F) (t : Tables F) (ticks : Nat) (now : Timestamp)
    (mention : ExtractedEntity F × Nat) :
    RecordFor t (mention.1.entityType, mention.1.canonical)
      (entityRecordFor env t ticks now mention) := by
  unfold entityRecordFor
  cases hfind : t.entityByCanonical mention.1.entityType mention.1.canonical with
  | none =>
      refine ⟨rfl, rfl, ?_⟩
      intro found hfound
      rw [hfind] at hfound
      cases hfound
  | some record =>
      rcases entityByCanonical_some hfind with ⟨_, htype, hcanonical⟩
      refine ⟨htype, hcanonical, ?_⟩
      intro found hfound
      rw [hfind] at hfound
      cases hfound
      rfl

omit [Scalar F] in
theorem eq_of_mem_zipIdx {α β : Type} {f : α -> β} {xs : List α} (h : (xs.map f).Nodup)
    {a b : α × Nat} (ha : a ∈ xs.zipIdx) (hb : b ∈ xs.zipIdx) (hf : f a.1 = f b.1) : a = b := by
  rw [List.mem_zipIdx_iff_getElem?] at ha hb
  have hkeys : (xs.map f)[a.2]? = (xs.map f)[b.2]? := by
    rw [List.getElem?_map, List.getElem?_map, ha, hb, Option.map_some, Option.map_some, hf]
  rcases List.getElem?_eq_some_iff.mp ha with ⟨hbound, _⟩
  have hbound' : a.2 < (xs.map f).length := by
    rw [List.length_map]
    exact hbound
  have hindex : a.2 = b.2 := (List.getElem?_inj hbound' h).mp hkeys
  rw [hindex, hb] at ha
  exact Prod.ext (Option.some.inj ha).symm hindex

/-- Mentions with one type and one name up to white space and case are one mention. -/
theorem mention_eq_of_sameName (env : Env F) (node : MemoryNode F) {a b : ExtractedEntity F × Nat}
    (ha : a ∈ (env.withSurfaceLinker.extractMemory node).zipIdx)
    (hb : b ∈ (env.withSurfaceLinker.extractMemory node).zipIdx)
    (htype : a.1.entityType = b.1.entityType)
    (hname : normalizeEntityKey env.withSurfaceLinker.text a.1.canonical =
      normalizeEntityKey env.withSurfaceLinker.text b.1.canonical) : a = b := by
  apply eq_of_mem_zipIdx (nodup_mentionKeys env.text env.hashOrder
    env.config.entityExtractionConfig node.content node.tags) ha hb
  have hfoldedA := folded_extractText (List.fst_mem_of_mem_zipIdx ha)
  have hfoldedB := folded_extractText (List.fst_mem_of_mem_zipIdx hb)
  have hlower : env.text.toLowercase a.1.canonical = env.text.toLowercase b.1.canonical := by
    unfold normalizeEntityKey at hname
    unfold Folded at hfoldedA hfoldedB
    have htext : env.withSurfaceLinker.text = env.text.atWhitespace := rfl
    rw [htext, hfoldedA, hfoldedB] at hname
    exact hname
  unfold mentionKey
  rw [htype]
  show _ ++ env.text.toLowercase a.1.canonical = _ ++ env.text.toLowercase b.1.canonical
  rw [hlower]

/-- The mentions of a memory have no twins. -/
def MentionsWithoutTwin (env : Env F) (t : Tables F) (node : MemoryNode F) : Prop :=
  forall m, m ∈ env.extractMemory node -> NoTwin env.text t (m.entityType, m.canonical)

theorem unique_linkTransaction {env : Env F} {node : MemoryNode F} {ticks : Nat}
    {now : Timestamp} {t t' : Tables F}
    (hunique : UniqueEntities env.withSurfaceLinker.text t.entities)
    (hmentions : MentionsWithoutTwin env.withSurfaceLinker t node)
    (h : linkTransaction node (mentionRecords env.withSurfaceLinker t ticks now node) t =
      Except.ok t') : UniqueEntities env.withSurfaceLinker.text t'.entities := by
  rw [(Tables.replaceMemoryEntityBundle_ok h).1]
  have hmem : forall record, record ∈ (mentionRecords env.withSurfaceLinker t ticks now node).map
      Prod.snd -> exists m, m ∈ (env.withSurfaceLinker.extractMemory node).zipIdx ∧
        record = entityRecordFor env.withSurfaceLinker t ticks now m := by
    intro record hrecord
    rcases List.mem_map.mp hrecord with ⟨pair, hpair, heq⟩
    rcases List.mem_map.mp hpair with ⟨m, hm, heq'⟩
    subst heq heq'
    exact ⟨m, hm, rfl⟩
  apply unique_upsertEntities hunique
  · intro record hrecord
    rcases hmem record hrecord with ⟨m, hm, heq⟩
    rw [heq]
    exact ⟨_, recordFor_entityRecordFor _ t ticks now m,
      hmentions m.1 (List.fst_mem_of_mem_zipIdx hm)⟩
  · intro r r' hr hr' hsame
    rcases hmem r hr with ⟨m, hm, heq⟩
    rcases hmem r' hr' with ⟨m', hm', heq'⟩
    have hrecord := recordFor_entityRecordFor env.withSurfaceLinker t ticks now m
    have hrecord' := recordFor_entityRecordFor env.withSurfaceLinker t ticks now m'
    rw [heq, heq', SameName, hrecord.entityType, hrecord'.entityType, hrecord.canonical,
      hrecord'.canonical] at hsame
    rw [heq, heq', mention_eq_of_sameName env node hm hm' hsame.1 hsame.2]

omit [Scalar F] in
/-- What leaves the entities alone keeps them unique. -/
theorem keeps_unique_of_sameEntities {α : Type} {text : TextOps F} {x : Op F α}
    (h : forall t, Prog.Keeps (fun w => SameEntities t w.tables) x) :
    Prog.Keeps (fun w => UniqueEntities text w.tables.entities) x := by
  intro w hw
  have hpost := h w.tables w (SameEntities.refl _)
  rcases hrun : x w with ⟨result, w'⟩
  rw [hrun] at hpost
  cases result with
  | ok a =>
      show UniqueEntities text w'.tables.entities
      rw [hpost.1]
      exact hw
  | error e =>
      show UniqueEntities text w'.tables.entities
      rw [hpost.1]
      exact hw

theorem unique_indexMemoryEntities {env : Env F} {node : MemoryNode F} {w : World F}
    (hunique : UniqueEntities env.withSurfaceLinker.text w.tables.entities)
    (hmentions : MentionsWithoutTwin env.withSurfaceLinker w.tables node) :
    UniqueEntities env.withSurfaceLinker.text
      (indexMemoryEntities env.withSurfaceLinker node w).2.tables.entities := by
  by_cases hindexes : Indexes env.withSurfaceLinker node w.ticks
  · unfold indexMemoryEntities
    rw [if_pos hindexes.1, tables_persistExtractedEntities]
    unfold transact
    simp only [hindexes.2]
    cases hlink : linkTransaction node (mentionRecords env.withSurfaceLinker w.tables
        (indexingTick env.withSurfaceLinker node w.ticks) (env.withSurfaceLinker.clock w.ticks)
        node) w.tables with
    | error e => exact hunique
    | ok t => exact unique_linkTransaction hunique hmentions hlink
  · rw [(sameEntities_of_not_indexes hindexes).1]
    exact hunique

omit [Scalar F] in
theorem SameEntities.noTwin {text : TextOps F} {t t' : Tables F} (h : SameEntities t t')
    {name : String × String} (hname : NoTwin text t name) : NoTwin text t' name := by
  unfold NoTwin Tables.entityByCanonical at hname ⊢
  rw [h.1]
  exact hname

theorem unique_store {env : Env F} {node : MemoryNode F} {w : World F}
    (hunique : UniqueEntities env.withSurfaceLinker.text w.tables.entities)
    (hmentions : MentionsWithoutTwin env.withSurfaceLinker w.tables node) :
    UniqueEntities env.withSurfaceLinker.text
      (store env.withSurfaceLinker node w).2.tables.entities := by
  have hsame : forall v : World F, SameEntities w.tables v.tables ->
      UniqueEntities env.withSurfaceLinker.text v.tables.entities := by
    intro v hv
    rw [hv.1]
    exact hunique
  have htriple : Prog.Triple (fun v => SameEntities w.tables v.tables)
      (store env.withSurfaceLinker node)
      (fun _ v => UniqueEntities env.withSurfaceLinker.text v.tables.entities)
      (fun v => UniqueEntities env.withSurfaceLinker.text v.tables.entities) := by
    apply Prog.Triple.bind
      ((keeps_provision_sameEntities [node]).weaken (fun _ hv => hv) (fun _ _ hv => hv) hsame)
    intro _
    apply Prog.Triple.bind ((storeClosed_sameEntities.keeps_dbStoreMemory node).weaken
      (fun _ hv => hv) (fun _ _ hv => hv) hsame)
    intro _
    apply Prog.Triple.bind (Q := fun _ v => SameEntities w.tables v.tables)
    · intro v hv
      exact hv
    intro _
    refine Prog.Triple.bind (Prog.Triple.attempt (Q := fun v =>
      UniqueEntities env.withSurfaceLinker.text v.tables.entities) ?_) ?_
    · apply Prog.triple_of_states
      intro v hv
      exact unique_indexMemoryEntities (hsame v hv)
        (fun m hm => hv.noTwin (hmentions m hm))
    · intro _
      apply Prog.triple_ite
      · intro _
        exact keeps_unique_of_sameEntities
          (fun _ => inferenceClosed_sameEntities.keeps_runWriteInference node)
      · intro _
        exact Prog.keeps_pure ()
  exact htriple.state (SameEntities.refl _)

end Mentions

/-!
## Extracted names
-/

/-- The first of the names that normalize to the same key. -/
def FirstOf (text : TextOps F) (names : List (String × String)) (name : String × String) : Prop :=
  exists before after, names = before ++ name :: after ∧
    forall earlier, earlier ∈ before ->
      normalizeEntityKey text earlier.2 ≠ normalizeEntityKey text name.2

theorem FirstOf.append {text : TextOps F} {names : List (String × String)}
    {name : String × String} (h : FirstOf text names name) (more : List (String × String)) :
    FirstOf text (names ++ more) name := by
  rcases h with ⟨before, after, hnames, hfirst⟩
  refine ⟨before, after ++ more, ?_, hfirst⟩
  rw [hnames, List.append_assoc, List.cons_append]

/-- Every entity of a batch is the record for the first name that has its key. -/
structure Registered (ctx : BuildContext F) (asked : List (String × String))
    (s : ExtractionBuild F) : Prop where
  keys : forall name, name ∈ asked ->
    exists record, s.entitiesByKey.find? (normalizeEntityKey ctx.text name.2) = some record
  first : forall key record, s.entitiesByKey.find? key = some record ->
    exists name, FirstOf ctx.text asked name ∧ RecordFor ctx.tables name record ∧
      key = normalizeEntityKey ctx.text name.2

/-- The record that is registered for a name is the record for the first name with its
key: the name of the record that the batch has, or the name itself. -/
theorem Registered.identified {ctx : BuildContext F} {asked : List (String × String)}
    {s : ExtractionBuild F} (h : Registered ctx asked s) {entityType canonical : String}
    {record : EntityRecord F}
    (hid : Identified ctx s entityType canonical record.1 record.2.entityType
      record.2.canonical) :
    exists name, FirstOf ctx.text (asked ++ [(entityType, canonical)]) name ∧
      RecordFor ctx.tables name record ∧
        normalizeEntityKey ctx.text canonical = normalizeEntityKey ctx.text name.2 := by
  have hfresh : s.entitiesByKey.find? (normalizeEntityKey ctx.text canonical) = none ->
      FirstOf ctx.text (asked ++ [(entityType, canonical)]) (entityType, canonical) := by
    intro hnone
    refine ⟨asked, [], rfl, ?_⟩
    intro earlier hearlier hkey
    rcases h.keys earlier hearlier with ⟨other, hother⟩
    rw [hkey, hnone] at hother
    cases hother
  generalize hrecordId : record.1 = recordId at hid
  generalize hrecordType : record.2.entityType = recordType at hid
  generalize hrecordName : record.2.canonical = recordName at hid
  cases hid with
  | known hknown =>
      rcases h.first _ _ hknown with ⟨name, hfirst, hfor, hkey⟩
      refine ⟨name, hfirst.append _, ⟨?_, ?_, ?_⟩, hkey⟩
      · exact hrecordType.trans hfor.entityType
      · exact hrecordName.trans hfor.canonical
      · intro found hfound
        exact hrecordId.trans (hfor.stored found hfound)
  | loaded hnone hfound =>
      rcases entityByCanonical_some hfound with ⟨_, htype, hcanonical⟩
      refine ⟨_, hfresh hnone, ⟨?_, ?_, ?_⟩, rfl⟩
      · exact hrecordType.trans htype
      · exact hrecordName.trans hcanonical
      · intro found hfound'
        rw [hfound] at hfound'
        cases hfound'
        exact hrecordId
  | created hnone hmissing =>
      refine ⟨_, hfresh hnone, ⟨hrecordType, hrecordName, ?_⟩, rfl⟩
      intro found hfound
      rw [hmissing] at hfound
      cases hfound

theorem buildClosed_registered (ctx : BuildContext F) : BuildClosed ctx (Registered ctx) where
  views := by
    intro asked s s' hkeys _ hs
    constructor
    · intro name hname
      rw [hkeys]
      exact hs.keys name hname
    · intro key record hfind
      rw [hkeys] at hfind
      exact hs.first key record hfind
  register := by
    intro asked s entityType canonical record hid hs
    have hnew := hs.identified hid
    constructor
    · intro name hname
      show exists r, (s.entitiesByKey.insert (normalizeEntityKey ctx.text canonical)
        record).find? (normalizeEntityKey ctx.text name.2) = some r
      rw [Assoc.find?_insert]
      split
      · exact ⟨record, rfl⟩
      · rename_i hne
        cases List.mem_append.mp hname with
        | inl hold => exact hs.keys name hold
        | inr hlast =>
            rw [List.mem_singleton.mp hlast] at hne
            exact absurd rfl hne
    · intro key other hfind
      rw [Assoc.find?_insert] at hfind
      split at hfind
      · rename_i heq
        cases hfind
        rw [heq]
        exact hnew
      · rcases hs.first key other hfind with ⟨name, hfirst, hfor, hkey⟩
        exact ⟨name, hfirst.append _, hfor, hkey⟩
  link := by
    intro asked s entityId role confidence evidence hs
    unfold pushMemoryEntityLink
    simp only
    split
    · exact hs
    · exact ⟨hs.keys, hs.first⟩

section Extraction

variable [Scalar F]

/-- The names a call asks for first have no twins. -/
def NamesWithoutTwin (env : Env F) (t : Tables F) (result : Schema.ExtractionResult F) : Prop :=
  forall name, FirstOf env.text (resultNames env.text result) name -> NoTwin env.text t name

/-- The entities of a finished build are the records for the names of the result. -/
theorem registered_buildExtraction {ctx : BuildContext F} {result : Schema.ExtractionResult F}
    {built : ExtractionBuild F}
    (hbuild : buildExtraction ctx result (ExtractionBuild.new 1) = (Except.ok (), built)) :
    Registered ctx (resultNames ctx.text result) built := by
  have hstart : Registered ctx [] (ExtractionBuild.new 1) := by
    constructor
    · intro name hname
      cases hname
    · intro key record hfind
      cases hfind
  have hend := (buildClosed_registered ctx).asks_buildExtraction result [] _ hstart
  rw [hbuild] at hend
  exact hend

theorem unique_batch {ctx : BuildContext F} {result : Schema.ExtractionResult F}
    {built : ExtractionBuild F} (order : HashOrder) (options : ExtractionStoreOptions)
    (hunique : UniqueEntities ctx.text ctx.tables.entities)
    (hnames : forall name, FirstOf ctx.text (resultNames ctx.text result) name ->
      NoTwin ctx.text ctx.tables name)
    (hbuild : buildExtraction ctx result (ExtractionBuild.new 1) = (Except.ok (), built)) :
    UniqueEntities ctx.text (Tables.upsertEntities
      (built.batch ctx order options result).entities ctx.tables.entities) := by
  have hregistered := registered_buildExtraction hbuild
  have hmem : forall record, record ∈ (built.batch ctx order options result).entities ->
      exists key, built.entitiesByKey.find? key = some record := by
    intro record hrecord
    have hvalues := (HashOrder.mem_order order).mp hrecord
    rcases List.mem_map.mp hvalues with ⟨entry, hentry, heq⟩
    subst heq
    exact ⟨entry.1, Assoc.find?_eq_some_iff.mpr hentry⟩
  apply unique_upsertEntities hunique
  · intro record hrecord
    rcases hmem record hrecord with ⟨key, hfind⟩
    rcases hregistered.first key record hfind with ⟨name, hfirst, hfor, _⟩
    exact ⟨name, hfor, hnames name hfirst⟩
  · intro r r' hr hr' hsame
    rcases hmem r hr with ⟨key, hfind⟩
    rcases hmem r' hr' with ⟨key', hfind'⟩
    rcases hregistered.first key r hfind with ⟨name, _, hfor, hkey⟩
    rcases hregistered.first key' r' hfind' with ⟨name', _, hfor', hkey'⟩
    have heq : key = key' := by
      rw [hkey, hkey', ← hfor.canonical, ← hfor'.canonical]
      exact hsame.2
    rw [heq, hfind'] at hfind
    rw [Option.some.inj hfind]

theorem unique_storeExtractionResult {env : Env F} {json : JsonOps} {id : MemoryId}
    {result : Schema.ExtractionResult F} {options : ExtractionStoreOptions} {w : World F}
    (hunique : UniqueEntities env.text w.tables.entities)
    (hnames : NamesWithoutTwin env w.tables result) :
    UniqueEntities env.text
      (storeExtractionResult env json id result options w).2.tables.entities := by
  have hsame : forall v : World F, v.tables = w.tables ->
      UniqueEntities env.text v.tables.entities := by
    intro v hv
    rw [hv]
    exact hunique
  have htriple : Prog.Triple (fun v => v.tables = w.tables)
      (storeExtractionResult env json id result options)
      (fun _ v => UniqueEntities env.text v.tables.entities)
      (fun v => UniqueEntities env.text v.tables.entities) := by
    apply Prog.Triple.bind (Q := fun _ v => v.tables = w.tables)
    · intro v hv
      unfold getMemory
      cases v.tables.getMemory id with
      | none => exact hsame v hv
      | some node => exact hv
    intro source
    apply Prog.Triple.bind (Q := fun _ v => v.tables = w.tables)
    · intro v hv
      exact hv
    intro now
    apply Prog.Triple.bind (Q := fun ctx v => v.tables = w.tables ∧ ctx.tables = w.tables ∧
      ctx.text = env.text)
    · exact Prog.triple_gets (fun v hv => ⟨hv, hv, rfl⟩)
    intro ctx v hv
    rcases hv with ⟨hv, htables, htext⟩
    rcases hbuild : buildExtraction ctx result (ExtractionBuild.new 1) with ⟨outcome, built⟩
    cases outcome with
    | error e => exact hsame v hv
    | ok _ =>
        have hpersist : Prog.Triple (fun v => v.tables = w.tables)
            (storeValidatedExtraction env json (built.batch ctx env.hashOrder options result))
            (fun _ v => UniqueEntities env.text v.tables.entities)
            (fun v => UniqueEntities env.text v.tables.entities) := by
          unfold storeValidatedExtraction
          split
          · exact Prog.triple_fail.weaken hsame (fun _ _ h => h) (fun _ h => h)
          · apply Prog.triple_of_states
            intro v hv
            unfold transact
            split
            · exact hsame v hv
            · split
              · exact hsame v hv
              · rename_i t hrun
                rw [hv] at hrun
                show UniqueEntities env.text t.entities
                rw [(sameLinks_of_claims hrun).1, ← htext, ← htables]
                unfold NamesWithoutTwin at hnames
                rw [← htext] at hunique hnames
                rw [← htables] at hunique hnames
                exact unique_batch env.hashOrder options hunique hnames hbuild
        have hemit : Prog.Keeps (fun v : World F => UniqueEntities env.text v.tables.entities)
            (emitLifecycleEvent env) :=
          keeps_unique_of_sameEntities (fun _ => storeClosed_sameEntities.rewrites.keeps_emit)
        exact Prog.Triple.bind hpersist (fun _ => Prog.Keeps.bind hemit
          (fun _ => Prog.keeps_pure (built.report ctx.runId))) v hv
  exact htriple.state rfl

end Extraction

/-!
## Runs of both writers
-/

inductive EntityCall (F : Type) where
  | store (node : MemoryNode F)
  | storeExtractionResult (json : JsonOps) (id : MemoryId) (result : Schema.ExtractionResult F)
      (options : ExtractionStoreOptions)

namespace EntityCall

variable [Scalar F]

def step (env : Env F) (w : World F) : EntityCall F -> World F
  | store node => (Facade.store env node w).2
  | storeExtractionResult json id result options =>
      (Facade.storeExtractionResult env json id result options w).2

/-- No name the call would create an entity for is stored in another spelling. -/
def WithoutTwin (env : Env F) (w : World F) : EntityCall F -> Prop
  | store node => MentionsWithoutTwin env w.tables node
  | storeExtractionResult _ _ result _ => NamesWithoutTwin env w.tables result

end EntityCall

/-- In every run of stores and extractions none of which brings a new spelling of a
stored name, the entities stay unique. -/
theorem entities_stay_unique [Scalar F] (env : Env F) {w w' : World F}
    {calls : List (EntityCall F)}
    (hrun : Run (EntityCall.step env.withSurfaceLinker)
      (EntityCall.WithoutTwin env.withSurfaceLinker) w calls w')
    (hw : UniqueEntities env.withSurfaceLinker.text w.tables.entities) :
    UniqueEntities env.withSurfaceLinker.text w'.tables.entities := by
  refine hrun.invariant (I := fun v =>
    UniqueEntities env.withSurfaceLinker.text v.tables.entities) ?_ hw
  intro v call hv hcall
  cases call with
  | store node => exact unique_store hv hcall
  | storeExtractionResult json id result options =>
      exact unique_storeExtractionResult hv hcall

/-!
### Two spellings of Ada
-/

def spelledAda (name : String) : EntityCall Rat :=
  EntityCall.storeExtractionResult adaJson adaMemory.id
    { adaResult with
      entities := [{ name := name, entityType := "concept",
                     attributes := Assoc.empty.insert "role" "founder" }] }
    ExtractionStoreOptions.default

theorem entities_stay_unique_ada :
    UniqueEntities asciiEnv.withSurfaceLinker.text
      ([EntityCall.store adaMemory, spelledAda "Ada"].foldl
        (EntityCall.step asciiEnv.withSurfaceLinker) emptyWorld).tables.entities := by
  have hempty : forall id, emptyWorld.tables.entities.find? id = none := fun _ => rfl
  have hfirst : EntityCall.WithoutTwin asciiEnv.withSurfaceLinker emptyWorld
      (EntityCall.store adaMemory) := by
    intro m _ _ id row hrow
    rw [hempty id] at hrow
    cases hrow
  have hstored : (adaStored.tables.entityByCanonical "concept" "Ada").isSome = true := by
    decide +kernel
  have hsecond : EntityCall.WithoutTwin asciiEnv.withSurfaceLinker adaStored
      (spelledAda "Ada") := by
    have hnames : resultNames asciiEnv.withSurfaceLinker.text
        { adaResult with
          entities := [{ name := "Ada", entityType := "concept",
                         attributes := Assoc.empty.insert "role" "founder" }] } =
        [("concept", "Ada")] := by
      decide +kernel
    intro name hname hmissing
    rw [hnames] at hname
    rcases hname with ⟨before, after, hsplit, _⟩
    have hmem : name ∈ [("concept", "Ada")] := by
      rw [hsplit]
      exact List.mem_append_right before List.mem_cons_self
    rw [List.mem_singleton.mp hmem] at hmissing
    rw [hmissing] at hstored
    cases hstored
  have hrun : Run (EntityCall.step asciiEnv.withSurfaceLinker)
      (EntityCall.WithoutTwin asciiEnv.withSurfaceLinker) emptyWorld
      [EntityCall.store adaMemory, spelledAda "Ada"]
      ([EntityCall.store adaMemory, spelledAda "Ada"].foldl
        (EntityCall.step asciiEnv.withSurfaceLinker) emptyWorld) :=
    ((Run.nil emptyWorld).snoc hfirst).snoc hsecond
  apply entities_stay_unique asciiEnv hrun
  intro id _ row _ hrow
  rw [hempty id] at hrow
  cases hrow

/-- The linker has stored the name as it stands in a tag; the model's spelling of it
becomes a second entity. -/
theorem entities_not_unique :
    ¬ UniqueEntities asciiEnv.withSurfaceLinker.text
      ([EntityCall.store adaMemory, spelledAda "ADA"].foldl
        (EntityCall.step asciiEnv.withSurfaceLinker) emptyWorld).tables.entities := by
  intro hunique
  have hlinked : (([EntityCall.store adaMemory, spelledAda "ADA"].foldl
      (EntityCall.step asciiEnv.withSurfaceLinker) emptyWorld).tables.entities.find? "2-0").map
        (fun row => (row.entityType, row.canonical)) = some ("concept", "Ada") := by
    decide +kernel
  have hextracted : (([EntityCall.store adaMemory, spelledAda "ADA"].foldl
      (EntityCall.step asciiEnv.withSurfaceLinker) emptyWorld).tables.entities.find? "4-1").map
        (fun row => (row.entityType, row.canonical)) = some ("concept", "ADA") := by
    decide +kernel
  rcases Option.map_eq_some_iff.mp hlinked with ⟨row, hrow, heq⟩
  rcases Option.map_eq_some_iff.mp hextracted with ⟨row', hrow', heq'⟩
  rcases Prod.mk.inj heq with ⟨htype, hcanonical⟩
  rcases Prod.mk.inj heq' with ⟨htype', hcanonical'⟩
  have hsame : SameName asciiEnv.withSurfaceLinker.text row row' := by
    rw [SameName, htype, htype', hcanonical, hcanonical']
    decide +kernel
  have hids := hunique "2-0" "4-1" row row' hrow hrow' hsame
  revert hids
  decide

end Facade
end MenteDb
