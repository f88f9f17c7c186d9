import MenteDb.Facade.EntityExtraction
import MenteDb.Facade.ExtractionJobs
import MenteDb.Facade.Turn
import MenteDb.Sqlite.References

/-!
# Storing a memory again

Every store links the memory anew with the entities its text and tags mention: all its
links are deleted, and the entities mentioned are written with empty attributes.  What
an extraction has added to the same tables stays only where this rewriting happens to
write the same.
-/

namespace MenteDb
namespace Facade

open Foundation
open Sqlite
open Cognitive

variable {F : Type}

/-!
## Steps that leave entities alone
-/

/-- The relations of the entities and of their links with memories. -/
def SameEntities (t t' : Tables F) : Prop :=
  t'.entities = t.entities ∧ t'.memoryEntities = t.memoryEntities

theorem SameEntities.refl (t : Tables F) : SameEntities t t := ⟨rfl, rfl⟩

theorem SameEntities.trans {t t' t'' : Tables F} (h : SameEntities t t')
    (h' : SameEntities t' t'') : SameEntities t t'' :=
  ⟨h'.1.trans h.1, h'.2.trans h.2⟩

section Steps

variable [Scalar F] {env : Env F} {t0 : Tables F}

theorem sameEntities_storeMemoryOn {t t' : Tables F} {node : MemoryNode F} {dim : Nat}
    (h : Tables.storeMemoryOn node dim t = Except.ok t') : SameEntities t t' := by
  rcases Tables.storeMemoryOn_ok h with ⟨v, hv⟩
  rw [hv]
  exact ⟨rfl, rfl⟩

omit [Scalar F] in
theorem ignoresTicks_sameEntities : IgnoresTicks (fun w => SameEntities t0 w.tables) :=
  fun _ _ _ hw => hw

theorem storeClosed_sameEntities : StoreClosed (fun w => SameEntities t0 w.tables) where
  ignoresTicks := ignoresTicks_sameEntities
  storeOn := fun _ _ _ _ hw hrun => hw.trans (sameEntities_storeMemoryOn hrun)

theorem inferenceClosed_sameEntities :
    InferenceClosed env (fun w => SameEntities t0 w.tables) where
  ignoresTicks := storeClosed_sameEntities.ignoresTicks
  storeOn := storeClosed_sameEntities.storeOn
  relate := by
    intro edge
    apply Prog.Keeps.bind
    · apply keeps_transact ignoresTicks_sameEntities
      intro w t hw hrun
      cases hrun
      exact hw
    · intro _
      exact keeps_onGraph (fun _ _ hw => hw)

theorem keeps_provision_sameEntities (nodes : List (MemoryNode F)) :
    Prog.Keeps (fun w => SameEntities t0 w.tables) (provision env nodes) := by
  apply keeps_provision_of
  intro dim
  apply Prog.Keeps.bind (Prog.keeps_gets _)
  intro current
  apply Prog.triple_ite
  · intro _
    exact Prog.keeps_pure ()
  · intro _
    apply Prog.Keeps.bind
    · apply keeps_transact ignoresTicks_sameEntities
      intro w t hw hrun
      cases hrun
      exact hw
    · intro _
      exact Prog.triple_modify (fun _ hw => hw)

end Steps

/-!
## Linking a memory
-/

section Linking

variable [Scalar F]

omit [Scalar F] in
/-- The entity a mention is written to. -/
def mentionedEntity (env : Env F) (t : Tables F) (ticks : Nat)
    (mention : ExtractedEntity F × Nat) : String :=
  ((t.entityByCanonical mention.1.entityType mention.1.canonical).map Prod.fst).getD
    (env.freshEntityId ticks mention.2)

omit [Scalar F] in
/-- The links the mentions of a memory give. -/
def mentionLinks (env : Env F) (t : Tables F) (ticks : Nat) (node : MemoryNode F) :
    List (MemoryEntityLink F) :=
  (env.extractMemory node).zipIdx.map (fun mention =>
    ((node.id, mentionedEntity env t ticks mention, mention.1.role.getD "mentioned"),
      { confidence := mention.1.confidence, evidence := mention.1.evidence }))

omit [Scalar F] in
/-- The last of the links with the key. -/
def lastLink (links : List (MemoryEntityLink F)) (key : MemoryId × String × String) :
    Option (MemoryEntityRow F) :=
  (links.reverse.find? (fun link => decide (link.1 = key))).map Prod.snd

omit [Scalar F] in
def attributesOf (t : Tables F) (entityId : String) : Option String :=
  (t.entities.find? entityId).map EntityRow.attributesJson

theorem entityRecordFor_fst (env : Env F) (t : Tables F) (ticks : Nat) (now : Timestamp)
    (mention : ExtractedEntity F × Nat) :
    (entityRecordFor env t ticks now mention).1 = mentionedEntity env t ticks mention := by
  unfold entityRecordFor mentionedEntity
  cases t.entityByCanonical mention.1.entityType mention.1.canonical with
  | none => rfl
  | some record => rfl

theorem entityRecordFor_attributes (env : Env F) (t : Tables F) (ticks : Nat) (now : Timestamp)
    (mention : ExtractedEntity F × Nat) :
    (entityRecordFor env t ticks now mention).2.attributesJson = "\x7b\x7d" := by
  unfold entityRecordFor
  cases t.entityByCanonical mention.1.entityType mention.1.canonical with
  | none => rfl
  | some record => rfl

omit [Scalar F] in
/-- Records written with empty attributes empty the attributes of their entities. -/
theorem attributes_upsertEntities {records : List (EntityRecord F)}
    (hempty : forall r, r ∈ records -> r.2.attributesJson = "\x7b\x7d")
    (entities : Assoc String (EntityRow F)) (e : String) :
    ((Tables.upsertEntities records entities).find? e).map EntityRow.attributesJson =
      if e ∈ records.map Prod.fst then some "\x7b\x7d"
      else (entities.find? e).map EntityRow.attributesJson := by
  induction records generalizing entities with
  | nil => simp [Tables.upsertEntities]
  | cons r rest ih =>
      have hrest := ih (fun x hx => hempty x (List.mem_cons_of_mem r hx))
      unfold Tables.upsertEntities at hrest ⊢
      rw [List.foldl_cons, hrest, Assoc.find?_upsert]
      have hr := hempty r List.mem_cons_self
      by_cases hmem : e ∈ rest.map Prod.fst
      · simp [hmem]
      · by_cases he : e = r.1
        · simp [he, hr]
        · simp [hmem, he]

/-- The state after a memory has been linked with the entities it mentions. -/
structure Reindexed (env : Env F) (node : MemoryNode F) (ticks : Nat) (t t' : Tables F) :
    Prop where
  links : forall key, key.1 = node.id ->
    t'.memoryEntities.find? key = lastLink (mentionLinks env t ticks node) key
  attributes : forall e, attributesOf t' e =
    if e ∈ (env.extractMemory node).zipIdx.map (mentionedEntity env t ticks) then
      some "\x7b\x7d"
    else attributesOf t e

omit [Scalar F] in
/-- The tick of the transaction that links a memory; a memory with mentions reads the
clock first. -/
def indexingTick (env : Env F) (node : MemoryNode F) (ticks : Nat) : Nat :=
  if (env.extractMemory node).isEmpty then ticks else ticks + 1

/-- The mentions of a memory with the records they are written to. -/
def mentionRecords (env : Env F) (t : Tables F) (ticks : Nat) (now : Timestamp)
    (node : MemoryNode F) : List (ExtractedEntity F × EntityRecord F) :=
  (env.extractMemory node).zipIdx.map (fun m => (m.1, entityRecordFor env t ticks now m))

/-- The transaction that links a memory. -/
def linkTransaction (node : MemoryNode F) (records : List (ExtractedEntity F × EntityRecord F)) :
    Tx F :=
  Tables.replaceMemoryEntityBundle node.id (records.map Prod.snd)
    (records.flatMap (fun r => r.1.aliases.map (fun name =>
      ((r.2.1, name), { source := some "surface_linker", confidence := r.1.confidence }))))
    (records.map (fun r =>
      ((node.id, r.2.1, r.1.role.getD "mentioned"),
        { confidence := r.1.confidence, evidence := r.1.evidence })))

omit [Scalar F] in
/-- What comes after does not touch the tables. -/
theorem tables_bind_registerEntities (x : Op F Unit) (entities : List String) (w : World F) :
    (Prog.bind x (fun _ => registerEntities entities) w).2.tables = (x w).2.tables := by
  unfold Prog.bind
  rcases x w with ⟨result, w'⟩
  cases result <;> rfl

theorem tables_persistExtractedEntities (env : Env F) (node : MemoryNode F) (w : World F) :
    (persistExtractedEntities env node.id (env.extractMemory node) w).2.tables =
      (transact env (linkTransaction node (mentionRecords env w.tables
        (indexingTick env node w.ticks) (env.clock w.ticks) node))
        { w with ticks := indexingTick env node w.ticks }).2.tables := by
  unfold persistExtractedEntities indexingTick linkTransaction mentionRecords
  by_cases hempty : (env.extractMemory node).isEmpty = true
  · rw [if_pos hempty, if_pos hempty]
    rw [List.isEmpty_iff.mp hempty]
    rfl
  · rw [if_neg hempty, if_neg hempty]
    exact tables_bind_registerEntities _ _ _

omit [Scalar F] in
theorem linkTransaction_succeeds {t : Tables F} {node : MemoryNode F}
    (hmemory : t.memories.contains node.id = true)
    (records : List (ExtractedEntity F × EntityRecord F)) :
    exists t', linkTransaction node records t = Except.ok t' := by
  refine Tables.replaceMemoryEntityBundle_succeeds hmemory ?_ ?_
  · intro name hname
    rcases List.mem_flatMap.mp hname with ⟨r, hr, halias⟩
    rcases List.mem_map.mp halias with ⟨text, _, heq⟩
    subst heq
    exact List.mem_map_of_mem (List.mem_map_of_mem hr)
  · intro link hlink
    rcases List.mem_map.mp hlink with ⟨r, hr, heq⟩
    subst heq
    exact ⟨rfl, List.mem_map_of_mem (List.mem_map_of_mem hr)⟩

theorem reindexed_linkTransaction {env : Env F} {node : MemoryNode F} {ticks : Nat}
    {now : Timestamp} {t t' : Tables F}
    (h : linkTransaction node (mentionRecords env t ticks now node) t = Except.ok t') :
    Reindexed env node ticks t t' := by
  have hwritten := Tables.replaceMemoryEntityBundle_ok h
  have hids : ((mentionRecords env t ticks now node).map Prod.snd).map Prod.fst =
      (env.extractMemory node).zipIdx.map (mentionedEntity env t ticks) := by
    unfold mentionRecords
    rw [List.map_map, List.map_map]
    exact List.map_congr_left (fun m _ => entityRecordFor_fst env t ticks now m)
  have hlinks : (mentionRecords env t ticks now node).map (fun r =>
      (((node.id, r.2.1, r.1.role.getD "mentioned"),
        { confidence := r.1.confidence, evidence := r.1.evidence }) : MemoryEntityLink F)) =
      mentionLinks env t ticks node := by
    unfold mentionRecords mentionLinks
    rw [List.map_map]
    refine List.map_congr_left ?_
    intro m _
    show (((node.id, (entityRecordFor env t ticks now m).1, _), _) : MemoryEntityLink F) = _
    rw [entityRecordFor_fst]
  constructor
  · intro key hkey
    rw [hwritten.2, Assoc.find?_foldl_insert, Assoc.find?_deleteWhere, hlinks]
    have hgone : (t.memoryEntities.find? key).filter
        (fun _ => !decide (key.1 = node.id)) = none := by
      rw [hkey]
      cases t.memoryEntities.find? key with
      | none => rfl
      | some row => simp
    rw [hgone, Option.or_none]
    rfl
  · intro e
    unfold attributesOf
    rw [hwritten.1, attributes_upsertEntities, hids]
    intro r hr
    rcases List.mem_map.mp hr with ⟨pair, hpair, heq⟩
    subst heq
    rcases List.mem_map.mp hpair with ⟨m, _, heq⟩
    subst heq
    exact entityRecordFor_attributes env t ticks now m

omit [Scalar F] in
/-- Linking is switched on and its transaction does not fail. -/
def Indexes (env : Env F) (node : MemoryNode F) (ticks : Nat) : Prop :=
  env.config.entityExtractionConfig.enabled = true ∧
    env.fault (indexingTick env node ticks) = none

theorem reindexed_of_indexes {env : Env F} {node : MemoryNode F} {w : World F}
    (hindexes : Indexes env node w.ticks) (hmemory : w.tables.memories.contains node.id = true) :
    Reindexed env node (indexingTick env node w.ticks) w.tables
      (indexMemoryEntities env node w).2.tables := by
  unfold indexMemoryEntities
  rw [if_pos hindexes.1, tables_persistExtractedEntities]
  rcases linkTransaction_succeeds hmemory (mentionRecords env w.tables
    (indexingTick env node w.ticks) (env.clock w.ticks) node) with ⟨t', hrun⟩
  unfold transact
  simp only [hindexes.2, hrun]
  exact reindexed_linkTransaction hrun

theorem sameEntities_of_not_indexes {env : Env F} {node : MemoryNode F} {w : World F}
    (hnot : ¬ Indexes env node w.ticks) :
    SameEntities w.tables (indexMemoryEntities env node w).2.tables := by
  unfold indexMemoryEntities
  by_cases henabled : env.config.entityExtractionConfig.enabled = true
  · rw [if_pos henabled, tables_persistExtractedEntities]
    unfold transact
    cases hfault : env.fault (indexingTick env node w.ticks) with
    | none => exact absurd ⟨henabled, hfault⟩ hnot
    | some e => exact SameEntities.refl _
  · rw [if_neg henabled]
    exact SameEntities.refl _

/-!
## A whole store
-/

omit [Scalar F] in
/-- The tick at which a store comes to the links of the memory: it has committed the
memory, and before that the index if there was none. -/
def tickOfLinks (node : MemoryNode F) (w : World F) : Nat :=
  if node.embedding ≠ [] ∧ w.embeddingDim = 0 then w.ticks + 2 else w.ticks + 1

theorem ensureVectorIndex_ticks {env : Env F} {dim : Nat} {w w' : World F}
    (h : ensureVectorIndex env dim w = (Except.ok (), w')) :
    w'.ticks = if dim = 0 ∨ dim = w.embeddingDim then w.ticks else w.ticks + 1 := by
  have hrun : (if dim = 0 ∨ dim = w.embeddingDim then (pure () : Op F Unit)
      else do
        transact env (Tables.ensureVectorIndex dim)
        Prog.modify (fun w => { w with embeddingDim := dim })) w = (Except.ok (), w') := h
  by_cases hskip : dim = 0 ∨ dim = w.embeddingDim
  · rw [if_pos hskip] at hrun ⊢
    cases hrun
    rfl
  · rw [if_neg hskip] at hrun ⊢
    rcases Prog.bind_ok hrun with ⟨_, mid, htransact, hmodify⟩
    rcases transact_ok htransact with ⟨t, _, hmid⟩
    cases hmodify
    rw [hmid]

theorem provision_ticks {env : Env F} {node : MemoryNode F} {w w' : World F}
    (h : provision env [node] w = (Except.ok (), w')) : w'.ticks + 1 = tickOfLinks node w := by
  rcases Prog.bind_ok h with ⟨_, mid, hindex, hcheck⟩
  have hsame : w' = mid := by
    unfold checkDimensions at hcheck
    rcases Prog.bind_ok hcheck with ⟨dim, mid', hgets, hmatch⟩
    cases hgets
    cases hfind : [node].find? (Tables.dimensionMismatch mid.embeddingDim) with
    | some wrong =>
        rw [hfind] at hmatch
        cases hmatch
    | none =>
        rw [hfind] at hmatch
        cases hmatch
        rfl
  rw [hsame]
  unfold provisionIndex at hindex
  rcases Prog.bind_ok hindex with ⟨dim, mid', hgets, hmatch⟩
  cases hgets
  unfold tickOfLinks
  by_cases hempty : node.embedding = []
  · rw [if_neg (fun hboth => hboth.1 hempty)]
    simp [hempty] at hmatch
    cases hmatch
    rfl
  · have hfind : [node].find? (fun n => !n.embedding.isEmpty) = some node := by
      simp [hempty]
    rw [hfind] at hmatch
    simp only at hmatch
    by_cases hdim : w.embeddingDim = 0
    · rw [if_pos ⟨hempty, hdim⟩]
      rw [if_pos hdim] at hmatch
      rw [ensureVectorIndex_ticks hmatch, if_neg]
      rw [hdim, or_self, List.length_eq_zero_iff]
      exact hempty
    · rw [if_neg (fun hboth => hdim hboth.2)]
      rw [if_neg hdim] at hmatch
      cases hmatch
      rfl

/-- A store that succeeds leaves the entities alone but for the linking of the memory,
which is stored by then. -/
theorem store_phases {env : Env F} {node : MemoryNode F} {w w' : World F}
    (h : store env node w = (Except.ok (), w')) :
    exists mid : World F, SameEntities w.tables mid.tables ∧
      mid.tables.memories.contains node.id = true ∧ mid.ticks = tickOfLinks node w ∧
      SameEntities (indexMemoryEntities env node mid).2.tables w'.tables := by
  rcases Prog.bind_ok h with ⟨_, w1, hprovision, hrest⟩
  rcases Prog.bind_ok hrest with ⟨_, w2, hstore, hrest⟩
  rcases Prog.bind_ok hrest with ⟨_, w3, hregister, hrest⟩
  rcases Prog.bind_ok hrest with ⟨_, w4, hindex, hinfer⟩
  cases hregister
  cases hindex
  have hsame1 : SameEntities w.tables w1.tables := by
    have hprovisioned : Prog.Keeps (fun v => SameEntities w.tables v.tables)
        (provision env [node]) := keeps_provision_sameEntities [node]
    have hkeeps := hprovisioned.state (SameEntities.refl w.tables)
    rw [hprovision] at hkeeps
    exact hkeeps
  rcases Prog.bind_ok hstore with ⟨dim, w1', hgets, htransact⟩
  cases hgets
  rcases transact_ok htransact with ⟨t, hrun, hw2⟩
  have hstored := Tables.storeMemory_ok hrun
  refine ⟨{ w2 with graph := Graph.GraphManager.addMemory w2.graph node.id }, ?_, ?_, ?_, ?_⟩
  · rw [hw2]
    exact hsame1.trans (sameEntities_storeMemoryOn hstored)
  · rw [hw2]
    have hcontains := Tables.contains_storeMemoryOn hstored node.id
    rw [decide_eq_true rfl, Bool.true_or] at hcontains
    exact hcontains
  · rw [hw2]
    exact provision_ticks hprovision
  · have hkeeps : Prog.Keeps (fun v => SameEntities
        (indexMemoryEntities env node
          { w2 with graph := Graph.GraphManager.addMemory w2.graph node.id }).2.tables v.tables)
        (if env.config.writeInference then runWriteInference env node else pure ()) := by
      apply Prog.triple_ite
      · intro _
        exact inferenceClosed_sameEntities.keeps_runWriteInference node
      · intro _
        exact Prog.keeps_pure ()
    have hend := hkeeps.state (SameEntities.refl _)
    rw [hinfer] at hend
    exact hend

end Linking

/-!
## What an extraction has written
-/

/-- Links of a memory, all of them stored, and entities. -/
structure DerivedKnowledge (t : Tables F) (id : MemoryId) where
  links : List (MemoryId × String × String)
  entities : List String
  ofMemory : forall key, key ∈ links -> key.1 = id
  stored : forall key, key ∈ links -> t.memoryEntities.contains key = true

/-- The links and the attributes of the entities are as they were. -/
def DerivedKnowledge.Kept {t : Tables F} {id : MemoryId} (d : DerivedKnowledge t id)
    (t' : Tables F) : Prop :=
  (forall key, key ∈ d.links -> t'.memoryEntities.find? key = t.memoryEntities.find? key) ∧
    forall e, e ∈ d.entities -> attributesOf t' e = attributesOf t e

section Extraction

variable [Scalar F]

omit [Scalar F] in
/-- Every link of a batch is a link of the memory it was extracted from. -/
theorem buildClosed_ofSource (ctx : BuildContext F) :
    BuildClosed ctx (fun _ s => forall link, link ∈ s.memoryEntities ->
      link.memoryId = ctx.source.id) where
  views := by
    intro _ s s' _ hlinks hs
    rw [hlinks]
    exact hs
  register := fun _ s entityType canonical record _ hs => hs
  link := by
    intro _ s entityId role confidence evidence hs
    unfold pushMemoryEntityLink
    simp only
    split
    · exact hs
    · intro link hlink
      cases List.mem_append.mp hlink with
      | inl hold => exact hs link hold
      | inr hnew =>
          rw [List.mem_singleton.mp hnew]

omit [Scalar F] in
/-- The rows written after the links leave them. -/
theorem sameLinks_of_claims {artifacts : ExtractionArtifacts F} {t t' : Tables F}
    (h : Tables.persistExtractionArtifacts artifacts t = Except.ok t') :
    t'.entities = Tables.upsertEntities artifacts.entities t.entities ∧
      t'.memoryEntities = artifacts.memoryEntities.foldl
        (fun table x => table.insert x.1 x.2) t.memoryEntities := by
  rw [Tables.persistExtractionArtifacts_ok h]
  exact ⟨rfl, rfl⟩

/-- A call that succeeds has persisted the batch built from the source memory. -/
theorem storeExtractionResult_ok {env : Env F} {json : JsonOps} {id : MemoryId}
    {result : Schema.ExtractionResult F} {options : ExtractionStoreOptions}
    {report : ExtractionStoreReport} {w w' : World F}
    (h : storeExtractionResult env json id result options w = (Except.ok report, w')) :
    exists (ctx : BuildContext F) (built : ExtractionBuild F), ctx.tables = w.tables ∧
      ctx.text = env.text ∧ ctx.json = json ∧ ctx.source.id = id ∧
      ctx.newId = env.freshEntityId (w.ticks + 1) ∧
      buildExtraction ctx result (ExtractionBuild.new 1) = (Except.ok (), built) ∧
      Tables.persistExtractionArtifacts
        (built.batch ctx env.hashOrder options result).artifacts w.tables =
          Except.ok w'.tables := by
  rcases Prog.bind_ok h with ⟨source, w1, hget, hrest⟩
  rcases Prog.bind_ok hrest with ⟨now, w2, hclock, hrest⟩
  rcases Prog.bind_ok hrest with ⟨ctx, w3, hctx, hrest⟩
  cases hctx
  cases hclock
  have hsource : w1 = w ∧ source.id = id := by
    unfold getMemory at hget
    cases hfind : w.tables.getMemory id with
    | none =>
        rw [hfind] at hget
        cases hget
    | some node =>
        rw [hfind] at hget
        cases hget
        exact ⟨rfl, Tables.getMemory_id hfind⟩
  rcases hbuild : buildExtraction (extractionContext env json options source (env.clock w1.ticks)
      { w1 with ticks := w1.ticks + 1 }) result (ExtractionBuild.new 1) with ⟨outcome, built⟩
  rw [hbuild] at hrest
  cases outcome with
  | error e => cases hrest
  | ok _ =>
      have hids : env.freshEntityId (w1.ticks + 1) = env.freshEntityId (w.ticks + 1) := by
        rw [hsource.1]
      refine ⟨_, built, congrArg World.tables hsource.1, rfl, rfl, hsource.2, hids, hbuild, ?_⟩
      rcases Prog.bind_ok hrest with ⟨_, w4, hvalidated, hrest⟩
      rcases Prog.bind_ok hrest with ⟨_, w5, hemit, hreport⟩
      cases hreport
      rcases transact_ok hemit with ⟨t, hsame, hw5⟩
      cases hsame
      rcases transact_ok (storeValidatedExtraction_ok hvalidated) with ⟨t, hpersist, hw4⟩
      rw [hw5, hw4, ← hsource.1]
      exact hpersist

/-- The links and the entities of the batch that the call has persisted. -/
def WrittenBy (env : Env F) (json : JsonOps) (id : MemoryId)
    (result : Schema.ExtractionResult F) (options : ExtractionStoreOptions) (t0 t : Tables F)
    (d : DerivedKnowledge t id) : Prop :=
  exists (ctx : BuildContext F) (built : ExtractionBuild F), ctx.tables = t0 ∧
    ctx.text = env.text ∧ ctx.json = json ∧ ctx.source.id = id ∧
    buildExtraction ctx result (ExtractionBuild.new 1) = (Except.ok (), built) ∧
    d.links = built.memoryEntities.map (fun link => link.row.1) ∧
    d.entities = (built.batch ctx env.hashOrder options result).entities.map Prod.fst

theorem exists_writtenBy {env : Env F} {json : JsonOps} {id : MemoryId}
    {result : Schema.ExtractionResult F} {options : ExtractionStoreOptions}
    {report : ExtractionStoreReport} {w w' : World F}
    (h : storeExtractionResult env json id result options w = (Except.ok report, w')) :
    exists d : DerivedKnowledge w'.tables id,
      WrittenBy env json id result options w.tables w'.tables d := by
  rcases storeExtractionResult_ok h with
    ⟨ctx, built, htables, htext, hjson, hsource, _, hbuild, hpersist⟩
  have hlinks := (sameLinks_of_claims hpersist).2
  have hofSource : forall link, link ∈ built.memoryEntities -> link.memoryId = ctx.source.id := by
    have hlinksOf := (buildClosed_ofSource ctx).asks_buildExtraction result []
      (ExtractionBuild.new 1) (fun link hlink => absurd hlink List.not_mem_nil)
    rw [hbuild] at hlinksOf
    exact hlinksOf
  refine ⟨⟨built.memoryEntities.map (fun link => link.row.1),
    (built.batch ctx env.hashOrder options result).entities.map Prod.fst, ?_, ?_⟩,
    ctx, built, htables, htext, hjson, hsource, hbuild, rfl, rfl⟩
  · intro key hkey
    rcases List.mem_map.mp hkey with ⟨link, hlink, heq⟩
    subst heq
    exact (hofSource link hlink).trans hsource
  · intro key hkey
    rcases List.mem_map.mp hkey with ⟨link, hlink, heq⟩
    subst heq
    have hrow : link.row ∈ built.memoryEntities.map MemoryLinkRecord.row :=
      List.mem_map_of_mem hlink
    have hlast : ((built.memoryEntities.map MemoryLinkRecord.row).reverse.find?
        (fun x => decide (x.1 = link.row.1))).isSome = true := by
      rw [List.find?_isSome]
      exact ⟨link.row, List.mem_reverse.mpr hrow, decide_eq_true rfl⟩
    rw [Assoc.contains, hlinks, Assoc.find?_foldl_insert, Option.isSome_or, Option.isSome_map]
    show (((built.memoryEntities.map MemoryLinkRecord.row).reverse.find? _).isSome || _) = true
    rw [hlast, Bool.true_or]

/-!
## Storing again
-/

/-- The surface linker finds every link of the extraction again, last with the same
confidence and evidence, and none of the entities it mentions had attributes. -/
structure WrittenAgain (env : Env F) (node : MemoryNode F) (t : Tables F) (ticks : Nat)
    (d : DerivedKnowledge t node.id) : Prop where
  links : forall key, key ∈ d.links ->
    lastLink (mentionLinks env t ticks node) key = t.memoryEntities.find? key
  attributes : forall e, e ∈ d.entities ->
    e ∈ (env.extractMemory node).zipIdx.map (mentionedEntity env t ticks) ->
      attributesOf t e = some "\x7b\x7d"

omit [Scalar F] in
theorem SameEntities.mentionedEntity_eq {t t' : Tables F} (h : SameEntities t t') (env : Env F)
    (ticks : Nat) : mentionedEntity env t' ticks = mentionedEntity env t ticks := by
  funext mention
  unfold mentionedEntity Tables.entityByCanonical
  rw [h.1]

omit [Scalar F] in
theorem SameEntities.attributesOf_eq {t t' : Tables F} (h : SameEntities t t') :
    attributesOf t' = attributesOf t := by
  funext e
  unfold attributesOf
  rw [h.1]

omit [Scalar F] in
theorem DerivedKnowledge.Kept.congr {t t' t'' : Tables F} {id : MemoryId}
    {d : DerivedKnowledge t id} (h : SameEntities t' t'') : d.Kept t'' <-> d.Kept t' := by
  unfold DerivedKnowledge.Kept
  rw [h.attributesOf_eq, h.2]

omit [Scalar F] in
/-- What a linking leaves of an extraction. -/
theorem Reindexed.kept_iff {env : Env F} {node : MemoryNode F} {ticks : Nat} {t mid t' : Tables F}
    (hsame : SameEntities t mid) (h : Reindexed env node ticks mid t')
    (d : DerivedKnowledge t node.id) : d.Kept t' <-> WrittenAgain env node t ticks d := by
  have hlinks : forall key, key ∈ d.links ->
      t'.memoryEntities.find? key = lastLink (mentionLinks env t ticks node) key := by
    intro key hkey
    rw [h.links key (d.ofMemory key hkey)]
    unfold mentionLinks
    rw [hsame.mentionedEntity_eq env ticks]
  have hattributes : forall e, attributesOf t' e =
      if e ∈ (env.extractMemory node).zipIdx.map (mentionedEntity env t ticks) then
        some "\x7b\x7d"
      else attributesOf t e := by
    intro e
    rw [h.attributes e, hsame.mentionedEntity_eq env ticks, hsame.attributesOf_eq]
  constructor
  · intro hkept
    constructor
    · intro key hkey
      rw [← hlinks key hkey]
      exact hkept.1 key hkey
    · intro e he hmentioned
      rw [← hkept.2 e he, hattributes e, if_pos hmentioned]
  · intro hagain
    constructor
    · intro key hkey
      rw [hlinks key hkey]
      exact hagain.links key hkey
    · intro e he
      rw [hattributes e]
      by_cases hmentioned :
          e ∈ (env.extractMemory node).zipIdx.map (mentionedEntity env t ticks)
      · rw [if_pos hmentioned, hagain.attributes e he hmentioned]
      · rw [if_neg hmentioned]

/-- An extraction that succeeds leaves its links and the attributes of its entities in
the tables.  A later store of the memory, from any state that still has the links, keeps
them exactly when it does not link the memory anew, or the surface linker writes every
link of the extraction as it was and mentions only entities without attributes. -/
theorem restore_keeps_derived_iff (env : Env F) (node : MemoryNode F) :
    (forall json result options report w w',
      storeExtractionResult env json node.id result options w = (Except.ok report, w') ->
        exists d : DerivedKnowledge w'.tables node.id,
          WrittenBy env json node.id result options w.tables w'.tables d) ∧
      forall (w w' : World F) (d : DerivedKnowledge w.tables node.id),
        store env node w = (Except.ok (), w') ->
          (d.Kept w'.tables <-> ¬ Indexes env node (tickOfLinks node w) ∨
            WrittenAgain env node w.tables (indexingTick env node (tickOfLinks node w)) d) := by
  constructor
  · intro json result options report w w' h
    exact exists_writtenBy h
  · intro w w' d h
    rcases store_phases h with ⟨mid, hsame, hmemory, hticks, hend⟩
    rw [DerivedKnowledge.Kept.congr hend, ← hticks]
    by_cases hindexes : Indexes env node mid.ticks
    · rw [(reindexed_of_indexes hindexes hmemory).kept_iff hsame]
      constructor
      · exact Or.inr
      · intro hcases
        cases hcases with
        | inl hnot => exact absurd hindexes hnot
        | inr hagain => exact hagain
    · constructor
      · intro _
        exact Or.inl hindexes
      · intro _
        have hall := hsame.trans (sameEntities_of_not_indexes hindexes)
        rw [DerivedKnowledge.Kept.congr hall]
        exact ⟨fun _ _ => rfl, fun _ _ => rfl⟩

end Extraction

/-!
### A memory about Ada
-/

def quoted (s : String) : String := "\"" ++ s ++ "\""

mutual
def printJson : Json -> String
  | Json.null => "null"
  | Json.bool value => if value then "true" else "false"
  | Json.number text => text
  | Json.string value => quoted value
  | Json.array items => "[" ++ ",".intercalate (printItems items) ++ "]"
  | Json.object members => "\x7b" ++ ",".intercalate (printMembers members) ++ "\x7d"

def printItems : List Json -> List String
  | [] => []
  | item :: rest => printJson item :: printItems rest

def printMembers : List (String × Json) -> List String
  | [] => []
  | (key, value) :: rest => (quoted key ++ ":" ++ printJson value) :: printMembers rest
end

/-- A JSON library that reads back the given documents. -/
def jsonOf (documents : List Json) : JsonOps where
  parse s :=
    match documents.find? (fun d => printJson d == s) with
    | some d => Except.ok d
    | none => Except.error "no such document"
  print := printJson

/-- Texts in ASCII, with white space as the string library has it. -/
def asciiText : TextOps Rat :=
  TextOps.atWhitespace
    { splitWhitespace := fun s => [s]
      toLowercase := fun s => String.ofList (s.toList.map Char.toLower)
      trim := fun s => s
      fixed2 := fun _ => "1.00"
      fixed3 := fun _ => "1.000" }

def asciiEnv : Env Rat := { calmEnv CognitiveConfig.default with text := asciiText }

def linkingEnv : Env Rat := asciiEnv.withSurfaceLinker

def adaMemory : MemoryNode Rat :=
  { MemoryNode.new ⟨7⟩ 1000 AgentId.nil MemoryType.semantic "Ada founded Acme" [] with
    tags := ["entity:ada"] }

/-- The model reports one entity, with one attribute. -/
def adaResult : Schema.ExtractionResult Rat where
  memories := []
  entities := [{ name := "Ada", entityType := "concept",
                 attributes := Assoc.empty.insert "role" "founder" }]
  relationships := []

def adaJson : JsonOps :=
  jsonOf [Json.object [], Json.object [("role", Json.string "founder")],
    runOutput adaResult
      { runId := "", entities := 1, aliases := 1, memoryLinks := 1, claims := 0,
        claimEntityLinks := 0, claimEvidence := 0, relationships := 0,
        relationshipEvidence := 0 }]

def adaStored : World Rat := (store linkingEnv adaMemory emptyWorld).2

def adaExtracted : Except MenteError ExtractionStoreReport × World Rat :=
  storeExtractionResult linkingEnv adaJson adaMemory.id adaResult ExtractionStoreOptions.default
    adaStored

/-- The evidence of the only link of the memory. -/
def adaEvidenceIn (w : World Rat) : Option (Option String) :=
  (w.tables.memoryEntities.find? (adaMemory.id, "2-0", "mentioned")).map MemoryEntityRow.evidence

theorem restore_keeps_derived_ada :
    exists (w w' : World Rat) (d : DerivedKnowledge w.tables adaMemory.id),
      WrittenBy linkingEnv adaJson adaMemory.id adaResult ExtractionStoreOptions.default
        adaStored.tables w.tables d ∧
      store linkingEnv adaMemory w = (Except.ok (), w') ∧
      (d.Kept w'.tables <-> ¬ Indexes linkingEnv adaMemory (tickOfLinks adaMemory w) ∨
        WrittenAgain linkingEnv adaMemory w.tables
          (indexingTick linkingEnv adaMemory (tickOfLinks adaMemory w)) d) := by
  have hextracted : adaExtracted.1.isOk = true := by decide +kernel
  have hstored : (store linkingEnv adaMemory adaExtracted.2).1.isOk = true := by decide +kernel
  have hrestore := Prog.eq_of_isOk hstored
  rcases hrun : adaExtracted with ⟨outcome, w⟩
  rw [hrun] at hextracted hrestore
  cases outcome with
  | error e => cases hextracted
  | ok report =>
      rcases (restore_keeps_derived_iff linkingEnv adaMemory).1 adaJson adaResult
        ExtractionStoreOptions.default report adaStored w hrun with ⟨d, hd⟩
      exact ⟨w, _, d, hd, hrestore,
        (restore_keeps_derived_iff linkingEnv adaMemory).2 w _ d hrestore⟩

/-- Stored again unchanged, the memory has the link of the surface linker instead of the
extracted one, and the entity has lost its attribute. -/
theorem restore_loses_derived :
    adaExtracted.1.isOk = true ∧
      (store linkingEnv adaMemory adaExtracted.2).1.isOk = true ∧
      adaEvidenceIn adaExtracted.2 = some (some "Ada") ∧
      adaEvidenceIn (store linkingEnv adaMemory adaExtracted.2).2 = some (some "ada") ∧
      attributesOf adaExtracted.2.tables "2-0" =
        some "\x7b\"role\":\"founder\"\x7d" ∧
      attributesOf (store linkingEnv adaMemory adaExtracted.2).2.tables "2-0" =
        some "\x7b\x7d" := by
  decide +kernel

end Facade
end MenteDb
