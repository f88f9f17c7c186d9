import MenteDb.Sqlite.Artifacts

/-!
# References between rows

A statement that writes a derived row is refused when it refers to a row that is not
there.  No such statement removes a row that others can refer to, so what one of them
has written the later ones can rely on.
-/

namespace MenteDb
namespace Sqlite
namespace Tables

open Foundation

variable {F : Type}

/-!
## Growing tables
-/

/-- Every row that others can refer to stays. -/
structure Grown (t t' : Tables F) : Prop where
  memories : forall id, t.memories.contains id = true -> t'.memories.contains id = true
  memorySources : forall id, t.memorySources.contains id = true ->
    t'.memorySources.contains id = true
  conversations : forall id, t.conversations.contains id = true ->
    t'.conversations.contains id = true
  extractionRuns : forall id, t.extractionRuns.contains id = true ->
    t'.extractionRuns.contains id = true
  entities : forall id, t.entities.contains id = true -> t'.entities.contains id = true
  claims : forall id, t.claims.contains id = true -> t'.claims.contains id = true
  entityRelationships : forall id, t.entityRelationships.contains id = true ->
    t'.entityRelationships.contains id = true

theorem Grown.refl (t : Tables F) : Grown t t :=
  ⟨fun _ h => h, fun _ h => h, fun _ h => h, fun _ h => h, fun _ h => h, fun _ h => h,
    fun _ h => h⟩

theorem Grown.trans {t t' t'' : Tables F} (h : Grown t t') (h' : Grown t' t'') : Grown t t'' where
  memories id hid := h'.memories id (h.memories id hid)
  memorySources id hid := h'.memorySources id (h.memorySources id hid)
  conversations id hid := h'.conversations id (h.conversations id hid)
  extractionRuns id hid := h'.extractionRuns id (h.extractionRuns id hid)
  entities id hid := h'.entities id (h.entities id hid)
  claims id hid := h'.claims id (h.claims id hid)
  entityRelationships id hid := h'.entityRelationships id (h.entityRelationships id hid)

/-- No row refers to the relations left out here. -/
theorem Grown.of_eq {t t' : Tables F} (hmemories : t'.memories = t.memories)
    (hsources : t'.memorySources = t.memorySources)
    (hconversations : t'.conversations = t.conversations)
    (hruns : t'.extractionRuns = t.extractionRuns) (hentities : t'.entities = t.entities)
    (hclaims : t'.claims = t.claims)
    (hrelationships : t'.entityRelationships = t.entityRelationships) : Grown t t' := by
  refine ⟨?_, ?_, ?_, ?_, ?_, ?_, ?_⟩
  · simp [hmemories]
  · simp [hsources]
  · simp [hconversations]
  · simp [hruns]
  · simp [hentities]
  · simp [hclaims]
  · simp [hrelationships]

theorem contains_upsert_of_contains {κ ν : Type} [DecidableEq κ] {table : Assoc κ ν} {k : κ}
    {f : Option ν -> ν} {j : κ} (h : table.contains j = true) :
    (table.upsert k f).contains j = true := by
  rw [Assoc.contains_upsert, h, Bool.or_true]

theorem contains_upsert_self {κ ν : Type} [DecidableEq κ] (table : Assoc κ ν) (k : κ)
    (f : Option ν -> ν) : (table.upsert k f).contains k = true := by
  rw [Assoc.contains_upsert, decide_eq_true rfl, Bool.true_or]

/-- A statement that is not refused: it succeeds, no row is lost, and the row it writes
is there. -/
def Writes (tx : Tx F) (t : Tables F) (R : Tables F -> Prop) : Prop :=
  exists t', tx t = Except.ok t' ∧ Grown t t' ∧ R t'

theorem writes_upsertExtractionRunOn {run : ExtractionRun} {t : Tables F}
    (hmemory : refersTo run.2.sourceMemoryId t.memories.contains = true)
    (hconversation : refersTo run.2.conversationId t.conversations.contains = true) :
    Writes (upsertExtractionRunOn run) t
      (fun t' => t'.extractionRuns.contains run.1 = true) := by
  unfold Writes upsertExtractionRunOn checked
  rw [hmemory, hconversation]
  refine ⟨_, rfl, ⟨fun _ h => h, fun _ h => h, fun _ h => h, ?_, fun _ h => h, fun _ h => h,
    fun _ h => h⟩, contains_upsert_self _ _ _⟩
  intro id hid
  exact contains_upsert_of_contains hid

theorem writes_upsertEntityOn (entity : EntityRecord F) (t : Tables F) :
    Writes (upsertEntityOn entity) t (fun t' => t'.entities.contains entity.1 = true) := by
  refine ⟨_, rfl, ⟨fun _ h => h, fun _ h => h, fun _ h => h, fun _ h => h, ?_, fun _ h => h,
    fun _ h => h⟩, contains_upsert_self _ _ _⟩
  intro id hid
  exact contains_upsert_of_contains hid

theorem writes_addEntityAliasOn {name : EntityAlias F} {t : Tables F}
    (hentity : t.entities.contains name.1.1 = true) :
    Writes (addEntityAliasOn name) t (fun _ => True) := by
  unfold Writes addEntityAliasOn checked
  rw [hentity]
  exact ⟨_, rfl, Grown.of_eq rfl rfl rfl rfl rfl rfl rfl, trivial⟩

theorem writes_linkMemoryEntityOn {link : MemoryEntityLink F} {t : Tables F}
    (hmemory : t.memories.contains link.1.1 = true)
    (hentity : t.entities.contains link.1.2.1 = true) :
    Writes (linkMemoryEntityOn link) t (fun _ => True) := by
  unfold Writes linkMemoryEntityOn checked
  rw [hmemory, hentity]
  exact ⟨_, rfl, Grown.of_eq rfl rfl rfl rfl rfl rfl rfl, trivial⟩

theorem writes_upsertClaimOn {claim : ClaimRecord F} {t : Tables F}
    (hsubject : refersTo claim.2.subjectEntityId t.entities.contains = true)
    (hobject : refersTo claim.2.objectEntityId t.entities.contains = true)
    (hrun : refersTo claim.2.sourceRunId t.extractionRuns.contains = true) :
    Writes (upsertClaimOn claim) t (fun t' => t'.claims.contains claim.1 = true) := by
  unfold Writes upsertClaimOn checked
  rw [hsubject, hobject, hrun]
  refine ⟨_, rfl, ⟨fun _ h => h, fun _ h => h, fun _ h => h, fun _ h => h, fun _ h => h, ?_,
    fun _ h => h⟩, contains_upsert_self _ _ _⟩
  intro id hid
  exact contains_upsert_of_contains hid

theorem writes_linkClaimEntityOn {link : ClaimEntityLink F} {t : Tables F}
    (hclaim : t.claims.contains link.1.1 = true)
    (hentity : t.entities.contains link.1.2.1 = true) :
    Writes (linkClaimEntityOn link) t (fun _ => True) := by
  unfold Writes linkClaimEntityOn checked
  rw [hclaim, hentity]
  exact ⟨_, rfl, Grown.of_eq rfl rfl rfl rfl rfl rfl rfl, trivial⟩

theorem writes_addClaimEvidenceOn {evidence : ClaimEvidence F} {t : Tables F}
    (hclaim : t.claims.contains evidence.2.ownerId = true)
    (hmemory : t.memories.contains evidence.2.memoryId = true)
    (hsource : refersTo evidence.2.sourceId t.memorySources.contains = true) :
    Writes (addClaimEvidenceOn evidence) t (fun _ => True) := by
  unfold Writes addClaimEvidenceOn checked
  rw [hclaim, hmemory, hsource]
  exact ⟨_, rfl, Grown.of_eq rfl rfl rfl rfl rfl rfl rfl, trivial⟩

theorem writes_upsertEntityRelationshipOn {relationship : EntityRelationship F} {t : Tables F}
    (hsource : t.entities.contains relationship.2.sourceEntityId = true)
    (htarget : t.entities.contains relationship.2.targetEntityId = true)
    (hrun : refersTo relationship.2.sourceRunId t.extractionRuns.contains = true) :
    Writes (upsertEntityRelationshipOn relationship) t
      (fun t' => t'.entityRelationships.contains relationship.1 = true) := by
  unfold Writes upsertEntityRelationshipOn checked
  rw [hsource, htarget, hrun]
  refine ⟨_, rfl, ⟨fun _ h => h, fun _ h => h, fun _ h => h, fun _ h => h, fun _ h => h,
    fun _ h => h, ?_⟩, contains_upsert_self _ _ _⟩
  intro id hid
  exact contains_upsert_of_contains hid

theorem writes_addRelationshipEvidenceOn {evidence : RelationshipEvidence F} {t : Tables F}
    (howner : t.entityRelationships.contains evidence.2.ownerId = true)
    (hmemory : t.memories.contains evidence.2.memoryId = true)
    (hsource : refersTo evidence.2.sourceId t.memorySources.contains = true) :
    Writes (addRelationshipEvidenceOn evidence) t (fun _ => True) := by
  unfold Writes addRelationshipEvidenceOn checked
  rw [howner, hmemory, hsource]
  exact ⟨_, rfl, Grown.of_eq rfl rfl rfl rfl rfl rfl rfl, trivial⟩

/-- Statements in a loop, each of which is not refused as long as no row is lost, and
writes a row that stays as long as none is lost. -/
theorem writes_forEach {α : Type} {xs : List α} {body : α -> Tx F} {R : α -> Tables F -> Prop}
    {t : Tables F}
    (hbody : forall x, x ∈ xs -> forall s, Grown t s -> Writes (body x) s (R x))
    (hstays : forall x s s', Grown s s' -> R x s -> R x s') :
    Writes (Atomic.forEach xs body) t (fun t' => forall x, x ∈ xs -> R x t') := by
  induction xs generalizing t with
  | nil => exact ⟨t, rfl, Grown.refl t, fun x hx => absurd hx List.not_mem_nil⟩
  | cons x rest ih =>
      rcases hbody x List.mem_cons_self t (Grown.refl t) with ⟨mid, hmid, hgrown, hR⟩
      rcases ih (fun y hy s hs => hbody y (List.mem_cons_of_mem x hy) s (hgrown.trans hs))
        with ⟨t', hrest, hgrown', hR'⟩
      refine ⟨t', Atomic.andThen_eq_ok.mpr ⟨mid, hmid, hrest⟩, hgrown.trans hgrown', ?_⟩
      intro y hy
      cases List.mem_cons.mp hy with
      | inl heq =>
          rw [heq]
          exact hstays x mid t' hgrown' hR
      | inr hmem => exact hR' y hmem

/-- A loop over rows that nothing refers to. -/
theorem writes_forEach_leaf {α : Type} {xs : List α} {body : α -> Tx F} {t : Tables F}
    (hbody : forall x, x ∈ xs -> forall s, Grown t s -> Writes (body x) s (fun _ => True)) :
    Writes (Atomic.forEach xs body) t (fun _ => True) := by
  rcases writes_forEach (R := fun _ _ => True) hbody (fun _ _ _ _ h => h)
    with ⟨t', hrun, hgrown, _⟩
  exact ⟨t', hrun, hgrown, trivial⟩

theorem Writes.andThen {a b : Tx F} {t : Tables F} {R R' : Tables F -> Prop}
    (ha : Writes a t R) (hb : forall s, Grown t s -> R s -> Writes b s R') :
    Writes (Atomic.andThen a b) t R' := by
  rcases ha with ⟨mid, hmid, hgrown, hR⟩
  rcases hb mid hgrown hR with ⟨t', hend, hgrown', hR'⟩
  exact ⟨t', Atomic.andThen_eq_ok.mpr ⟨mid, hmid, hend⟩, hgrown.trans hgrown', hR'⟩

theorem refersTo_of_forall {α : Type} {column : Option α} {stored : α -> Bool}
    (h : forall key, column = some key -> stored key = true) :
    refersTo column stored = true := by
  cases column with
  | none => rfl
  | some key => exact h key rfl

theorem contains_of_mem_keys {κ ν α : Type} [DecidableEq κ] {table : Assoc κ ν}
    {rows : List (κ × α)} (h : forall row, row ∈ rows -> table.contains row.1 = true) {key : κ}
    (hkey : key ∈ rows.map Prod.fst) : table.contains key = true := by
  rcases List.mem_map.mp hkey with ⟨row, hrow, heq⟩
  rw [← heq]
  exact h row hrow

/-- Entities, then their aliases, then links of stored memories to them. -/
theorem writes_upsertEntityBundle {t : Tables F} {entities : List (EntityRecord F)}
    {aliases : List (EntityAlias F)} {links : List (MemoryEntityLink F)}
    (haliases : forall name, name ∈ aliases -> name.1.1 ∈ entities.map Prod.fst)
    (hlinks : forall link, link ∈ links ->
      t.memories.contains link.1.1 = true ∧ link.1.2.1 ∈ entities.map Prod.fst) :
    Writes (upsertEntityBundle entities aliases links) t
      (fun t' => forall id, id ∈ entities.map Prod.fst -> t'.entities.contains id = true) := by
  have hentities : Writes (Atomic.forEach entities upsertEntityOn) t
      (fun t' => forall entity, entity ∈ entities -> t'.entities.contains entity.1 = true) :=
    writes_forEach (fun entity _ s _ => writes_upsertEntityOn entity s)
      (fun entity s s' hgrown h => hgrown.entities entity.1 h)
  refine hentities.andThen ?_
  intro t1 hgrown1 hrows
  have hstored : forall s, Grown t1 s -> forall id, id ∈ entities.map Prod.fst ->
      s.entities.contains id = true :=
    fun s hs id hid => hs.entities id (contains_of_mem_keys hrows hid)
  have hnames : Writes (Atomic.forEach aliases addEntityAliasOn) t1 (fun _ => True) := by
    refine writes_forEach_leaf ?_
    intro name hname s hs
    exact writes_addEntityAliasOn (hstored s hs _ (haliases name hname))
  refine hnames.andThen ?_
  intro t2 hgrown2 _
  have hwritten : Writes (Atomic.forEach links linkMemoryEntityOn) t2 (fun _ => True) := by
    refine writes_forEach_leaf ?_
    intro link hlink s hs
    exact writes_linkMemoryEntityOn
      ((hgrown1.trans (hgrown2.trans hs)).memories _ (hlinks link hlink).1)
      (hstored s (hgrown2.trans hs) _ (hlinks link hlink).2)
  rcases hwritten with ⟨t3, hrun, hgrown3, _⟩
  exact ⟨t3, hrun, hgrown3, hstored t3 (hgrown2.trans hgrown3)⟩

/-!
## What a bundle writes
-/

/-- The entities after some have been written; a row that was there keeps its creation
time. -/
def upsertEntities (records : List (EntityRecord F)) (entities : Assoc String (EntityRow F)) :
    Assoc String (EntityRow F) :=
  records.foldl (fun entities record => entities.upsert record.1 (fun old =>
    { record.2 with
      createdAt := (old.map EntityRow.createdAt).getD record.2.createdAt })) entities

/-- A relation of the tables, read and replaced. -/
structure Relation (F β : Type) where
  get : Tables F -> β
  put : Tables F -> β -> Tables F
  get_put : forall t rows, get (put t rows) = rows
  put_put : forall t rows rows', put (put t rows) rows' = put t rows'
  put_get : forall t, put t (get t) = t

/-- A loop of statements on one relation folds its rows into that relation. -/
theorem Relation.forEach_ok {α β : Type} (relation : Relation F β) (step : β -> α -> β)
    {body : α -> Tx F}
    (hbody : forall x t t', body x t = Except.ok t' ->
      t' = relation.put t (step (relation.get t) x))
    {xs : List α} {t t' : Tables F} (h : Atomic.forEach xs body t = Except.ok t') :
    t' = relation.put t (xs.foldl step (relation.get t)) := by
  induction xs generalizing t with
  | nil =>
      cases h
      exact (relation.put_get _).symm
  | cons x rest ih =>
      rcases Atomic.andThen_eq_ok.mp h with ⟨mid, hmid, hrest⟩
      have hend := ih hrest
      rw [hbody x t mid hmid, relation.get_put, relation.put_put] at hend
      exact hend

theorem forEach_upsertEntityOn_ok {records : List (EntityRecord F)} {t t' : Tables F}
    (h : Atomic.forEach records upsertEntityOn t = Except.ok t') :
    t' = { t with entities := upsertEntities records t.entities } := by
  let entities : Relation F (Assoc String (EntityRow F)) :=
    ⟨Tables.entities, fun t rows => { t with entities := rows }, fun _ _ => rfl,
      fun _ _ _ => rfl, fun _ => rfl⟩
  refine entities.forEach_ok _ ?_ h
  intro record t t' hrun
  cases hrun
  rfl

theorem forEach_addEntityAliasOn_ok {aliases : List (EntityAlias F)} {t t' : Tables F}
    (h : Atomic.forEach aliases addEntityAliasOn t = Except.ok t') :
    t' = { t with
      entityAliases := aliases.foldl (fun table x => table.insert x.1 x.2) t.entityAliases } := by
  let names : Relation F _ :=
    ⟨Tables.entityAliases, fun t rows => { t with entityAliases := rows }, fun _ _ => rfl,
      fun _ _ _ => rfl, fun _ => rfl⟩
  exact names.forEach_ok _ (fun _ _ _ hrun => (checked_ok hrun).2) h

theorem forEach_linkMemoryEntityOn_ok {links : List (MemoryEntityLink F)} {t t' : Tables F}
    (h : Atomic.forEach links linkMemoryEntityOn t = Except.ok t') :
    t' = { t with
      memoryEntities := links.foldl (fun table x => table.insert x.1 x.2) t.memoryEntities } := by
  let rows : Relation F _ :=
    ⟨Tables.memoryEntities, fun t rows => { t with memoryEntities := rows }, fun _ _ => rfl,
      fun _ _ _ => rfl, fun _ => rfl⟩
  exact rows.forEach_ok _ (fun _ _ _ hrun => (checked_ok hrun).2) h

theorem upsertEntityBundle_ok {entities : List (EntityRecord F)} {aliases : List (EntityAlias F)}
    {links : List (MemoryEntityLink F)} {t t' : Tables F}
    (h : upsertEntityBundle entities aliases links t = Except.ok t') :
    t'.entities = upsertEntities entities t.entities ∧
      t'.memoryEntities =
        links.foldl (fun table x => table.insert x.1 x.2) t.memoryEntities := by
  rcases Atomic.andThen_eq_ok.mp h with ⟨t1, hentities, hrest⟩
  rcases Atomic.andThen_eq_ok.mp hrest with ⟨t2, haliases, hlinks⟩
  rw [forEach_linkMemoryEntityOn_ok hlinks, forEach_addEntityAliasOn_ok haliases,
    forEach_upsertEntityOn_ok hentities]
  exact ⟨rfl, rfl⟩

def upsertClaim (table : Assoc String (ClaimRow F)) (claim : ClaimRecord F) :
    Assoc String (ClaimRow F) :=
  table.upsert claim.1 (fun old =>
    { claim.2 with createdAt := (old.map ClaimRow.createdAt).getD claim.2.createdAt })

def upsertRelationship (table : Assoc String (RelationshipRow F))
    (relationship : EntityRelationship F) : Assoc String (RelationshipRow F) :=
  table.upsert relationship.1 (fun old =>
    { relationship.2 with
      createdAt := (old.map RelationshipRow.createdAt).getD relationship.2.createdAt })

/-- The tables with the rows of a batch; the other relations are as they were. -/
def persisted (artifacts : ExtractionArtifacts F) (t : Tables F) : Tables F :=
  { t with
    extractionRuns := t.extractionRuns.upsert artifacts.run.1 (fun old =>
      { artifacts.run.2 with
        startedAt := (old.map ExtractionRunRow.startedAt).getD artifacts.run.2.startedAt })
    entities := upsertEntities artifacts.entities t.entities
    entityAliases := artifacts.entityAliases.foldl (fun table x => table.insert x.1 x.2)
      t.entityAliases
    memoryEntities := artifacts.memoryEntities.foldl (fun table x => table.insert x.1 x.2)
      t.memoryEntities
    claims := artifacts.claims.foldl upsertClaim t.claims
    claimEntities := artifacts.claimEntities.foldl (fun table x => table.insert x.1 x.2)
      t.claimEntities
    claimEvidence := artifacts.claimEvidence.foldl upsertEvidence t.claimEvidence
    entityRelationships := artifacts.relationships.foldl upsertRelationship
      t.entityRelationships
    relationshipEvidence := artifacts.relationshipEvidence.foldl upsertEvidence
      t.relationshipEvidence }

/-- A transaction that succeeds has written the batch, and nothing else. -/
theorem persistExtractionArtifacts_ok {artifacts : ExtractionArtifacts F} {t t' : Tables F}
    (h : persistExtractionArtifacts artifacts t = Except.ok t') :
    t' = persisted artifacts t := by
  rcases Atomic.andThen_eq_ok.mp h with ⟨t1, hrun, h⟩
  rcases Atomic.andThen_eq_ok.mp h with ⟨t2, hbundle, h⟩
  rcases Atomic.andThen_eq_ok.mp h with ⟨t3, hclaims, h⟩
  rcases Atomic.andThen_eq_ok.mp h with ⟨t4, hlinks, h⟩
  rcases Atomic.andThen_eq_ok.mp h with ⟨t5, hevidence, h⟩
  rcases Atomic.andThen_eq_ok.mp h with ⟨t6, hrelationships, hproofs⟩
  rcases Atomic.andThen_eq_ok.mp hbundle with ⟨s1, hentities, hbundle⟩
  rcases Atomic.andThen_eq_ok.mp hbundle with ⟨s2, haliases, hmemories⟩
  let claims : Relation F _ :=
    ⟨Tables.claims, fun t rows => { t with claims := rows }, fun _ _ => rfl,
      fun _ _ _ => rfl, fun _ => rfl⟩
  let claimEntities : Relation F _ :=
    ⟨Tables.claimEntities, fun t rows => { t with claimEntities := rows }, fun _ _ => rfl,
      fun _ _ _ => rfl, fun _ => rfl⟩
  let claimEvidence : Relation F _ :=
    ⟨Tables.claimEvidence, fun t rows => { t with claimEvidence := rows }, fun _ _ => rfl,
      fun _ _ _ => rfl, fun _ => rfl⟩
  let relationships : Relation F _ :=
    ⟨Tables.entityRelationships, fun t rows => { t with entityRelationships := rows },
      fun _ _ => rfl, fun _ _ _ => rfl, fun _ => rfl⟩
  let relationshipEvidence : Relation F _ :=
    ⟨Tables.relationshipEvidence, fun t rows => { t with relationshipEvidence := rows },
      fun _ _ => rfl, fun _ _ _ => rfl, fun _ => rfl⟩
  have h3 := claims.forEach_ok upsertClaim (fun _ _ _ hstep => (checked_ok hstep).2) hclaims
  have h4 := claimEntities.forEach_ok (fun rows (x : ClaimEntityLink F) => rows.insert x.1 x.2)
    (fun _ _ _ hstep => (checked_ok hstep).2) hlinks
  have h5 := claimEvidence.forEach_ok upsertEvidence
    (fun _ _ _ hstep => (checked_ok hstep).2) hevidence
  have h6 := relationships.forEach_ok upsertRelationship
    (fun _ _ _ hstep => (checked_ok hstep).2) hrelationships
  have h7 := relationshipEvidence.forEach_ok upsertEvidence
    (fun _ _ _ hstep => (checked_ok hstep).2) hproofs
  rw [h7, h6, h5, h4, h3, forEach_linkMemoryEntityOn_ok hmemories,
    forEach_addEntityAliasOn_ok haliases, forEach_upsertEntityOn_ok hentities,
    (checked_ok hrun).2]
  rfl

theorem replaceMemoryEntityBundle_ok {memoryId : MemoryId} {entities : List (EntityRecord F)}
    {aliases : List (EntityAlias F)} {links : List (MemoryEntityLink F)} {t t' : Tables F}
    (h : replaceMemoryEntityBundle memoryId entities aliases links t = Except.ok t') :
    t'.entities = upsertEntities entities t.entities ∧
      t'.memoryEntities = links.foldl (fun table x => table.insert x.1 x.2)
        (t.memoryEntities.deleteWhere (fun k _ => decide (k.1 = memoryId))) := by
  rcases Atomic.andThen_eq_ok.mp h with ⟨mid, hmid, hrest⟩
  cases hmid
  exact upsertEntityBundle_ok hrest

/-- Links of a stored memory to the entities that are written with them. -/
theorem replaceMemoryEntityBundle_succeeds {memoryId : MemoryId}
    {entities : List (EntityRecord F)} {aliases : List (EntityAlias F)}
    {links : List (MemoryEntityLink F)} {t : Tables F}
    (hmemory : t.memories.contains memoryId = true)
    (haliases : forall name, name ∈ aliases -> name.1.1 ∈ entities.map Prod.fst)
    (hlinks : forall link, link ∈ links ->
      link.1.1 = memoryId ∧ link.1.2.1 ∈ entities.map Prod.fst) :
    exists t', replaceMemoryEntityBundle memoryId entities aliases links t = Except.ok t' := by
  have hwrites := writes_upsertEntityBundle
    (t := { t with
      memoryEntities := t.memoryEntities.deleteWhere (fun k _ => decide (k.1 = memoryId)) })
    haliases (fun link hlink => by
      rw [(hlinks link hlink).1]
      exact ⟨hmemory, (hlinks link hlink).2⟩)
  rcases hwrites with ⟨t', hrun, _⟩
  exact ⟨t', Atomic.andThen_eq_ok.mpr ⟨_, rfl, hrun⟩⟩

end Tables
end Sqlite
end MenteDb
