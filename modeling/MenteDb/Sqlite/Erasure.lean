import MenteDb.Sqlite.Forget

/-!
# What a hard forget removes and what it keeps

The rows a hard forget may touch are described from the state before it: the
rows it names, the rows that hang on a stored memory, and whatever the declared
{lit}`ON DELETE` actions reach from there.  Every intermediate state of the
transaction differs from the first one in such rows only.
-/

namespace MenteDb
namespace Sqlite

open Foundation

variable {F : Type}

/-- A row, named by its table and its key. -/
inductive RowRef (F : Type) where
  | memory (id : MemoryId)
  | tag (key : MemoryId × String)
  | vec (rowid : Nat)
  | fts (rowid : Nat) (content : String)
  | edge (row : EdgeRow F)
  | source (sourceId : String)
  | extractionRun (runId : String)
  | entity (entityId : String)
  | entityAlias (key : String × String)
  | memoryEntity (key : MemoryId × String × String)
  | claim (claimId : String)
  | claimEntity (key : String × String × String)
  | claimEvidence (evidenceId : String)
  | relationship (relationshipId : String)
  | relationshipEvidence (evidenceId : String)

/-- Rows removed by the explicit deletes and by {lit}`ON DELETE CASCADE`. -/
inductive Deleted (t : Tables F) (a : PolicyAffected) : RowRef F -> Prop where
  | memory {id row} : id ∈ a.memoryIds -> t.memories.find? id = some row ->
      Deleted t a (RowRef.memory id)
  | claim {c row} : c ∈ a.claimIds -> t.claims.find? c = some row ->
      Deleted t a (RowRef.claim c)
  | relationship {r row} : r ∈ a.relationshipIds ->
      t.entityRelationships.find? r = some row -> Deleted t a (RowRef.relationship r)
  | entity {e row} : e ∈ a.entityIds -> t.entities.find? e = some row ->
      Deleted t a (RowRef.entity e)
  | tag {id tag} : Deleted t a (RowRef.memory id) -> Deleted t a (RowRef.tag (id, tag))
  | vec {id row} : Deleted t a (RowRef.memory id) -> t.memories.find? id = some row ->
      Deleted t a (RowRef.vec row.rowid)
  | fts {id row} : Deleted t a (RowRef.memory id) -> t.memories.find? id = some row ->
      Deleted t a (RowRef.fts row.rowid row.content)
  | edgeSource {row} : Deleted t a (RowRef.memory row.source) ->
      Deleted t a (RowRef.edge row)
  | edgeTarget {row} : Deleted t a (RowRef.memory row.target) ->
      Deleted t a (RowRef.edge row)
  | source {s row} : t.memorySources.find? s = some row ->
      Deleted t a (RowRef.memory row.memoryId) -> Deleted t a (RowRef.source s)
  | memoryEntityOfMemory {key} : Deleted t a (RowRef.memory key.1) ->
      Deleted t a (RowRef.memoryEntity key)
  | memoryEntityOfEntity {key} : Deleted t a (RowRef.entity key.2.1) ->
      Deleted t a (RowRef.memoryEntity key)
  | entityAlias {key} : Deleted t a (RowRef.entity key.1) ->
      Deleted t a (RowRef.entityAlias key)
  | claimEntityOfClaim {key} : Deleted t a (RowRef.claim key.1) ->
      Deleted t a (RowRef.claimEntity key)
  | claimEntityOfEntity {key} : Deleted t a (RowRef.entity key.2.1) ->
      Deleted t a (RowRef.claimEntity key)
  | claimEvidenceOfClaim {ev row} : t.claimEvidence.find? ev = some row ->
      Deleted t a (RowRef.claim row.ownerId) -> Deleted t a (RowRef.claimEvidence ev)
  | claimEvidenceOfMemory {ev row} : t.claimEvidence.find? ev = some row ->
      Deleted t a (RowRef.memory row.memoryId) -> Deleted t a (RowRef.claimEvidence ev)
  | relationshipOfEntity {r row e} : t.entityRelationships.find? r = some row ->
      (row.sourceEntityId = e ∨ row.targetEntityId = e) ->
      Deleted t a (RowRef.entity e) -> Deleted t a (RowRef.relationship r)
  | relationshipEvidenceOfRelationship {ev row} :
      t.relationshipEvidence.find? ev = some row ->
      Deleted t a (RowRef.relationship row.ownerId) ->
      Deleted t a (RowRef.relationshipEvidence ev)
  | relationshipEvidenceOfMemory {ev row} :
      t.relationshipEvidence.find? ev = some row ->
      Deleted t a (RowRef.memory row.memoryId) ->
      Deleted t a (RowRef.relationshipEvidence ev)

/-- Rows cleared by {lit}`ON DELETE SET NULL`. -/
inductive Nulled (t : Tables F) (a : PolicyAffected) : RowRef F -> Prop where
  | extractionRun {r row id} : t.extractionRuns.find? r = some row ->
      row.sourceMemoryId = some id -> Deleted t a (RowRef.memory id) ->
      Nulled t a (RowRef.extractionRun r)
  | claim {c row e} : t.claims.find? c = some row ->
      (row.subjectEntityId = some e ∨ row.objectEntityId = some e) ->
      Deleted t a (RowRef.entity e) -> Nulled t a (RowRef.claim c)
  | claimEvidence {ev row s} : t.claimEvidence.find? ev = some row ->
      row.sourceId = some s -> Deleted t a (RowRef.source s) ->
      Nulled t a (RowRef.claimEvidence ev)
  | relationshipEvidence {ev row s} : t.relationshipEvidence.find? ev = some row ->
      row.sourceId = some s -> Deleted t a (RowRef.source s) ->
      Nulled t a (RowRef.relationshipEvidence ev)

/-- Reachable from the affected ids. -/
def Reached (t : Tables F) (a : PolicyAffected) (ref : RowRef F) : Prop :=
  Deleted t a ref ∨ Nulled t a ref

/-!
## The fate of one row

A row is unchanged, deleted, or cleared in a foreign key.
-/

def Fate {ν : Type} (del nul : Prop) (cleared : ν -> ν -> Prop)
    (old new : Option ν) : Prop :=
  new = old ∨ (new = none ∧ del) ∨
    (nul ∧ exists v0 v, old = some v0 ∧ new = some v ∧ cleared v0 v)

namespace Fate

variable {ν : Type} {del nul : Prop} {cleared : ν -> ν -> Prop} {old new : Option ν}

theorem refl (old : Option ν) : Fate del nul cleared old old := Or.inl rfl

/-- A row that is still there comes from a row of the first state. -/
theorem origin (h : Fate del nul cleared old new) {v : ν} (hv : new = some v) :
    exists v0, old = some v0 ∧ (v = v0 ∨ cleared v0 v) := by
  rcases h with heq | ⟨hnone, _⟩ | ⟨_, v0, w, hold, hnew, hclear⟩
  · exact ⟨v, by rw [← heq, hv], Or.inl rfl⟩
  · rw [hnone] at hv
    cases hv
  · rw [hnew] at hv
    cases hv
    exact ⟨v0, hold, Or.inr hclear⟩

theorem delete (h : Fate del nul cleared old new) (p : ν -> Bool)
    (hp : forall v, new = some v -> p v = true -> del) :
    Fate del nul cleared old (new.filter (fun v => !p v)) := by
  cases hnew : new with
  | none =>
      rw [hnew] at h
      exact h
  | some v =>
      rw [hnew] at h
      cases hpv : p v with
      | false =>
          have hkeep : Option.filter (fun v => !p v) (some v) = some v := by simp [hpv]
          rw [hkeep]
          exact h
      | true => exact Or.inr (Or.inl ⟨by simp [hpv], hp v hnew hpv⟩)

theorem clear (h : Fate del nul cleared old new) (p : ν -> Bool) (f : ν -> ν)
    (hp : forall v0 v, old = some v0 -> new = some v -> (v = v0 ∨ cleared v0 v) ->
      p v = true -> nul ∧ cleared v0 (f v)) :
    Fate del nul cleared old (new.map (fun v => if p v then f v else v)) := by
  cases hnew : new with
  | none =>
      rw [hnew] at h
      exact h
  | some v =>
      cases hpv : p v with
      | false =>
          rw [hnew] at h
          simpa [hpv] using h
      | true =>
          rcases h.origin hnew with ⟨v0, hold, hv⟩
          have hboth := hp v0 v hold hnew hv hpv
          exact Or.inr (Or.inr ⟨hboth.1, v0, f v, hold, by simp [hpv], hboth.2⟩)

section Tables

variable {κ : Type} [DecidableEq κ] {table : Assoc κ ν} {k : κ}

/-- A statement that deletes rows of a table. -/
theorem deleteWhere (h : Fate del nul cleared old (table.find? k)) {p : κ -> ν -> Bool}
    (hp : forall v, table.find? k = some v -> p k v = true -> del) :
    Fate del nul cleared old ((table.deleteWhere p).find? k) := by
  rw [Assoc.find?_deleteWhere]
  exact h.delete (p k) hp

/-- A statement that clears a foreign key in rows of a table. -/
theorem update (h : Fate del nul cleared old (table.find? k)) {p : κ -> ν -> Bool}
    {f : κ -> ν -> ν}
    (hp : forall v0 v, old = some v0 -> table.find? k = some v -> (v = v0 ∨ cleared v0 v) ->
      p k v = true -> nul ∧ cleared v0 (f k v)) :
    Fate del nul cleared old ((table.update p f).find? k) := by
  rw [Assoc.find?_update]
  exact h.clear (p k) (f k) hp

end Tables

theorem eq_of_not (h : Fate del nul cleared old new) (hdel : ¬ del) (hnul : ¬ nul) :
    new = old := by
  rcases h with heq | ⟨_, hd⟩ | ⟨hn, _⟩
  · exact heq
  · exact absurd hd hdel
  · exact absurd hn hnul

end Fate

/-!
## States of the transaction
-/

def ClaimCleared (c0 c : ClaimRow F) : Prop :=
  exists subject object,
    (subject = c0.subjectEntityId ∨ subject = none) ∧
      (object = c0.objectEntityId ∨ object = none) ∧
      c = { c0 with subjectEntityId := subject, objectEntityId := object }

theorem ClaimCleared.refl (c : ClaimRow F) : ClaimCleared c c :=
  ⟨c.subjectEntityId, c.objectEntityId, Or.inl rfl, Or.inl rfl, rfl⟩

/-- What a cleared claim refers to, the claim of the first state refers to. -/
theorem ClaimCleared.refers {c0 c : ClaimRow F} (h : ClaimCleared c0 c) {e : String}
    (href : c.subjectEntityId = some e ∨ c.objectEntityId = some e) :
    c0.subjectEntityId = some e ∨ c0.objectEntityId = some e := by
  rcases h with ⟨subject, object, hsub, hobj, heq⟩
  subst heq
  rcases href with href | href
  · rcases hsub with hs | hs
    · exact Or.inl (hs.symm.trans href)
    · exact absurd (hs.symm.trans href) (by simp)
  · rcases hobj with ho | ho
    · exact Or.inr (ho.symm.trans href)
    · exact absurd (ho.symm.trans href) (by simp)

theorem ClaimCleared.clear {c0 c : ClaimRow F} (h : ClaimCleared c0 c) (e : String) :
    ClaimCleared c0 { c with
      subjectEntityId := if c.subjectEntityId = some e then none else c.subjectEntityId
      objectEntityId := if c.objectEntityId = some e then none else c.objectEntityId } := by
  rcases h with ⟨subject, object, hsub, hobj, heq⟩
  subst heq
  refine ⟨_, _, ?_, ?_, rfl⟩
  · split
    · exact Or.inr rfl
    · exact hsub
  · split
    · exact Or.inr rfl
    · exact hobj

def EvidenceCleared (ev0 ev : EvidenceRow F) : Prop := ev = { ev0 with sourceId := none }

def RunCleared (r0 r : ExtractionRunRow) : Prop := r = { r0 with sourceMemoryId := none }

def vecRow (t : Tables F) (rowid : Nat) : Option (List (Nat × List F)) :=
  t.memoryVec.map (fun v => v.rows.filter (fun r => decide (r.1 = rowid)))

/-- The state {lit}`t` of the transaction differs from {lit}`t0` in reached rows only. -/
structure Between [DecidableEq F] (t0 : Tables F) (a : PolicyAffected) (t : Tables F) :
    Prop where
  memories : forall id, Fate (Deleted t0 a (RowRef.memory id)) False (fun _ _ => False)
    (t0.memories.find? id) (t.memories.find? id)
  tags : forall k, Fate (Deleted t0 a (RowRef.tag k)) False (fun _ _ => False)
    (t0.memoryTags.find? k) (t.memoryTags.find? k)
  vec : forall r, vecRow t r = vecRow t0 r ∨ Deleted t0 a (RowRef.vec r)
  edges : forall row, t.edges.count row = t0.edges.count row ∨
    Deleted t0 a (RowRef.edge row)
  sources : forall s, Fate (Deleted t0 a (RowRef.source s)) False (fun _ _ => False)
    (t0.memorySources.find? s) (t.memorySources.find? s)
  runs : forall r, Fate False (Nulled t0 a (RowRef.extractionRun r)) RunCleared
    (t0.extractionRuns.find? r) (t.extractionRuns.find? r)
  entities : forall e, Fate (Deleted t0 a (RowRef.entity e)) False (fun _ _ => False)
    (t0.entities.find? e) (t.entities.find? e)
  aliases : forall k, Fate (Deleted t0 a (RowRef.entityAlias k)) False (fun _ _ => False)
    (t0.entityAliases.find? k) (t.entityAliases.find? k)
  memoryEntities : forall k, Fate (Deleted t0 a (RowRef.memoryEntity k)) False
    (fun _ _ => False) (t0.memoryEntities.find? k) (t.memoryEntities.find? k)
  claims : forall c, Fate (Deleted t0 a (RowRef.claim c)) (Nulled t0 a (RowRef.claim c))
    ClaimCleared (t0.claims.find? c) (t.claims.find? c)
  claimEntities : forall k, Fate (Deleted t0 a (RowRef.claimEntity k)) False
    (fun _ _ => False) (t0.claimEntities.find? k) (t.claimEntities.find? k)
  claimEvidence : forall ev, Fate (Deleted t0 a (RowRef.claimEvidence ev))
    (Nulled t0 a (RowRef.claimEvidence ev)) EvidenceCleared
    (t0.claimEvidence.find? ev) (t.claimEvidence.find? ev)
  relationships : forall r, Fate (Deleted t0 a (RowRef.relationship r)) False
    (fun _ _ => False) (t0.entityRelationships.find? r) (t.entityRelationships.find? r)
  relationshipEvidence : forall ev, Fate (Deleted t0 a (RowRef.relationshipEvidence ev))
    (Nulled t0 a (RowRef.relationshipEvidence ev)) EvidenceCleared
    (t0.relationshipEvidence.find? ev) (t.relationshipEvidence.find? ev)
  rest : t.metaEmbeddingDim = t0.metaEmbeddingDim ∧ t.conversations = t0.conversations

namespace Between

/-- A row of a table without clearing actions is the row of the first state. -/
theorem origin_eq {ν : Type} {del : Prop} {old new : Option ν}
    (h : Fate del False (fun _ _ => False) old new) {v : ν} (hv : new = some v) :
    old = some v := by
  rcases h.origin hv with ⟨v0, hold, heq | hfalse⟩
  · rw [heq]
    exact hold
  · exact absurd hfalse not_false

theorem evidence_origin {del nul : Prop} {old new : Option (EvidenceRow F)}
    (h : Fate del nul EvidenceCleared old new) {ev : EvidenceRow F} (hv : new = some ev) :
    exists ev0, old = some ev0 ∧ ev0.ownerId = ev.ownerId ∧ ev0.memoryId = ev.memoryId ∧
      (ev.sourceId = ev0.sourceId ∨ ev.sourceId = none) := by
  rcases h.origin hv with ⟨ev0, hold, heq | hclear⟩
  · subst heq
    exact ⟨ev, hold, rfl, rfl, Or.inl rfl⟩
  · rw [EvidenceCleared] at hclear
    subst hclear
    exact ⟨ev0, hold, rfl, rfl, Or.inr rfl⟩

theorem evidenceWithout_fate {table table0 : Assoc String (EvidenceRow F)}
    {ev : String} {del nul : Prop} {id : MemoryId} {sources : List String}
    (h : Fate del nul EvidenceCleared (table0.find? ev) (table.find? ev))
    (hdel : forall row, table0.find? ev = some row -> row.memoryId = id -> del)
    (hnul : forall row s, table0.find? ev = some row -> row.sourceId = some s ->
      s ∈ sources -> nul) :
    Fate del nul EvidenceCleared (table0.find? ev)
      ((Tables.evidenceWithout table id sources).find? ev) := by
  unfold Tables.evidenceWithout
  have hafter := h.deleteWhere (p := fun _ row => decide (row.memoryId = id)) (by
    intro row hrow hid
    rcases evidence_origin h hrow with ⟨row0, hold, _, hmem, _⟩
    exact hdel row0 hold (by rw [hmem]; simpa using hid))
  apply hafter.update
  intro row0 row hold hrow hcases hsource
  rcases Option.any_eq_true_iff_get _ _ |>.mp hsource with ⟨hsome, hin⟩
  have hget : row.sourceId = some (row.sourceId.get hsome) := by simp
  have hcleared : EvidenceCleared row0 { row with sourceId := none } := by
    cases hcases with
    | inl heq =>
        rw [heq]
        rfl
    | inr hclear =>
        rw [EvidenceCleared] at hclear
        subst hclear
        rfl
  refine ⟨?_, hcleared⟩
  cases hcases with
  | inl heq =>
      subst heq
      exact hnul row (row.sourceId.get hsome) hold hget (by simpa using hin)
  | inr hclear =>
      rw [EvidenceCleared] at hclear
      subst hclear
      cases hsome

variable [DecidableEq F] {t0 t : Tables F} {a : PolicyAffected}

theorem refl (t0 : Tables F) (a : PolicyAffected) : Between t0 a t0 where
  memories _ := Fate.refl _
  tags _ := Fate.refl _
  vec _ := Or.inl rfl
  edges _ := Or.inl rfl
  sources _ := Fate.refl _
  runs _ := Fate.refl _
  entities _ := Fate.refl _
  aliases _ := Fate.refl _
  memoryEntities _ := Fate.refl _
  claims _ := Fate.refl _
  claimEntities _ := Fate.refl _
  claimEvidence _ := Fate.refl _
  relationships _ := Fate.refl _
  relationshipEvidence _ := Fate.refl _
  rest := ⟨rfl, rfl⟩

/-!
### Relationships and claims
-/

theorem deleteRelationshipsWhere (h : Between t0 a t)
    (p : String -> RelationshipRow F -> Bool)
    (hp : forall r row, t0.entityRelationships.find? r = some row -> p r row = true ->
      Deleted t0 a (RowRef.relationship r)) :
    Between t0 a (t.deleteRelationshipsWhere p) :=
  { h with
    relationships := by
      intro r
      apply (h.relationships r).deleteWhere
      intro row hrow hpr
      exact hp r row (origin_eq (h.relationships r) hrow) hpr
    relationshipEvidence := by
      intro ev
      apply (h.relationshipEvidence ev).deleteWhere
      intro row hrow hgone
      rcases evidence_origin (h.relationshipEvidence ev) hrow with ⟨row0, hold, howner, _⟩
      have hmem : row.ownerId ∈
          (t.entityRelationships.entries.filter (fun e => p e.1 e.2)).map Prod.fst := by
        simpa using hgone
      rcases List.mem_map.mp hmem with ⟨e, he, hkey⟩
      have hparts := List.mem_filter.mp he
      have hfind := Assoc.find?_eq_some_iff.mpr hparts.1
      have hdel := hp e.1 e.2 (origin_eq (h.relationships e.1) hfind) hparts.2
      rw [hkey, ← howner] at hdel
      exact Deleted.relationshipEvidenceOfRelationship hold hdel }

theorem deleteRelationship (h : Between t0 a t) {r : String} (hr : r ∈ a.relationshipIds) :
    Between t0 a (t.deleteRelationship r) := by
  apply h.deleteRelationshipsWhere
  intro k row hrow hk
  have heq : k = r := by simpa using hk
  subst heq
  exact Deleted.relationship hr hrow

theorem deleteClaim (h : Between t0 a t) {c : String} (hc : c ∈ a.claimIds) :
    Between t0 a (t.deleteClaim c) := by
  unfold Tables.deleteClaim
  cases hstored : t.claims.contains c with
  | false => simpa using h
  | true =>
      rcases Assoc.contains_iff_exists.mp hstored with ⟨row, hrow⟩
      rcases (h.claims c).origin hrow with ⟨row0, hrow0, _⟩
      have hclaim : Deleted t0 a (RowRef.claim c) := Deleted.claim hc hrow0
      simp only [if_true]
      exact
        { h with
          claims := by
            intro k
            apply (h.claims k).deleteWhere
            intro v _ hk
            have heq : k = c := by simpa using hk
            rw [heq]
            exact hclaim
          claimEntities := by
            intro k
            apply (h.claimEntities k).deleteWhere
            intro v _ hk
            have heq : k.1 = c := by simpa using hk
            exact Deleted.claimEntityOfClaim (by rw [heq]; exact hclaim)
          claimEvidence := by
            intro ev
            apply (h.claimEvidence ev).deleteWhere
            intro v hv hown
            rcases evidence_origin (h.claimEvidence ev) hv with ⟨v0, hold, howner, _⟩
            have heq : v.ownerId = c := by simpa using hown
            exact Deleted.claimEvidenceOfClaim hold (by rw [howner, heq]; exact hclaim) }

/-!
### Memories
-/

omit [DecidableEq F] in
theorem vecRow_deleteVec_of_ne (t : Tables F) {r rowid : Nat} (hr : ¬ r = rowid) :
    vecRow (t.deleteVec rowid) r = vecRow t r := by
  unfold vecRow Tables.deleteVec
  cases t.memoryVec with
  | none => rfl
  | some v =>
      simp only [Option.map_some, Option.some.injEq, List.filter_filter]
      apply List.filter_congr
      intro x _
      rw [Bool.eq_iff_iff]
      simp only [Bool.and_eq_true, decide_eq_true_eq, ne_eq]
      constructor
      · intro hx
        exact hx.1
      · intro hx
        exact ⟨hx, by rw [hx]; exact hr⟩

theorem deleteMemory (h : Between t0 a t) {id : MemoryId} (hid : id ∈ a.memoryIds) :
    Between t0 a (t.deleteMemory id) := by
  unfold Tables.deleteMemory
  cases hrowid : t.memories.rowidOf id with
  | none => exact h
  | some rowid =>
      rcases Option.map_eq_some_iff.mp hrowid with ⟨row, hrow, hrowideq⟩
      have hrow0 := origin_eq (h.memories id) hrow
      have hmemory : Deleted t0 a (RowRef.memory id) := Deleted.memory hid hrow0
      have hsources : forall s, s ∈ t.sourcesOf id -> Deleted t0 a (RowRef.source s) := by
        intro s hs
        rcases List.mem_map.mp hs with ⟨e, he, hkey⟩
        have hparts := List.mem_filter.mp he
        have hfind := Assoc.find?_eq_some_iff.mpr hparts.1
        have hfind0 := origin_eq (h.sources e.1) hfind
        have howner : e.2.memoryId = id := by simpa using hparts.2
        rw [← hkey]
        exact Deleted.source hfind0 (by rw [howner]; exact hmemory)
      exact
        { h with
          memories := by
            intro j
            show Fate _ _ _ _ ((t.memories.delete id).find? j)
            rw [MemoryTable.find?_delete]
            split
            · rename_i hj
              rw [hj]
              exact Or.inr (Or.inl ⟨rfl, hmemory⟩)
            · exact h.memories j
          tags := by
            intro k
            apply (h.tags k).deleteWhere
            intro v _ hk
            have heq : k.1 = id := by simpa using hk
            rcases k with ⟨j, tag⟩
            exact Deleted.tag (by rw [show j = id from heq]; exact hmemory)
          vec := by
            intro r
            by_cases hr : r = rowid
            · right
              rw [hr, ← hrowideq]
              exact Deleted.vec hmemory hrow0
            · have hsame := vecRow_deleteVec_of_ne t hr
              cases h.vec r with
              | inl heq => exact Or.inl (hsame.trans heq)
              | inr hdel => exact Or.inr hdel
          edges := by
            intro e
            show (t.edges.filter _).count e = _ ∨ _
            by_cases hend : e.source = id ∨ e.target = id
            · right
              cases hend with
              | inl hs => exact Deleted.edgeSource (by rw [hs]; exact hmemory)
              | inr ht => exact Deleted.edgeTarget (by rw [ht]; exact hmemory)
            · have hkeep : (!(decide (e.source = id) || decide (e.target = id))) = true := by
                simpa [not_or] using hend
              have hcount := List.count_filter (l := t.edges) (a := e)
                (p := fun e => !(decide (e.source = id) || decide (e.target = id))) hkeep
              rw [hcount]
              exact h.edges e
          sources := by
            intro s
            apply (h.sources s).deleteWhere
            intro v hv hown
            have heq : v.memoryId = id := by simpa using hown
            exact Deleted.source (origin_eq (h.sources s) hv) (by rw [heq]; exact hmemory)
          runs := by
            intro r
            apply (h.runs r).update
            intro v0 v hold hv hcases hown
            have heq : v.sourceMemoryId = some id := by simpa using hown
            cases hcases with
            | inl hsame =>
                rw [hsame] at heq ⊢
                exact ⟨Nulled.extractionRun hold heq hmemory, rfl⟩
            | inr hclear =>
                rw [RunCleared] at hclear
                rw [hclear] at heq
                cases heq
          memoryEntities := by
            intro k
            apply (h.memoryEntities k).deleteWhere
            intro v _ hk
            have heq : k.1 = id := by simpa using hk
            exact Deleted.memoryEntityOfMemory (by rw [heq]; exact hmemory)
          claimEvidence := by
            intro ev
            apply evidenceWithout_fate (h.claimEvidence ev)
            · intro v hv hmem
              exact Deleted.claimEvidenceOfMemory hv (by rw [hmem]; exact hmemory)
            · intro v s hv hsource hs
              exact Nulled.claimEvidence hv hsource (hsources s hs)
          relationshipEvidence := by
            intro ev
            apply evidenceWithout_fate (h.relationshipEvidence ev)
            · intro v hv hmem
              exact Deleted.relationshipEvidenceOfMemory hv (by rw [hmem]; exact hmemory)
            · intro v s hv hsource hs
              exact Nulled.relationshipEvidence hv hsource (hsources s hs) }

/-!
### Entities
-/

theorem deleteEntity (h : Between t0 a t) {e : String} (he : e ∈ a.entityIds) :
    Between t0 a (t.deleteEntity e) := by
  unfold Tables.deleteEntity
  cases hstored : t.entities.contains e with
  | false => simpa using h
  | true =>
      rcases Assoc.contains_iff_exists.mp hstored with ⟨row, hrow⟩
      have hentity : Deleted t0 a (RowRef.entity e) :=
        Deleted.entity he (origin_eq (h.entities e) hrow)
      have hrel := h.deleteRelationshipsWhere
        (fun _ r => decide (r.sourceEntityId = e) || decide (r.targetEntityId = e)) (by
          intro r v hv hends
          exact Deleted.relationshipOfEntity hv (by simpa using hends) hentity)
      simp only [if_true]
      exact
        { hrel with
          entities := by
            intro k
            apply (h.entities k).deleteWhere
            intro v _ hk
            have heq : k = e := by simpa using hk
            rw [heq]
            exact hentity
          aliases := by
            intro k
            apply (h.aliases k).deleteWhere
            intro v _ hk
            have heq : k.1 = e := by simpa using hk
            exact Deleted.entityAlias (by rw [heq]; exact hentity)
          memoryEntities := by
            intro k
            apply (h.memoryEntities k).deleteWhere
            intro v _ hk
            have heq : k.2.1 = e := by simpa using hk
            exact Deleted.memoryEntityOfEntity (by rw [heq]; exact hentity)
          claims := by
            intro c
            apply (h.claims c).update
            intro v0 v hold hv hcases hends
            have hrefs : v.subjectEntityId = some e ∨ v.objectEntityId = some e := by
              simpa using hends
            have hclear : ClaimCleared v0 v := by
              rcases hcases with hsame | hclear
              · rw [hsame]
                exact ClaimCleared.refl v0
              · exact hclear
            exact ⟨Nulled.claim hold (hclear.refers hrefs) hentity, hclear.clear e⟩
          claimEntities := by
            intro k
            apply (h.claimEntities k).deleteWhere
            intro v _ hk
            have heq : k.2.1 = e := by simpa using hk
            exact Deleted.claimEntityOfEntity (by rw [heq]; exact hentity) }

/-!
### The whole transaction
-/

theorem hardForgetOn (t0 : Tables F) (a : PolicyAffected) :
    Atomic.Keeps (Between t0 a) (Tables.hardForgetOn a) := by
  refine Atomic.Keeps.andThen (Atomic.Keeps.forEach ?_)
    (Atomic.Keeps.andThen (Atomic.Keeps.forEach ?_)
      (Atomic.Keeps.andThen (Atomic.Keeps.forEach ?_) (Atomic.Keeps.forEach ?_)))
  · intro r hr s s' hs hrun
    cases hrun
    exact hs.deleteRelationship hr
  · intro c hc s s' hs hrun
    cases hrun
    exact hs.deleteClaim hc
  · intro id hid s s' hs hrun
    cases hrun
    exact hs.deleteMemory hid
  · intro e he s s' hs hrun
    cases hrun
    exact hs.deleteEntity he

end Between

/-- The row is the same in both states; an edge row is counted. -/
def SameRow [DecidableEq F] (t t' : Tables F) : RowRef F -> Prop
  | RowRef.memory id => t'.memories.find? id = t.memories.find? id
  | RowRef.tag k => t'.memoryTags.find? k = t.memoryTags.find? k
  | RowRef.vec r => vecRow t' r = vecRow t r
  | RowRef.fts r c => (r, c) ∈ t'.memories.fts <-> (r, c) ∈ t.memories.fts
  | RowRef.edge row => t'.edges.count row = t.edges.count row
  | RowRef.source s => t'.memorySources.find? s = t.memorySources.find? s
  | RowRef.extractionRun r => t'.extractionRuns.find? r = t.extractionRuns.find? r
  | RowRef.entity e => t'.entities.find? e = t.entities.find? e
  | RowRef.entityAlias k => t'.entityAliases.find? k = t.entityAliases.find? k
  | RowRef.memoryEntity k => t'.memoryEntities.find? k = t.memoryEntities.find? k
  | RowRef.claim c => t'.claims.find? c = t.claims.find? c
  | RowRef.claimEntity k => t'.claimEntities.find? k = t.claimEntities.find? k
  | RowRef.claimEvidence ev => t'.claimEvidence.find? ev = t.claimEvidence.find? ev
  | RowRef.relationship r =>
      t'.entityRelationships.find? r = t.entityRelationships.find? r
  | RowRef.relationshipEvidence ev =>
      t'.relationshipEvidence.find? ev = t.relationshipEvidence.find? ev

theorem Between.fts_same [DecidableEq F] {t0 t : Tables F} {a : PolicyAffected}
    (h : Between t0 a t) {r : Nat} {c : String}
    (hn : ¬ Deleted t0 a (RowRef.fts r c)) :
    (r, c) ∈ t.memories.fts <-> (r, c) ∈ t0.memories.fts := by
  rw [t.memories.fts_mirror, t0.memories.fts_mirror]
  constructor
  · intro hin
    rcases hin with ⟨id, row, hrow, hr, hc⟩
    exact ⟨id, row, Between.origin_eq (h.memories id) hrow, hr, hc⟩
  · intro hin
    rcases hin with ⟨id, row, hrow, hr, hc⟩
    have hkeep : ¬ Deleted t0 a (RowRef.memory id) := by
      intro hdel
      have hfts := Deleted.fts hdel hrow
      rw [hr, hc] at hfts
      exact hn hfts
    have hsame := (h.memories id).eq_of_not hkeep not_false
    exact ⟨id, row, hsame.trans hrow, hr, hc⟩

/-- Rows that are not reached are unchanged. -/
theorem Between.sameRow [DecidableEq F] {t0 t : Tables F} {a : PolicyAffected}
    (h : Between t0 a t) {ref : RowRef F} (hn : ¬ Reached t0 a ref) :
    SameRow t0 t ref := by
  have hdel : ¬ Deleted t0 a ref := fun hd => hn (Or.inl hd)
  have hnul : ¬ Nulled t0 a ref := fun hu => hn (Or.inr hu)
  cases ref with
  | memory id => exact (h.memories id).eq_of_not hdel not_false
  | tag k => exact (h.tags k).eq_of_not hdel not_false
  | vec r =>
      cases h.vec r with
      | inl heq => exact heq
      | inr hd => exact absurd hd hdel
  | fts r c => exact h.fts_same hdel
  | edge row =>
      cases h.edges row with
      | inl heq => exact heq
      | inr hd => exact absurd hd hdel
  | source s => exact (h.sources s).eq_of_not hdel not_false
  | extractionRun r => exact (h.runs r).eq_of_not not_false hnul
  | entity e => exact (h.entities e).eq_of_not hdel not_false
  | entityAlias k => exact (h.aliases k).eq_of_not hdel not_false
  | memoryEntity k => exact (h.memoryEntities k).eq_of_not hdel not_false
  | claim c => exact (h.claims c).eq_of_not hdel hnul
  | claimEntity k => exact (h.claimEntities k).eq_of_not hdel not_false
  | claimEvidence ev => exact (h.claimEvidence ev).eq_of_not hdel hnul
  | relationship r => exact (h.relationships r).eq_of_not hdel not_false
  | relationshipEvidence ev => exact (h.relationshipEvidence ev).eq_of_not hdel hnul

/-!
## Erasure

Nothing that mentions an affected memory is left behind.
-/

structure Erased (t : Tables F) (id : MemoryId) (rowid : Nat) : Prop where
  memories : t.memories.find? id = none
  tags : forall tag, t.memoryTags.find? (id, tag) = none
  vec : forall v, t.memoryVec = some v -> forall e, (rowid, e) ∉ v.rows
  fts : forall content, (rowid, content) ∉ t.memories.fts
  edges : forall e, e ∈ t.edges -> e.source ≠ id ∧ e.target ≠ id
  sources : forall s row, t.memorySources.find? s = some row -> row.memoryId ≠ id
  memoryEntities : forall entityId role,
    t.memoryEntities.find? (id, entityId, role) = none
  claimEvidence : forall ev row, t.claimEvidence.find? ev = some row -> row.memoryId ≠ id
  relationshipEvidence : forall ev row,
    t.relationshipEvidence.find? ev = some row -> row.memoryId ≠ id

namespace Erased

variable {t : Tables F} {id : MemoryId} {rowid : Nat}

theorem find?_deleteWhere_none {κ ν : Type} [DecidableEq κ] {table : Assoc κ ν}
    {p : κ -> ν -> Bool} {k : κ} (h : table.find? k = none) :
    (table.deleteWhere p).find? k = none := by
  simp [h]

theorem find?_deleteWhere_some {κ ν : Type} [DecidableEq κ] {table : Assoc κ ν}
    {p : κ -> ν -> Bool} {k : κ} {v : ν} (h : (table.deleteWhere p).find? k = some v) :
    table.find? k = some v ∧ p k v = false := by
  rw [Assoc.find?_deleteWhere, Option.filter_eq_some_iff] at h
  exact ⟨h.1, by simpa using h.2⟩

theorem evidenceWithout_some {table : Assoc String (EvidenceRow F)} {id : MemoryId}
    {sources : List String} {ev : String} {row : EvidenceRow F}
    (h : (Tables.evidenceWithout table id sources).find? ev = some row) :
    row.memoryId ≠ id ∧
      exists row0, table.find? ev = some row0 ∧ row0.memoryId = row.memoryId := by
  unfold Tables.evidenceWithout at h
  rw [Assoc.find?_update] at h
  rcases Option.map_eq_some_iff.mp h with ⟨row0, hrow0, heq⟩
  have hold := find?_deleteWhere_some hrow0
  have hmem : row0.memoryId = row.memoryId := by
    rw [← heq]
    split <;> rfl
  refine ⟨?_, row0, hold.1, hmem⟩
  rw [← hmem]
  simpa using hold.2

theorem fts_delete_subset {m : MemoryTable F} {id : MemoryId} {r : Nat} {c : String}
    (h : (r, c) ∈ (m.delete id).fts) :
    exists k row, k ≠ id ∧ m.find? k = some row ∧ row.rowid = r ∧ row.content = c := by
  rcases ((m.delete id).fts_mirror r c).mp h with ⟨k, row, hrow, hr, hc⟩
  have hfind : (m.delete id).find? k = some row := hrow
  rw [MemoryTable.find?_delete] at hfind
  split at hfind
  · cases hfind
  · rename_i hne
    exact ⟨k, row, hne, hfind, hr, hc⟩

theorem deleteMemory_other (h : Erased t id rowid) (other : MemoryId) :
    Erased (t.deleteMemory other) id rowid := by
  unfold Tables.deleteMemory
  cases hrowid : t.memories.rowidOf other with
  | none => exact h
  | some r =>
      refine ⟨?_, ?_, ?_, ?_, ?_, ?_, ?_, ?_, ?_⟩
      · show (t.memories.delete other).find? id = none
        rw [MemoryTable.find?_delete, h.memories]
        exact ite_self none
      · intro tag
        exact find?_deleteWhere_none (h.tags tag)
      · intro v hv e hmem
        have hvec : (t.deleteVec r).memoryVec = some v := hv
        rcases Option.map_eq_some_iff.mp hvec with ⟨v0, hv0, heq⟩
        rw [← heq] at hmem
        exact h.vec v0 hv0 e (List.mem_filter.mp hmem).1
      · intro c hmem
        rcases fts_delete_subset hmem with ⟨k, row, _, hrow, hr, hc⟩
        exact h.fts c ((t.memories.fts_mirror rowid c).mpr ⟨k, row, hrow, hr, hc⟩)
      · intro e he
        exact h.edges e (List.mem_filter.mp he).1
      · intro s row hrow
        exact h.sources s row (find?_deleteWhere_some hrow).1
      · intro entityId role
        exact find?_deleteWhere_none (h.memoryEntities entityId role)
      · intro ev row hrow
        rcases (evidenceWithout_some hrow).2 with ⟨row0, hrow0, hmem⟩
        rw [← hmem]
        exact h.claimEvidence ev row0 hrow0
      · intro ev row hrow
        rcases (evidenceWithout_some hrow).2 with ⟨row0, hrow0, hmem⟩
        rw [← hmem]
        exact h.relationshipEvidence ev row0 hrow0

/-- Deleting a stored memory erases it. -/
theorem deleteMemory_self {row : MemoryRow F} (hrow : t.memories.find? id = some row) :
    Erased (t.deleteMemory id) id row.rowid := by
  have hrowid : t.memories.rowidOf id = some row.rowid := by
    simp [MemoryTable.rowidOf, hrow]
  unfold Tables.deleteMemory
  rw [hrowid]
  refine ⟨?_, ?_, ?_, ?_, ?_, ?_, ?_, ?_, ?_⟩
  · show (t.memories.delete id).find? id = none
    rw [MemoryTable.find?_delete, if_pos rfl]
  · intro tag
    show (t.memoryTags.deleteWhere _).find? (id, tag) = none
    rw [Assoc.find?_deleteWhere]
    cases t.memoryTags.find? (id, tag) <;> simp
  · intro v hv e hmem
    have hvec : (t.deleteVec row.rowid).memoryVec = some v := hv
    rcases Option.map_eq_some_iff.mp hvec with ⟨v0, _, heq⟩
    rw [← heq] at hmem
    simpa using (List.mem_filter.mp hmem).2
  · intro c hmem
    rcases fts_delete_subset hmem with ⟨k, other, hne, hother, hr, _⟩
    exact hne (t.memories.rowid_inj k id other row hother hrow hr)
  · intro e he
    simpa [not_or] using (List.mem_filter.mp he).2
  · intro s v hv
    simpa using (find?_deleteWhere_some hv).2
  · intro entityId role
    show (t.memoryEntities.deleteWhere _).find? (id, entityId, role) = none
    rw [Assoc.find?_deleteWhere]
    cases t.memoryEntities.find? (id, entityId, role) <;> simp
  · intro ev v hv
    exact (evidenceWithout_some hv).1
  · intro ev v hv
    exact (evidenceWithout_some hv).1

theorem deleteEntity (h : Erased t id rowid) (e : String) :
    Erased (t.deleteEntity e) id rowid := by
  unfold Tables.deleteEntity
  split
  · refine ⟨h.memories, h.tags, h.vec, h.fts, h.edges, h.sources, ?_, h.claimEvidence, ?_⟩
    · intro entityId role
      exact find?_deleteWhere_none (h.memoryEntities entityId role)
    · intro ev row hrow
      exact h.relationshipEvidence ev row (find?_deleteWhere_some hrow).1
  · exact h

end Erased

/-- Either the memory is still stored as it was, or it is erased. -/
def StoredOrErased (id : MemoryId) (row : MemoryRow F) (t : Tables F) : Prop :=
  t.memories.find? id = some row ∨ Erased t id row.rowid

theorem StoredOrErased.deleteMemory_self {t : Tables F} {id : MemoryId}
    {row : MemoryRow F} (h : StoredOrErased id row t) :
    Erased (t.deleteMemory id) id row.rowid := by
  cases h with
  | inl hstored => exact Erased.deleteMemory_self hstored
  | inr herased => exact herased.deleteMemory_other id

theorem StoredOrErased.deleteMemory {t : Tables F} {id : MemoryId} {row : MemoryRow F}
    (h : StoredOrErased id row t) (other : MemoryId) :
    StoredOrErased id row (t.deleteMemory other) := by
  by_cases heq : other = id
  · rw [heq]
    exact Or.inr h.deleteMemory_self
  · cases h with
    | inr herased => exact Or.inr (herased.deleteMemory_other other)
    | inl hstored =>
        left
        unfold Tables.deleteMemory
        split
        · exact hstored
        · show (t.memories.delete other).find? id = some row
          rw [MemoryTable.find?_delete, if_neg (Ne.symm heq)]
          exact hstored

/-- A hard forget erases every affected memory that was stored. -/
theorem hardForgetOn_erases {t t' : Tables F} {a : PolicyAffected} {id : MemoryId}
    {row : MemoryRow F} (hid : id ∈ a.memoryIds)
    (hstored : t.memories.find? id = some row)
    (hrun : Tables.hardForgetOn a t = Except.ok t') :
    Erased t' id row.rowid := by
  rcases Atomic.andThen_eq_ok.mp hrun with ⟨t1, hrels, hrest⟩
  rcases Atomic.andThen_eq_ok.mp hrest with ⟨t2, hclaims, hrest⟩
  rcases Atomic.andThen_eq_ok.mp hrest with ⟨t3, hmems, hents⟩
  have hstored1 : t1.memories.find? id = some row := by
    refine Atomic.Keeps.forEach (P := fun s => s.memories.find? id = some row) ?_ t t1
      hstored hrels
    intro r _ s s' hs hstep
    cases hstep
    exact hs
  have hstored2 : t2.memories.find? id = some row := by
    refine Atomic.Keeps.forEach (P := fun s => s.memories.find? id = some row) ?_ t1 t2
      hstored1 hclaims
    intro c _ s s' hs hstep
    cases hstep
    unfold Tables.deleteClaim
    split <;> exact hs
  have herased3 : Erased t3 id row.rowid := by
    refine Atomic.forEach_establishes (K := StoredOrErased id row)
      (P := fun s => Erased s id row.rowid) hid ?_ ?_ ?_ (Or.inl hstored2) hmems
    · intro other _ s s' hs hstep
      cases hstep
      exact hs.deleteMemory other
    · intro other _ s s' hs hstep
      cases hstep
      exact hs.deleteMemory_other other
    · intro s s' hs hstep
      cases hstep
      exact hs.deleteMemory_self
  refine Atomic.Keeps.forEach (P := fun s => Erased s id row.rowid) ?_ t3 t' herased3 hents
  intro e _ s s' hs hstep
  cases hstep
  exact hs.deleteEntity e

end Sqlite
end MenteDb
