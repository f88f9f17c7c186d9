import MenteDb.Facade.Effects
import MenteDb.Sqlite.Rebuild

/-!
# Changing the embedder

A rebuild of the vector index for another dimension keeps the memories embedded
with the old one.  Later writes of such a memory go through the checks for new
embeddings, so one old row can stop a maintenance pass.
-/

namespace MenteDb
namespace Facade

open Foundation
open Sqlite
open Consolidation

variable {F : Type}

/-!
## The index of a reachable state

The facade never asks for a dimension when it opens, so the index is only ever
created by a rebuild, and it is exact in every state.
-/

section Invariant

variable [Scalar F]

/-- The projection only depends on the rowids and the embeddings. -/
theorem sound_of_same {t t' : Tables F} {dim : Nat}
    (h : Backend.Sound { tables := t, embeddingDim := dim })
    (hmeta : t'.metaEmbeddingDim = t.metaEmbeddingDim) (hvec : t'.memoryVec = t.memoryVec)
    (hrows : forall rowid vector,
      t'.Indexable dim rowid vector <-> t.Indexable dim rowid vector) :
    Backend.Sound { tables := t', embeddingDim := dim } := by
  refine ⟨hmeta.trans h.stored, fun hzero => hvec.trans (h.deferred hzero), ?_⟩
  intro hpos
  rcases (h.projected hpos).exists_index with ⟨v, hv, hdim, hnodup, hexact⟩
  refine ⟨v, hvec.trans hv, hdim, hnodup, ?_⟩
  intro rowid vector
  rw [hexact]
  exact (hrows rowid vector).symm

theorem indexable_invalidateMemoryOn {t t' : Tables F} {id : MemoryId} {at_ : Timestamp}
    (h : Tables.invalidateMemoryOn id at_ t = Except.ok t') (dim rowid : Nat) (vector : List F) :
    t'.Indexable dim rowid vector <-> t.Indexable dim rowid vector := by
  cases h
  unfold Tables.Indexable
  simp only [MemoryTable.find?_modify]
  constructor
  · intro hnew
    rcases hnew with ⟨j, row, embedding, hrow, hrowid, hembedding, hrest⟩
    rcases Option.map_eq_some_iff.mp hrow with ⟨old, hold, heq⟩
    refine ⟨j, old, embedding, hold, ?_, ?_, hrest⟩
    · rw [← hrowid, ← heq]
      split <;> rfl
    · rw [← hembedding, ← heq]
      split <;> rfl
  · intro hold
    rcases hold with ⟨j, row, embedding, hrow, hrowid, hembedding, hrest⟩
    refine ⟨j, _, embedding, by rw [hrow, Option.map_some], ?_, ?_, hrest⟩
    · rw [← hrowid]
      split <;> rfl
    · rw [← hembedding]
      split <;> rfl

theorem sound_statement {dim : Nat} {t t' : Tables F} (h : Tables.Statement dim t t')
    (ht : Backend.Sound { tables := t, embeddingDim := dim }) :
    Backend.Sound { tables := t', embeddingDim := dim } := by
  have hbeside : t'.metaEmbeddingDim = t.metaEmbeddingDim -> t'.memoryVec = t.memoryVec ->
      t'.memories = t.memories -> Backend.Sound { tables := t', embeddingDim := dim } := by
    intro hmeta hvec hmemories
    refine sound_of_same ht hmeta hvec ?_
    intro rowid vector
    unfold Tables.Indexable
    rw [hmemories]
  cases h with
  | store hrun => exact Backend.keeps_storeMemoryOn dim _ t t' ht hrun
  | addEdge hrun =>
      cases hrun
      exact hbeside rfl rfl rfl
  | @replaceEntities id entities aliases links t' hrun =>
      have hsame := Tables.sameMemories_replaceMemoryEntityBundle t id entities aliases links
        t t' (Tables.SameMemories.refl t) hrun
      exact hbeside hsame.1 hsame.2.2.2.1 hsame.2.1
  | invalidateMemory hrun =>
      have hindexable := indexable_invalidateMemoryOn hrun dim
      cases hrun
      exact sound_of_same ht rfl rfl hindexable
  | markClaim hrun =>
      cases hrun
      exact hbeside rfl rfl rfl
  | markRelationship hrun =>
      cases hrun
      exact hbeside rfl rfl rfl
  | deleteRelationship => exact hbeside rfl rfl rfl
  | @deleteClaim id =>
      have hsame : Tables.SameMemories t (t.deleteClaim id) := by
        unfold Tables.deleteClaim
        split <;> exact ⟨rfl, rfl, rfl, rfl, rfl⟩
      exact hbeside hsame.1 hsame.2.2.2.1 hsame.2.1
  | deleteMemory => exact Backend.keeps_deleteMemoryOn dim _ t _ ht rfl
  | @deleteEntity id =>
      have hsame : Tables.SameMemories t (t.deleteEntity id) := by
        unfold Tables.deleteEntity
        split <;> exact ⟨rfl, rfl, rfl, rfl, rfl⟩
      exact hbeside hsame.1 hsame.2.2.2.1 hsame.2.1

/-- The backend of an open database. -/
def World.backend (w : World F) : Backend F :=
  { tables := w.tables, embeddingDim := w.embeddingDim }

theorem sound_effect {w w' : World F} (h : Effect w w') (hw : w.backend.Sound) :
    w'.backend.Sound := by
  cases h with
  | tick _ => exact hw
  | graph => exact hw
  | phantom => exact hw
  | statement hstep => exact sound_statement hstep hw
  | rebuild hdim hrun =>
      have hprojected := Tables.projected_ensureVectorIndex hrun
      cases hrun
      exact ⟨rfl, fun hzero => absurd hzero hdim, fun _ => hprojected⟩
  | reopen =>
      have hunseen : w.backend.Unseen (BackendCall.reopen 0) :=
        fun _ hpos => absurd hpos (Nat.lt_irrefl 0)
      exact Backend.sound_step hw hunseen

theorem Reachable.sound {env : Env F} {w : World F} (h : Reachable env w) : w.backend.Sound :=
  h.invariant (fun _ _ _ _ => Backend.sound_opened_empty 0) (fun _ _ => sound_effect)

end Invariant

/-!
## When a write succeeds
-/

/-- The embedding is empty or has the dimension of the index. -/
def Embeds (dim : Nat) (node : MemoryNode F) : Prop :=
  node.embedding = [] ∨ node.embedding.length = dim

section Writes

variable [Scalar F]

omit [Scalar F] in
theorem accepts_iff {t : Tables F} {dim : Nat} (hdim : 0 < dim)
    (h : t.HasDim dim) {node : MemoryNode F} :
    t.Accepts dim node.embedding <-> Embeds dim node := by
  rcases h with ⟨v, hv, hvdim⟩
  constructor
  · intro haccepts
    by_cases hne : node.embedding = []
    · exact Or.inl hne
    · rcases haccepts hdim hne with ⟨v', hv', hlength⟩
      rw [hv] at hv'
      cases hv'
      exact Or.inr (hlength.trans hvdim)
  · intro hembeds _ hne
    rcases hembeds with hnil | hlength
    · exact absurd hnil hne
    · exact ⟨v, hv, hlength.trans hvdim.symm⟩

theorem storeMemory_ok_iff {t : Tables F} {dim : Nat} (hdim : 0 < dim)
    (h : t.HasDim dim) {node : MemoryNode F} :
    (exists t', Tables.storeMemory dim node t = Except.ok t') <-> Embeds dim node := by
  constructor
  · intro hok
    rcases hok with ⟨t', hrun⟩
    exact (accepts_iff hdim h).mp (Tables.storeMemoryOn_vec (Tables.storeMemory_ok hrun)).1
  · intro hembeds
    have hmatch : Tables.dimensionMismatch dim node = false := by
      unfold Tables.dimensionMismatch
      rcases hembeds with hnil | hlength
      · simp [hnil]
      · simp [hlength]
    unfold Tables.storeMemory
    rw [hmatch]
    rcases Tables.storeMemoryOn_cases t node dim with ⟨_, hrun⟩ | ⟨hrefused, _⟩
    · exact ⟨_, hrun⟩
    · exact absurd ((accepts_iff hdim h).mpr hembeds) hrefused

/-- A pass whose updates all embed goes through: each of its stores keeps the
dimension of the index. -/
theorem applyLifecyclePolicy_ok {dim : Nat} (hdim : 0 < dim) (updates : List (MemoryNode F))
    (hembeds : forall u, u ∈ updates -> Embeds dim u) (t : Tables F)
    (h : t.HasDim dim) :
    exists t', Tables.applyLifecyclePolicy dim updates t = Except.ok t' := by
  induction updates generalizing t with
  | nil => exact ⟨t, rfl⟩
  | cons u rest ih =>
      have hhead : t.Accepts dim u.embedding :=
        (accepts_iff hdim h).mpr (hembeds u List.mem_cons_self)
      rcases Tables.storeMemoryOn_cases t u dim with ⟨_, hrun⟩ | ⟨hrefused, _⟩
      · rcases ih (fun v hv => hembeds v (List.mem_cons_of_mem u hv)) _
          (hasDim_storeMemoryOn h hrun) with ⟨t', ht'⟩
        exact ⟨t', Atomic.andThen_eq_ok.mpr ⟨_, hrun, ht'⟩⟩
      · exact absurd hhead hrefused

variable {env : Env F} (hcalm : forall n, env.fault n = none)

include hcalm

theorem invalidateMemory_ok_iff {w : World F} (hdim : 0 < w.embeddingDim)
    (h : w.tables.HasDim w.embeddingDim) {id : MemoryId}
    {node : MemoryNode F} (hget : w.tables.getMemory id = some node) (at_ : Timestamp) :
    (invalidateMemory env id at_ w).1 = Except.ok () <-> Embeds w.embeddingDim node := by
  have hstore : (exists t', Tables.storeMemory w.embeddingDim (node.invalidate at_) w.tables =
      Except.ok t') <-> Embeds w.embeddingDim (node.invalidate at_) := storeMemory_ok_iff hdim h
  have hrun : invalidateMemory env id at_ w =
      Prog.bind (transact env (Tables.storeMemory w.embeddingDim (node.invalidate at_)))
        (fun _ => emitLifecycleEvent env) w := by
    show Prog.bind (getMemory id) _ w = _
    simp only [Prog.bind, getMemory, hget]
    rfl
  rw [hrun]
  unfold Prog.bind
  cases hresult : Tables.storeMemory w.embeddingDim (node.invalidate at_) w.tables with
  | ok t =>
      rw [transact_eq hcalm hresult]
      simp only [emitLifecycleEvent]
      rw [transact_eq hcalm rfl]
      exact ⟨fun _ => hstore.mp ⟨t, hresult⟩, fun _ => rfl⟩
  | error e =>
      rw [transact_error hcalm hresult]
      constructor
      · intro hok
        cases hok
      · intro hembeds
        rcases hstore.mpr hembeds with ⟨t, hok⟩
        rw [hresult] at hok
        cases hok

theorem writeLifecycle_ok {w : World F} (hdim : 0 < w.embeddingDim)
    (h : w.tables.HasDim w.embeddingDim)
    {updates : List (MemoryNode F)} (hembeds : forall u, u ∈ updates -> Embeds w.embeddingDim u) :
    (writeLifecycle env updates w).1 = Except.ok (updates.map MemoryNode.id) := by
  rcases applyLifecyclePolicy_ok hdim updates hembeds w.tables h with ⟨t, ht⟩
  have hrun : writeLifecycle env updates w =
      Prog.bind (transact env (Tables.applyLifecyclePolicy w.embeddingDim updates))
        (fun _ => pure (updates.map MemoryNode.id)) w := rfl
  rw [hrun]
  unfold Prog.bind
  rw [transact_eq hcalm ht]
  rfl

end Writes

/-!
## After the change
-/

section Change

variable [Scalar F] {env : Env F}

/-- The decay pass computes a salience for every memory it loads: it does not panic, and
gives no NaN that the database would refuse. -/
def DecayComputes (env : Env F) (w : World F) : Prop :=
  w.tables.allMemories = [] ∨ env.config.decayConfig.WellFormed

/-- Maintenance goes through: any memory can be invalidated, and both passes
succeed. -/
def MaintenanceSucceeds (env : Env F) (w : World F) : Prop :=
  (forall id at_, w.tables.memories.contains id = true ->
    (invalidateMemory env id at_ w).1 = Except.ok ()) ∧
  (DecayComputes env w ∧ exists ids, (applyDecayPolicyGlobal env w).1 = Except.ok ids) ∧
  (exists ids, (applyArchivePolicyGlobal env w).1 = Except.ok ids)

theorem maintenanceSucceeds_iff (hcalm : forall n, env.fault n = none)
    (hconfig : env.config.decayConfig.WellFormed) {w : World F}
    (hdim : 0 < w.embeddingDim) (hindex : w.tables.HasDim w.embeddingDim) :
    MaintenanceSucceeds env w <->
      forall id node, w.tables.getMemory id = some node -> Embeds w.embeddingDim node := by
  constructor
  · intro hsucceeds id node hget
    exact (invalidateMemory_ok_iff hcalm hdim hindex hget 0).mp
      (hsucceeds.1 id 0 (Tables.contains_of_getMemory hget))
  · intro hembeds
    have hall : forall node, node ∈ w.tables.allMemories -> Embeds w.embeddingDim node :=
      fun node hnode => hembeds node.id node (Tables.mem_allMemories hnode)
    refine ⟨?_, ?_, ?_⟩
    · intro id at_ hstored
      rcases Option.isSome_iff_exists.mp hstored with ⟨row, hrow⟩
      have hget : w.tables.getMemory id = some (Tables.nodeOfRow id row (w.tables.tagsOf id)) :=
        Option.map_eq_some_iff.mpr ⟨row, hrow, rfl⟩
      exact (invalidateMemory_ok_iff hcalm hdim hindex hget at_).mpr (hembeds id _ hget)
    · refine ⟨Or.inr hconfig, _,
        writeLifecycle_ok (w := { w with ticks := w.ticks + 1 }) hcalm hdim hindex ?_⟩
      intro u hu
      rcases mem_decayUpdates hu with ⟨node, hnode, s, heq⟩
      rw [heq]
      exact hall node hnode
    · refine ⟨_, writeLifecycle_ok (w := { w with ticks := w.ticks + 1 }) hcalm hdim hindex ?_⟩
      intro u hu
      rcases mem_archiveUpdates hu with ⟨node, hnode, tags, s, heq⟩
      rw [heq]
      exact hall node hnode

/-- A rebuild that succeeded has published its dimension and kept the memories. -/
theorem ensureVectorIndex_ok {w w' : World F} {dim : Nat} (hdim : 0 < dim)
    (h : ensureVectorIndex env dim w = (Except.ok (), w')) :
    w'.embeddingDim = dim ∧ forall id, w'.tables.getMemory id = w.tables.getMemory id := by
  have hrun : ensureVectorIndex env dim w =
      (if dim = 0 ∨ dim = w.embeddingDim then (pure () : Op F Unit)
        else do
          transact env (Tables.ensureVectorIndex dim)
          Prog.modify (fun w => { w with embeddingDim := dim })) w := rfl
  rw [hrun] at h
  split at h
  · rename_i hearly
    cases h
    refine ⟨?_, fun _ => rfl⟩
    rcases hearly with hzero | hsame
    · exact absurd hzero (Nat.ne_of_gt hdim)
    · exact hsame.symm
  · change Prog.bind _ _ w = _ at h
    unfold Prog.bind transact at h
    cases hfault : env.fault w.ticks with
    | some e =>
        rw [hfault] at h
        cases h
    | none =>
        rw [hfault] at h
        cases h
        exact ⟨rfl, fun _ => rfl⟩

/-- After a change of dimension, and with a configuration decay can compute with,
maintenance succeeds exactly when every stored memory is embedded in the new dimension or
not at all. -/
theorem maintenance_after_rebuild_iff (hcalm : forall n, env.fault n = none)
    (hconfig : env.config.decayConfig.WellFormed) {w w' : World F} (hreach : Reachable env w)
    {dim : Nat} (hdim : 0 < dim)
    (hensure : ensureVectorIndex env dim w = (Except.ok (), w')) :
    MaintenanceSucceeds env w' <->
      forall id node, w.tables.getMemory id = some node -> Embeds dim node := by
  rcases ensureVectorIndex_ok hdim hensure with ⟨hpublished, hsame⟩
  have hreaches : Reaches w w' := by
    have hstate : Reaches w (ensureVectorIndex env dim w).2 :=
      (keeps_ensureVectorIndex_reaches dim).state Relation.ReflTransGen.refl
    rw [hensure] at hstate
    exact hstate
  have hsound : w'.backend.Sound := hreaches.invariant (fun _ _ => sound_effect) hreach.sound
  have hpos : 0 < w'.embeddingDim := by
    rw [hpublished]
    exact hdim
  rcases (hsound.projected hpos).exists_index with ⟨v, hv, hvdim, _⟩
  rw [maintenanceSucceeds_iff hcalm hconfig hpos ⟨v, hv, hvdim⟩, hpublished]
  constructor
  · intro h id node hget
    exact h id node (by rw [hsame]; exact hget)
  · intro h id node hget
    exact h id node (by rw [← hsame]; exact hget)

end Change

/-!
### Concrete changes
-/

section Examples

def flatMemory : MemoryNode Rat :=
  MemoryNode.new ⟨1⟩ 1000 AgentId.nil MemoryType.semantic "flat" [3, 4]

def cubicMemory : MemoryNode Rat :=
  MemoryNode.new ⟨2⟩ 1000 AgentId.nil MemoryType.semantic "cubic" [2, 3, 6]

/-- One memory is stored, and the index is asked to take vectors of two entries. -/
def changedTo2 (node : MemoryNode Rat) : World Rat :=
  List.foldl (Call.step (calmEnv CognitiveConfig.default)) emptyWorld
    [Call.store node, Call.ensureVectorIndex 2]

theorem reachable_stored (node : MemoryNode Rat) :
    Reachable (calmEnv CognitiveConfig.default)
      (List.foldl (Call.step (calmEnv CognitiveConfig.default)) emptyWorld [Call.store node]) :=
  ⟨_, _, _, _, [Call.store node], rfl⟩

theorem maintenance_after_rebuild_iff_flat :
    MaintenanceSucceeds (calmEnv CognitiveConfig.default) (changedTo2 flatMemory) := by
  have hconfig : (calmEnv CognitiveConfig.default).config.decayConfig.WellFormed :=
    ⟨by decide +kernel, by decide⟩
  refine (maintenance_after_rebuild_iff (fun _ => rfl) hconfig (reachable_stored flatMemory)
    (Nat.zero_lt_succ 1) ?_).mpr ?_
  · exact Prod.ext (by decide +kernel) rfl
  · have hall : forall id, id ∈ (List.foldl (Call.step (calmEnv CognitiveConfig.default))
        emptyWorld [Call.store flatMemory]).tables.allMemoryIds ->
        ((List.foldl (Call.step (calmEnv CognitiveConfig.default))
          emptyWorld [Call.store flatMemory]).tables.getMemory id).all
          (fun node => decide (node.embedding.length = 2)) = true := by decide +kernel
    intro id node hget
    have hlength := hall id (MemoryTable.mem_ids.mpr (Tables.contains_of_getMemory hget))
    rw [hget] at hlength
    exact Or.inr (of_decide_eq_true hlength)

/-- With an older memory of another length, invalidating it fails and the decay
pass is aborted as a whole. -/
theorem old_embedding_stops_maintenance :
    (ensureVectorIndex (calmEnv CognitiveConfig.default) 2
        (List.foldl (Call.step (calmEnv CognitiveConfig.default)) emptyWorld
          [Call.store cubicMemory])).1 = Except.ok () ∧
      (changedTo2 cubicMemory).tables.memories.contains ⟨2⟩ = true ∧
      (invalidateMemory (calmEnv CognitiveConfig.default) ⟨2⟩ 5000 (changedTo2 cubicMemory)).1 =
        Except.error (MenteError.embeddingDimensionMismatch 3 2) ∧
      (applyDecayPolicyGlobal (calmEnv CognitiveConfig.default) (changedTo2 cubicMemory)).1 =
        Except.error (MenteError.storage "Dimension mismatch for inserted vector") := by
  decide +kernel

end Examples

end Facade
end MenteDb
