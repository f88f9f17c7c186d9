import MenteDb.Sqlite.Projection

/-!
# A rebuild of the index among stores

A store reads the dimension before it takes the lock of the connection.  A
rebuild replaces the index under the lock and publishes the new dimension before
it lets go of it.  So a store can write with a dimension that no longer describes
the index: an old dimension is refused by one check or the other, but a store
that saw no index at all inserts nothing into the new one.
-/

namespace MenteDb
namespace Sqlite

open Foundation

variable {F : Type}

/-!
## Threads
-/

/-- A call of {lit}`store_memory`. -/
inductive StoreCall (F : Type) where
  | begin (node : MemoryNode F)
  /-- The dimension is read and checked; the lock is not taken yet. -/
  | loaded (node : MemoryNode F) (dim : Nat)
  | returned (node : MemoryNode F) (dim : Nat) (result : Except MenteError Unit)

/-- The call of {lit}`ensure_vector_index`. -/
inductive EnsureCall where
  | begin (dim : Nat)
  | checked (dim : Nat)
  /-- The transaction is committed, the dimension not published; the lock is held. -/
  | committed (dim : Nat)
  | returned
deriving DecidableEq

/-- One database, one rebuild and any number of stores. -/
structure Race (F : Type) where
  backend : Backend F
  ensure : EnsureCall
  stores : List (StoreCall F)

inductive RaceMove where
  | ensure
  | store (i : Nat)

def EnsureCall.holdsLock : EnsureCall -> Bool
  | EnsureCall.committed _ => true
  | _ => false

/-- The index is still the one from before the rebuild. -/
def EnsureCall.pending : EnsureCall -> Bool
  | EnsureCall.begin _ | EnsureCall.checked _ => true
  | EnsureCall.committed _ | EnsureCall.returned => false

section Steps

variable [Scalar F]

def StoreCall.advance (b : Backend F) (locked : Bool) : StoreCall F -> StoreCall F × Backend F
  | StoreCall.begin node =>
      if Tables.dimensionMismatch b.embeddingDim node then
        (StoreCall.returned node b.embeddingDim
          (Except.error (Tables.mismatchError b.embeddingDim node)), b)
      else (StoreCall.loaded node b.embeddingDim, b)
  | StoreCall.loaded node dim =>
      if locked then (StoreCall.loaded node dim, b)
      else
        match Tables.storeMemoryOn node dim b.tables with
        | Except.ok t => (StoreCall.returned node dim (Except.ok ()), { b with tables := t })
        | Except.error e => (StoreCall.returned node dim (Except.error e), b)
  | StoreCall.returned node dim result => (StoreCall.returned node dim result, b)

def EnsureCall.advance (b : Backend F) : EnsureCall -> EnsureCall × Backend F
  | EnsureCall.begin dim =>
      if dim = 0 ∨ dim = b.embeddingDim then (EnsureCall.returned, b)
      else (EnsureCall.checked dim, b)
  | EnsureCall.checked dim =>
      match Tables.ensureVectorIndex dim b.tables with
      | Except.ok t => (EnsureCall.committed dim, { b with tables := t })
      | Except.error _ => (EnsureCall.returned, b)
  | EnsureCall.committed dim => (EnsureCall.returned, { b with embeddingDim := dim })
  | EnsureCall.returned => (EnsureCall.returned, b)

def Race.step (s : Race F) : RaceMove -> Race F
  | RaceMove.ensure =>
      { s with ensure := (s.ensure.advance s.backend).1, backend := (s.ensure.advance s.backend).2 }
  | RaceMove.store i =>
      match s.stores[i]? with
      | none => s
      | some call =>
          { s with
            backend := (call.advance s.backend s.ensure.holdsLock).2
            stores := s.stores.set i (call.advance s.backend s.ensure.holdsLock).1 }

end Steps

def Race.start (b : Backend F) (dim : Nat) (nodes : List (MemoryNode F)) : Race F where
  backend := b
  ensure := EnsureCall.begin dim
  stores := nodes.map StoreCall.begin

def Race.Finished (s : Race F) : Prop :=
  s.ensure = EnsureCall.returned ∧
    forall call, call ∈ s.stores ->
      exists node dim result, call = StoreCall.returned node dim result

/-- A store that saw no index takes the lock before the rebuild, unless its
embedding does not belong in the new index. -/
def Race.Timely (dim : Nat) (s : Race F) : RaceMove -> Prop
  | RaceMove.ensure => True
  | RaceMove.store i => forall node, s.stores[i]? = some (StoreCall.loaded node 0) ->
      node.embedding.length = dim -> s.ensure.pending = true

/-!
## Every interleaving
-/

section Invariant

/-- There is an index, and this is its dimension. -/
def Tables.HasDim (t : Tables F) (dim : Nat) : Prop :=
  exists v, t.memoryVec = some v ∧ v.dim = dim

/-- What a store knows and has done, for a rebuild from one dimension to another. -/
def StoreCall.Fits (old dim : Nat) (b : Backend F) : StoreCall F -> Prop
  | StoreCall.begin _ => True
  | StoreCall.loaded node seen =>
      (seen = old ∨ seen = b.embeddingDim) ∧ Tables.dimensionMismatch seen node = false
  | StoreCall.returned node seen result =>
      (seen = old ∨ seen = dim) ∧
      (node.embedding.length = dim ->
        (result ≠ Except.ok () <-> 0 < seen ∧ seen ≠ dim)) ∧
      (result = Except.ok () -> b.tables.memories.contains node.id = true)

/-- The index and the published dimension in each phase of the rebuild. -/
def EnsureCall.Fits (old dim : Nat) (b : Backend F) : EnsureCall -> Prop
  | EnsureCall.begin d => d = dim ∧ b.embeddingDim = old ∧ (0 < old -> b.tables.HasDim old)
  | EnsureCall.checked d =>
      d = dim ∧ b.embeddingDim = old ∧ old ≠ dim ∧ (0 < old -> b.tables.HasDim old)
  | EnsureCall.committed d => d = dim ∧ b.embeddingDim = old ∧ old ≠ dim ∧ b.tables.HasDim dim
  | EnsureCall.returned => b.embeddingDim = dim ∧ b.tables.HasDim dim

structure Race.Orderly (old dim : Nat) (s : Race F) : Prop where
  ensure : s.ensure.Fits old dim s.backend
  stores : forall call, call ∈ s.stores -> call.Fits old dim s.backend

theorem embeddingDim_of_fits {old dim : Nat} {b : Backend F} {call : EnsureCall}
    (h : call.Fits old dim b) : b.embeddingDim = old ∨ b.embeddingDim = dim := by
  cases call with
  | begin d => exact Or.inl h.2.1
  | checked d => exact Or.inl h.2.1
  | committed d => exact Or.inl h.2.1
  | returned => exact Or.inr h.1

theorem ensure_fits_of_store {old dim : Nat} {b b' : Backend F} {call : EnsureCall}
    (h : call.Fits old dim b) (hpublished : b'.embeddingDim = b.embeddingDim)
    (hindex : forall d, b.tables.HasDim d -> b'.tables.HasDim d) : call.Fits old dim b' := by
  cases call with
  | begin d => exact ⟨h.1, hpublished.trans h.2.1, fun hold => hindex old (h.2.2 hold)⟩
  | checked d =>
      exact ⟨h.1, hpublished.trans h.2.1, h.2.2.1, fun hold => hindex old (h.2.2.2 hold)⟩
  | committed d => exact ⟨h.1, hpublished.trans h.2.1, h.2.2.1, hindex dim h.2.2.2⟩
  | returned => exact ⟨hpublished.trans h.1, hindex dim h.2⟩

theorem store_fits_of_step {old dim : Nat} {b b' : Backend F} {call : StoreCall F}
    (h : call.Fits old dim b)
    (hpublished : b'.embeddingDim = b.embeddingDim ∨ b.embeddingDim = old)
    (hstored : forall id, b.tables.memories.contains id = true ->
      b'.tables.memories.contains id = true) : call.Fits old dim b' := by
  cases call with
  | begin node => trivial
  | loaded node seen =>
      refine ⟨?_, h.2⟩
      rcases hpublished with hsame | hold
      · rw [hsame]
        exact h.1
      · rcases h.1 with heq | heq
        · exact Or.inl heq
        · exact Or.inl (heq.trans hold)
  | returned node seen result =>
      exact ⟨h.1, h.2.1, fun hok => hstored node.id (h.2.2 hok)⟩

/-- A store of the new dimension that passed its check commits. -/
theorem accepts_of_fits {old dim seen : Nat} {b : Backend F} {ensure : EnsureCall}
    {node : MemoryNode F} (hensure : ensure.Fits old dim b) (hfree : ensure.holdsLock = false)
    (hcall : (StoreCall.loaded node seen).Fits old dim b)
    (hlength : node.embedding.length = dim) : b.tables.Accepts seen node.embedding := by
  intro hpos hne
  have hloaded : seen = dim := by
    have hmatch := hcall.2
    unfold Tables.dimensionMismatch at hmatch
    simp only [Bool.and_eq_false_iff, decide_eq_false_iff_not, Bool.not_eq_false',
      List.isEmpty_iff, not_not] at hmatch
    rcases hmatch with (hzero | hnil) | heq
    · exact absurd hpos hzero
    · exact absurd hnil hne
    · exact heq.symm.trans hlength
  have hold : seen = old -> 0 < old -> old = dim := fun heq _ => heq.symm.trans hloaded
  have hindex : b.tables.HasDim dim := by
    cases ensure with
    | begin d =>
        have heq : seen = old := by
          rcases hcall.1 with heq | heq
          · exact heq
          · exact heq.trans hensure.2.1
        rw [← hloaded, heq]
        exact hensure.2.2 (by rw [← heq]; exact hpos)
    | checked d =>
        have heq : seen = old := by
          rcases hcall.1 with heq | heq
          · exact heq
          · exact heq.trans hensure.2.1
        exact absurd (heq.symm.trans hloaded) hensure.2.2.1
    | committed d => cases hfree
    | returned => exact hensure.2
  rcases hindex with ⟨v, hv, hvdim⟩
  exact ⟨v, hv, hlength.trans hvdim.symm⟩

theorem mismatch_of_length {dim seen : Nat} (hdim : 0 < dim) {node : MemoryNode F}
    (hlength : node.embedding.length = dim) :
    Tables.dimensionMismatch seen node = true <-> 0 < seen ∧ seen ≠ dim := by
  have hne : node.embedding.isEmpty = false := by
    rw [List.isEmpty_eq_false_iff]
    intro hnil
    rw [hnil] at hlength
    exact absurd hlength (Nat.ne_of_lt hdim)
  unfold Tables.dimensionMismatch
  rw [hne, hlength]
  simp only [Bool.not_false, Bool.and_true, Bool.and_eq_true, decide_eq_true_eq, ne_eq]
  exact and_congr_right (fun _ => not_congr eq_comm)

variable [Scalar F]

/-- The table keeps its dimension under every store. -/
theorem hasDim_storeMemoryOn {t t' : Tables F} {node : MemoryNode F} {seen dim : Nat}
    (h : t.HasDim dim) (hrun : Tables.storeMemoryOn node seen t = Except.ok t') :
    t'.HasDim dim := by
  rcases h with ⟨v, hv, hdim⟩
  have hvec := (Tables.storeMemoryOn_vec hrun).2
  rw [hv] at hvec
  exact ⟨_, hvec, hdim⟩

/-- What one step of a store can do. -/
inductive StoreCall.Step (b : Backend F) (locked : Bool) :
    StoreCall F -> StoreCall F × Backend F -> Prop where
  | refused {node e} : Tables.dimensionMismatch b.embeddingDim node = true ->
      Step b locked (StoreCall.begin node)
        (StoreCall.returned node b.embeddingDim (Except.error e), b)
  | passed {node} : Tables.dimensionMismatch b.embeddingDim node = false ->
      Step b locked (StoreCall.begin node) (StoreCall.loaded node b.embeddingDim, b)
  | failed {node seen e} : locked = false ->
      Tables.storeMemoryOn node seen b.tables = Except.error e ->
      Step b locked (StoreCall.loaded node seen)
        (StoreCall.returned node seen (Except.error e), b)
  | committed {node seen t} : locked = false ->
      Tables.storeMemoryOn node seen b.tables = Except.ok t ->
      Step b locked (StoreCall.loaded node seen)
        (StoreCall.returned node seen (Except.ok ()), { b with tables := t })
  | stays {call} : Step b locked call (call, b)

theorem StoreCall.step_advance (b : Backend F) (locked : Bool) (call : StoreCall F) :
    StoreCall.Step b locked call (call.advance b locked) := by
  cases call with
  | begin node =>
      rw [StoreCall.advance]
      cases hmismatch : Tables.dimensionMismatch b.embeddingDim node with
      | true => exact Step.refused hmismatch
      | false => exact Step.passed hmismatch
  | loaded node seen =>
      rw [StoreCall.advance]
      cases locked with
      | true => exact Step.stays
      | false =>
          cases hrun : Tables.storeMemoryOn node seen b.tables with
          | ok t => exact Step.committed rfl hrun
          | error e => exact Step.failed rfl hrun
  | returned node seen result => exact Step.stays

/-- A store changes no dimension and removes no memory. -/
theorem frame_store {b : Backend F} {locked : Bool} {call : StoreCall F}
    {next : StoreCall F × Backend F} (h : StoreCall.Step b locked call next) :
    next.2.embeddingDim = b.embeddingDim ∧
      (forall d, b.tables.HasDim d -> next.2.tables.HasDim d) ∧
      (forall id, b.tables.memories.contains id = true ->
        next.2.tables.memories.contains id = true) := by
  cases h with
  | refused _ => exact ⟨rfl, fun _ hd => hd, fun _ hid => hid⟩
  | passed _ => exact ⟨rfl, fun _ hd => hd, fun _ hid => hid⟩
  | failed _ _ => exact ⟨rfl, fun _ hd => hd, fun _ hid => hid⟩
  | stays => exact ⟨rfl, fun _ hd => hd, fun _ hid => hid⟩
  | committed _ hrun =>
      refine ⟨rfl, fun _ hd => hasDim_storeMemoryOn hd hrun, ?_⟩
      intro id hid
      rw [Tables.contains_storeMemoryOn hrun, hid, Bool.or_true]

theorem fits_store {old dim : Nat} (hdim : 0 < dim) {b : Backend F} {ensure : EnsureCall}
    (hensure : ensure.Fits old dim b) {call : StoreCall F} (hcall : call.Fits old dim b)
    {next : StoreCall F × Backend F} (h : StoreCall.Step b ensure.holdsLock call next) :
    next.1.Fits old dim next.2 := by
  have hseen : forall {node seen}, (StoreCall.loaded node seen).Fits old dim b ->
      seen = old ∨ seen = dim := by
    intro node seen hfits
    rcases hfits.1 with heq | heq
    · exact Or.inl heq
    · rw [heq]
      exact embeddingDim_of_fits hensure
  cases h with
  | refused hmismatch =>
      refine ⟨embeddingDim_of_fits hensure, ?_, fun hok => by cases hok⟩
      intro hlength
      exact ⟨fun _ => (mismatch_of_length hdim hlength).mp hmismatch, fun _ hok => by cases hok⟩
  | passed hmatch => exact ⟨Or.inr rfl, hmatch⟩
  | stays => exact hcall
  | @failed node seen e hfree hrun =>
      refine ⟨hseen hcall, ?_, fun hok => by cases hok⟩
      intro hlength
      have haccepts := accepts_of_fits hensure hfree hcall hlength
      rcases Tables.storeMemoryOn_cases b.tables node seen with ⟨_, hok⟩ | ⟨hrefused, _⟩
      · rw [hrun] at hok
        cases hok
      · exact absurd haccepts hrefused
  | @committed node seen t _ hrun =>
      refine ⟨hseen hcall, ?_, ?_⟩
      · intro hlength
        refine ⟨fun hfails => absurd rfl hfails, ?_⟩
        intro hbad
        rw [← mismatch_of_length hdim hlength, hcall.2] at hbad
        cases hbad
      · intro _
        rw [Tables.contains_storeMemoryOn hrun]
        simp

theorem orderly_ensure {old dim : Nat} (hdim : 0 < dim) {b : Backend F} {call : EnsureCall}
    (h : call.Fits old dim b) :
    (call.advance b).1.Fits old dim (call.advance b).2 ∧
      ((call.advance b).2.embeddingDim = b.embeddingDim ∨ b.embeddingDim = old) ∧
      (forall id, b.tables.memories.contains id = true ->
        (call.advance b).2.tables.memories.contains id = true) := by
  cases call with
  | begin d =>
      rcases h with ⟨hd, hpublished, hindex⟩
      rw [EnsureCall.advance]
      split
      · rename_i hearly
        have hsame : old = dim := by
          rcases hearly with hzero | heq
          · exact absurd (hd.symm.trans hzero) (Nat.ne_of_gt hdim)
          · rw [← hpublished, ← heq, hd]
        refine ⟨⟨hpublished.trans hsame, ?_⟩, Or.inl rfl, fun _ hid => hid⟩
        rw [← hsame]
        exact hindex (by rw [hsame]; exact hdim)
      · rename_i hlate
        refine ⟨⟨hd, hpublished, ?_, hindex⟩, Or.inl rfl, fun _ hid => hid⟩
        intro hsame
        exact hlate (Or.inr (by rw [hd, hpublished, hsame]))
  | checked d =>
      exact ⟨⟨h.1, h.2.1, h.2.2.1, _, rfl, h.1⟩, Or.inl rfl, fun _ hid => hid⟩
  | committed d => exact ⟨⟨h.1, h.2.2.2⟩, Or.inr h.2.1, fun _ hid => hid⟩
  | returned => exact ⟨h, Or.inl rfl, fun _ hid => hid⟩

theorem orderly_step {old dim : Nat} (hdim : 0 < dim) {s : Race F} (h : s.Orderly old dim)
    (move : RaceMove) : (s.step move).Orderly old dim := by
  cases move with
  | ensure =>
      have hstep := orderly_ensure hdim h.ensure
      exact ⟨hstep.1, fun call hcall =>
        store_fits_of_step (h.stores call hcall) hstep.2.1 hstep.2.2⟩
  | store i =>
      rw [Race.step]
      cases hi : s.stores[i]? with
      | none => exact h
      | some call =>
          have hcall := h.stores call (List.mem_of_getElem? hi)
          have hstep := StoreCall.step_advance s.backend s.ensure.holdsLock call
          have hframe := frame_store hstep
          refine ⟨ensure_fits_of_store h.ensure hframe.1 hframe.2.1, ?_⟩
          intro other hother
          rcases List.mem_or_eq_of_mem_set hother with hmem | heq
          · exact store_fits_of_step (h.stores other hmem) (Or.inl hframe.1) hframe.2.2
          · rw [heq]
            exact fits_store hdim h.ensure hcall hstep

/-!
## Timely interleavings
-/

/-- The index that is current in this phase is exact. -/
def Race.Projects (old dim : Nat) (s : Race F) : Prop :=
  if s.ensure.pending then 0 < old -> s.backend.tables.Projected old
  else s.backend.tables.Projected dim

omit [Scalar F] in
theorem published_of_pending {old dim : Nat} {b : Backend F} {call : EnsureCall}
    (h : call.Fits old dim b) (hpending : call.pending = true) : b.embeddingDim = old := by
  cases call with
  | begin d => exact h.2.1
  | checked d => exact h.2.1
  | committed d => cases hpending
  | returned => cases hpending

theorem projects_store {old dim : Nat} (hdim : 0 < dim) {s : Race F} (horder : s.Orderly old dim)
    (h : s.Projects old dim) {i : Nat} (htimely : s.Timely dim (RaceMove.store i)) :
    (s.step (RaceMove.store i)).Projects old dim := by
  rw [Race.step]
  cases hi : s.stores[i]? with
  | none => exact h
  | some call =>
      have hcall := horder.stores call (List.mem_of_getElem? hi)
      have hstep := StoreCall.step_advance s.backend s.ensure.holdsLock call
      simp only
      generalize call.advance s.backend s.ensure.holdsLock = next at hstep ⊢
      unfold Race.Projects at h ⊢
      cases hstep with
      | refused _ => exact h
      | passed _ => exact h
      | failed _ _ => exact h
      | stays => exact h
      | @committed node seen t _ hrun =>
          cases hpending : s.ensure.pending with
          | true =>
              -- the dimension read is the current one, so it is positive where an index exists
              have hpublished := published_of_pending horder.ensure hpending
              have hseen : seen = old := by
                rcases hcall.1 with heq | heq
                · exact heq
                · exact heq.trans hpublished
              rw [hpending] at h
              intro hold
              refine (Tables.projected_storeMemoryOn_iff hold (h hold) hrun).mpr (Or.inl ?_)
              rw [hseen]
              exact hold
          | false =>
              rw [hpending] at h
              refine (Tables.projected_storeMemoryOn_iff hdim h hrun).mpr ?_
              by_cases hpos : 0 < seen
              · exact Or.inl hpos
              · right
                intro hlength
                rw [Nat.eq_zero_of_not_pos hpos] at hi
                rw [htimely node hi hlength] at hpending
                cases hpending

theorem projects_ensure {old dim : Nat} (hdim : 0 < dim) {s : Race F}
    (horder : s.Orderly old dim) (h : s.Projects old dim) :
    (s.step RaceMove.ensure).Projects old dim := by
  have hensure := horder.ensure
  rw [Race.step]
  unfold Race.Projects at h ⊢
  cases hphase : s.ensure with
  | begin d =>
      rw [hphase] at h hensure
      simp only [EnsureCall.advance]
      split
      · rename_i hearly
        have hsame : old = dim := by
          rcases hearly with hzero | heq
          · exact absurd (hensure.1.symm.trans hzero) (Nat.ne_of_gt hdim)
          · rw [← hensure.2.1, ← heq, hensure.1]
        show s.backend.tables.Projected dim
        rw [← hsame]
        exact h (by rw [hsame]; exact hdim)
      · exact h
  | checked d =>
      rw [hphase] at hensure
      show Tables.Projected _ dim
      rw [← hensure.1]
      exact Tables.projected_ensureVectorIndex (t := s.backend.tables) rfl
  | committed d =>
      rw [hphase] at h
      exact h
  | returned =>
      rw [hphase] at h
      exact h

theorem orderly_start {b : Backend F} (hb : b.Exact) (dim : Nat) (nodes : List (MemoryNode F)) :
    (Race.start b dim nodes).Orderly b.embeddingDim dim := by
  refine ⟨⟨rfl, rfl, ?_⟩, ?_⟩
  · intro hold
    rcases (hb hold).1.exists_index with ⟨v, hv, hvdim, _⟩
    exact ⟨v, hv, hvdim⟩
  · intro call hcall
    rcases List.mem_map.mp hcall with ⟨node, _, heq⟩
    rw [← heq]
    trivial

theorem projects_step {old dim : Nat} (hdim : 0 < dim) {s : Race F} (horder : s.Orderly old dim)
    (h : s.Projects old dim) {move : RaceMove} (htimely : s.Timely dim move) :
    (s.step move).Projects old dim := by
  cases move with
  | ensure => exact projects_ensure hdim horder h
  | store i => exact projects_store hdim horder h htimely

/-- Once all calls have returned: a store of the new dimension failed exactly when
it had read another positive dimension, every memory stored is there, and in a
timely interleaving the index is exact. -/
theorem index_after_race {b : Backend F} (hb : b.Exact) {dim : Nat} (hdim : 0 < dim)
    (nodes : List (MemoryNode F)) (moves : List RaceMove)
    (hfinished : (moves.foldl Race.step (Race.start b dim nodes)).Finished) :
    (forall node seen result,
      StoreCall.returned node seen result ∈
        (moves.foldl Race.step (Race.start b dim nodes)).stores ->
      (seen = b.embeddingDim ∨ seen = dim) ∧
      (node.embedding.length = dim -> (result ≠ Except.ok () <-> 0 < seen ∧ seen ≠ dim)) ∧
      (result = Except.ok () ->
        (moves.foldl Race.step (Race.start b dim nodes)).backend.tables.memories.contains node.id
          = true)) ∧
    (Run Race.step (Race.Timely dim) (Race.start b dim nodes) moves
        (moves.foldl Race.step (Race.start b dim nodes)) ->
      (moves.foldl Race.step (Race.start b dim nodes)).backend.embeddingDim = dim ∧
      (moves.foldl Race.step (Race.start b dim nodes)).backend.Exact) := by
  have horder : (moves.foldl Race.step (Race.start b dim nodes)).Orderly b.embeddingDim dim :=
    (Run.unguarded Race.step (Race.start b dim nodes) moves).invariant
      (I := fun s => s.Orderly b.embeddingDim dim)
      (fun _ move hs _ => orderly_step hdim hs move) (orderly_start hb dim nodes)
  refine ⟨fun node seen result hcall => horder.stores _ hcall, ?_⟩
  intro hrun
  have hboth := hrun.invariant
    (I := fun s => s.Orderly b.embeddingDim dim ∧ s.Projects b.embeddingDim dim)
    (fun _ move hs htimely =>
      ⟨orderly_step hdim hs.1 move, projects_step hdim hs.1 hs.2 htimely⟩)
    ⟨orderly_start hb dim nodes, fun hold => (hb hold).1⟩
  have hensure := horder.ensure
  have hprojects := hboth.2
  rw [hfinished.1] at hensure
  unfold Race.Projects at hprojects
  rw [hfinished.1] at hprojects
  refine ⟨hensure.1, Backend.exact_iff.mpr ?_⟩
  intro _
  rw [hensure.1]
  exact hprojects

/-!
### Concrete interleavings
-/

/-- Two moves of the store, then the rebuild. -/
def storeFirst : List RaceMove :=
  [RaceMove.store 0, RaceMove.store 0, RaceMove.ensure, RaceMove.ensure, RaceMove.ensure]

/-- The store reads the dimension, and takes the lock after the rebuild. -/
def storeLate : List RaceMove :=
  [RaceMove.store 0, RaceMove.ensure, RaceMove.ensure, RaceMove.ensure, RaceMove.store 0]

def raced (hintDim dim : Nat) (moves : List RaceMove) : Race Rat :=
  moves.foldl Race.step
    (Race.start (Backend.opened Tables.empty hintDim) dim [Backend.pythagoras])

theorem exact_opened_empty (hintDim : Nat) :
    (Backend.opened (Tables.empty : Tables Rat) hintDim).Exact :=
  Backend.exact_iff.mpr (Backend.sound_opened_empty hintDim).projected

omit [Scalar F] in
theorem finished_of_one {s : Race F} {node : MemoryNode F} {seen : Nat}
    {result : Except MenteError Unit} (hensure : s.ensure = EnsureCall.returned)
    (hstores : s.stores = [StoreCall.returned node seen result]) : s.Finished := by
  refine ⟨hensure, ?_⟩
  intro call hcall
  rw [hstores, List.mem_singleton] at hcall
  exact ⟨node, seen, result, hcall⟩

theorem index_after_race_storeFirst :
    (raced 0 2 storeFirst).Finished ∧
      (raced 0 2 storeFirst).backend.embeddingDim = 2 ∧ (raced 0 2 storeFirst).backend.Exact := by
  have hfinished : (raced 0 2 storeFirst).Finished := finished_of_one rfl rfl
  have hrace := index_after_race (exact_opened_empty 0) (by decide) [Backend.pythagoras]
    storeFirst hfinished
  refine ⟨hfinished, hrace.2 ?_⟩
  have h0 : Run Race.step (Race.Timely 2) (raced 0 2 []) [] (raced 0 2 []) := Run.nil _
  have h1 := h0.snoc (i := RaceMove.store 0) (fun _ _ _ => rfl)
  have h2 := h1.snoc (i := RaceMove.store 0) (fun _ _ _ => rfl)
  have h3 := h2.snoc (i := RaceMove.ensure) trivial
  have h4 := h3.snoc (i := RaceMove.ensure) trivial
  exact h4.snoc (i := RaceMove.ensure) trivial

/-- A store that comes before the rebuild is refused by the old index, and one
that saw no index leaves its memory out of the new one. -/
theorem race_refuses_and_loses :
    (Backend.opened (Tables.empty : Tables Rat) 3).Exact ∧
      (raced 3 2 storeFirst).Finished ∧ Backend.pythagoras.embedding.length = 2 ∧
      (raced 3 2 storeFirst).stores = [StoreCall.returned Backend.pythagoras 3
        (Except.error (MenteError.embeddingDimensionMismatch 2 3))] ∧
    (Backend.opened (Tables.empty : Tables Rat) 0).Exact ∧
      (raced 0 2 storeLate).Finished ∧
      (raced 0 2 storeLate).stores = [StoreCall.returned Backend.pythagoras 0 (Except.ok ())] ∧
      (raced 0 2 storeLate).backend.tables.memoryVec = some { dim := 2, rows := [] } :=
  ⟨exact_opened_empty 3, finished_of_one rfl rfl, rfl, rfl, exact_opened_empty 0,
    finished_of_one rfl rfl, rfl, rfl⟩

end Invariant

end Sqlite
end MenteDb
