import MenteDb.Facade.Validity

/-!
# Invalidation overwrites

Four code paths end the validity of memories, claims and relationships.  Each of
them writes its own instant over whatever end was there.  An earlier end is kept
when the new instant is not later, and moved when it is.
-/

namespace MenteDb
namespace Facade

open Foundation
open Sqlite
open MenteDb.Graph

variable {F : Type}

def memoryWindow (m : MemoryId) (t : Tables F) : Option Window :=
  (t.memories.find? m).map rowWindow

def claimWindow (c : String) (t : Tables F) : Option Window :=
  (t.claims.find? c).map (fun row => ⟨row.validFrom, row.validUntil⟩)

def relationshipWindow (r : String) (t : Tables F) : Option Window :=
  (t.entityRelationships.find? r).map (fun row => ⟨row.validFrom, row.validUntil⟩)

/-- The end was overwritten with the instant. -/
def ClosedAt (at_ : Timestamp) (before after : Option Window) : Prop :=
  after = before.map (fun x => x.closeAt at_)

/-- Ended by the instant before, not valid at it afterwards. -/
def StaysEnded (s : Timestamp) (before after : Option Window) : Prop :=
  (forall x, before = some x -> x.EndedBy s) ->
    forall x, after = some x -> x.isValidAt s = false

/-- Every affected memory, claim and relationship was closed at the instant. -/
def ClosedAll (at_ : Timestamp) (affected : PolicyAffected) (t t' : Tables F) : Prop :=
  (forall m, m ∈ affected.memoryIds -> ClosedAt at_ (memoryWindow m t) (memoryWindow m t')) ∧
  (forall c, c ∈ affected.claimIds -> ClosedAt at_ (claimWindow c t) (claimWindow c t')) ∧
  (forall r, r ∈ affected.relationshipIds ->
    ClosedAt at_ (relationshipWindow r t) (relationshipWindow r t'))

/-- No memory, claim or relationship that had ended by the instant is valid at it. -/
def AllStayEnded (s : Timestamp) (t t' : Tables F) : Prop :=
  (forall m, StaysEnded s (memoryWindow m t) (memoryWindow m t')) ∧
  (forall c, StaysEnded s (claimWindow c t) (claimWindow c t')) ∧
  (forall r, StaysEnded s (relationshipWindow r t) (relationshipWindow r t'))

/-!
## Statements that may close a window
-/

/-- The transaction leaves what the reader sees alone or closes it. -/
def MayClose (get : Tables F -> Option Window) (at_ : Timestamp) (tx : Tx F) : Prop :=
  forall t t', tx t = Except.ok t' -> get t' = get t ∨ ClosedAt at_ (get t) (get t')

/-- The transaction closes what the reader sees. -/
def Closes (get : Tables F -> Option Window) (at_ : Timestamp) (tx : Tx F) : Prop :=
  forall t t', tx t = Except.ok t' -> ClosedAt at_ (get t) (get t')

section Closing

variable {get : Tables F -> Option Window} {at_ : Timestamp} {a b : Tx F} {α : Type}
  {xs : List α} {f : α -> Tx F}

theorem closedAt_closedAt {x y z : Option Window} (hxy : ClosedAt at_ x y)
    (hyz : ClosedAt at_ y z) : ClosedAt at_ x z := by
  unfold ClosedAt at hxy hyz ⊢
  rw [hyz, hxy, Option.map_map]
  rfl

theorem Closes.mayClose (h : Closes get at_ a) : MayClose get at_ a :=
  fun t t' hrun => Or.inr (h t t' hrun)

theorem MayClose.andThen (ha : MayClose get at_ a) (hb : MayClose get at_ b) :
    MayClose get at_ (Atomic.andThen a b) := by
  intro t t' hrun
  rcases Atomic.andThen_eq_ok.mp hrun with ⟨mid, hmid, hend⟩
  rcases ha t mid hmid with hsame | hclosed
  · rw [← hsame]
    exact hb mid t' hend
  · rcases hb mid t' hend with hsame | hagain
    · rw [hsame]
      exact Or.inr hclosed
    · exact Or.inr (closedAt_closedAt hclosed hagain)

theorem MayClose.forEach (h : forall x, x ∈ xs -> MayClose get at_ (f x)) :
    MayClose get at_ (Atomic.forEach xs f) := by
  induction xs with
  | nil =>
      intro t t' hrun
      cases hrun
      exact Or.inl rfl
  | cons x rest ih =>
      have htail := ih (fun y hy => h y (List.mem_cons_of_mem x hy))
      exact (h x List.mem_cons_self).andThen htail

theorem Closes.andThen_left (ha : Closes get at_ a) (hb : MayClose get at_ b) :
    Closes get at_ (Atomic.andThen a b) := by
  intro t t' hrun
  rcases Atomic.andThen_eq_ok.mp hrun with ⟨mid, hmid, hend⟩
  have hclosed := ha t mid hmid
  rcases hb mid t' hend with hsame | hagain
  · rw [hsame]
    exact hclosed
  · exact closedAt_closedAt hclosed hagain

theorem Closes.andThen_right (ha : MayClose get at_ a) (hb : Closes get at_ b) :
    Closes get at_ (Atomic.andThen a b) := by
  intro t t' hrun
  rcases Atomic.andThen_eq_ok.mp hrun with ⟨mid, hmid, hend⟩
  have hclosed := hb mid t' hend
  rcases ha t mid hmid with hsame | hagain
  · rw [← hsame]
    exact hclosed
  · exact closedAt_closedAt hagain hclosed

theorem Closes.forEach {x : α} (hx : x ∈ xs) (hclose : Closes get at_ (f x))
    (h : forall y, y ∈ xs -> MayClose get at_ (f y)) :
    Closes get at_ (Atomic.forEach xs f) := by
  induction xs with
  | nil => cases hx
  | cons y rest ih =>
      have htail : forall z, z ∈ rest -> MayClose get at_ (f z) :=
        fun z hz => h z (List.mem_cons_of_mem y hz)
      cases List.mem_cons.mp hx with
      | inl heq =>
          subst heq
          exact hclose.andThen_left (MayClose.forEach htail)
      | inr hmem => exact Closes.andThen_right (h y List.mem_cons_self) (ih hmem htail)

end Closing

/-!
## The three readers
-/

/-- Each statement of the policies leaves the window alone or closes it. -/
structure WindowReader (get : Tables F -> Option Window) : Prop where
  invalidate : forall id at_, MayClose get at_ (Tables.invalidateMemoryOn id at_)
  claim : forall c status at_, MayClose get at_ (Tables.markClaimStatusOn c status at_)
  relationship : forall r status at_,
    MayClose get at_ (Tables.markRelationshipStatusOn r status at_)
  edge : forall at_ e, MayClose get at_ (Tables.addEdgeOn e)

section Readers

theorem closes_invalidateMemoryOn (m : MemoryId) (at_ : Timestamp) :
    Closes (memoryWindow m) at_ (Tables.invalidateMemoryOn m at_ : Tx F) := by
  intro t t' hrun
  cases hrun
  simp only [ClosedAt, memoryWindow, MemoryTable.find?_modify, Option.map_map]
  congr 1

theorem closes_markClaimStatusOn (c status : String) (at_ : Timestamp) :
    Closes (claimWindow c) at_ (Tables.markClaimStatusOn c status at_ : Tx F) := by
  intro t t' hrun
  cases hrun
  simp only [ClosedAt, claimWindow, Assoc.find?_update, Option.map_map]
  congr 1

theorem closes_markRelationshipStatusOn (r status : String) (at_ : Timestamp) :
    Closes (relationshipWindow r) at_ (Tables.markRelationshipStatusOn r status at_ : Tx F) := by
  intro t t' hrun
  cases hrun
  simp only [ClosedAt, relationshipWindow, Assoc.find?_update, Option.map_map]
  congr 1

theorem windowReader_memoryWindow (m : MemoryId) :
    WindowReader (memoryWindow m : Tables F -> Option Window) where
  invalidate id at_ := by
    by_cases hid : id = m
    · rw [hid]
      exact (closes_invalidateMemoryOn m at_).mayClose
    · intro t t' hrun
      cases hrun
      left
      simp only [memoryWindow, MemoryTable.find?_modify, Ne.symm hid, if_false, Option.map_id']
  claim _ _ _ _ _ hrun := by
    cases hrun
    exact Or.inl rfl
  relationship _ _ _ _ _ hrun := by
    cases hrun
    exact Or.inl rfl
  edge _ _ _ _ hrun := by
    cases hrun
    exact Or.inl rfl

theorem windowReader_claimWindow (c : String) :
    WindowReader (claimWindow c : Tables F -> Option Window) where
  invalidate _ _ _ _ hrun := by
    cases hrun
    exact Or.inl rfl
  claim c' status at_ := by
    by_cases hc : c' = c
    · rw [hc]
      exact (closes_markClaimStatusOn c status at_).mayClose
    · intro t t' hrun
      cases hrun
      left
      simp [claimWindow, Ne.symm hc]
  relationship _ _ _ _ _ hrun := by
    cases hrun
    exact Or.inl rfl
  edge _ _ _ _ hrun := by
    cases hrun
    exact Or.inl rfl

theorem windowReader_relationshipWindow (r : String) :
    WindowReader (relationshipWindow r : Tables F -> Option Window) where
  invalidate _ _ _ _ hrun := by
    cases hrun
    exact Or.inl rfl
  claim _ _ _ _ _ hrun := by
    cases hrun
    exact Or.inl rfl
  relationship r' status at_ := by
    by_cases hr : r' = r
    · rw [hr]
      exact (closes_markRelationshipStatusOn r status at_).mayClose
    · intro t t' hrun
      cases hrun
      left
      simp [relationshipWindow, Ne.symm hr]
  edge _ _ _ _ hrun := by
    cases hrun
    exact Or.inl rfl

end Readers

/-!
## The policies
-/

section Policies

variable {get : Tables F -> Option Window} {at_ : Timestamp}

theorem WindowReader.softForgetOn (h : WindowReader get) (a : PolicyAffected) :
    MayClose get at_ (Tables.softForgetOn a at_) := by
  apply MayClose.andThen
  · exact MayClose.forEach (fun id _ => h.invalidate id at_)
  · apply MayClose.andThen
    · exact MayClose.forEach (fun c _ => h.claim c "forgotten" at_)
    · exact MayClose.forEach (fun r _ => h.relationship r "forgotten" at_)

theorem closedAll_softForgetOn {a : PolicyAffected} {at_ : Timestamp} {t t' : Tables F}
    (hrun : Tables.softForgetOn a at_ t = Except.ok t') : ClosedAll at_ a t t' := by
  refine ⟨?_, ?_, ?_⟩
  · intro m hm
    have h := windowReader_memoryWindow (F := F) m
    have hmemories := Closes.forEach hm (closes_invalidateMemoryOn (F := F) m at_)
      (fun id _ => h.invalidate id at_)
    exact hmemories.andThen_left (MayClose.andThen
      (MayClose.forEach (fun c _ => h.claim c "forgotten" at_))
      (MayClose.forEach (fun r _ => h.relationship r "forgotten" at_))) t t' hrun
  · intro c hc
    have h := windowReader_claimWindow (F := F) c
    have hclaims := Closes.forEach hc (closes_markClaimStatusOn (F := F) c "forgotten" at_)
      (fun c' _ => h.claim c' "forgotten" at_)
    exact Closes.andThen_right (MayClose.forEach (fun id _ => h.invalidate id at_))
      (hclaims.andThen_left (MayClose.forEach (fun r _ => h.relationship r "forgotten" at_)))
      t t' hrun
  · intro r hr
    have h := windowReader_relationshipWindow (F := F) r
    have hrelationships := Closes.forEach hr
      (closes_markRelationshipStatusOn (F := F) r "forgotten" at_)
      (fun r' _ => h.relationship r' "forgotten" at_)
    exact Closes.andThen_right (MayClose.forEach (fun id _ => h.invalidate id at_))
      (Closes.andThen_right (MayClose.forEach (fun c _ => h.claim c "forgotten" at_))
        hrelationships) t t' hrun

variable [Scalar F]

/-- The transaction of a correction at one instant. -/
abbrev correctionTx (request : CorrectionRequest) (affected : PolicyAffected)
    (at_ : Timestamp) : Tx F :=
  Tables.applyCorrectionPolicy (correctionMutation request affected at_)

theorem WindowReader.correctionTx (h : WindowReader get) (request : CorrectionRequest)
    (affected : PolicyAffected) : MayClose get at_ (correctionTx request affected at_) := by
  apply MayClose.andThen
  · apply MayClose.forEach
    intro p hp
    rcases List.mem_map.mp hp with ⟨id, _, heq⟩
    rw [← heq]
    exact h.invalidate id at_
  · apply MayClose.andThen
    · exact MayClose.forEach (fun c _ => h.claim c "corrected" at_)
    · apply MayClose.andThen
      · exact MayClose.forEach (fun r _ => h.relationship r "corrected" at_)
      · exact MayClose.forEach (fun e _ => h.edge at_ e)

theorem closedAll_correctionTx {request : CorrectionRequest} {affected : PolicyAffected}
    {at_ : Timestamp} {t t' : Tables F}
    (hrun : correctionTx request affected at_ t = Except.ok t') :
    ClosedAll at_ affected t t' := by
  have hinvalidations : forall {get : Tables F -> Option Window}, WindowReader get ->
      forall p, p ∈ (correctionMutation (F := F) request affected at_).memoryInvalidations ->
        MayClose get at_ (Tables.invalidateMemoryOn p.1 p.2) := by
    intro get h p hp
    rcases List.mem_map.mp hp with ⟨id, _, heq⟩
    rw [← heq]
    exact h.invalidate id at_
  refine ⟨?_, ?_, ?_⟩
  · intro m hm
    have h := windowReader_memoryWindow (F := F) m
    have hmem : (m, at_) ∈
        (correctionMutation (F := F) request affected at_).memoryInvalidations :=
      List.mem_map_of_mem hm
    have hmemories := Closes.forEach (f := fun p : MemoryId × Timestamp =>
      (Tables.invalidateMemoryOn p.1 p.2 : Tx F)) hmem
      (closes_invalidateMemoryOn m at_) (hinvalidations h)
    exact hmemories.andThen_left (MayClose.andThen
      (MayClose.forEach (fun c _ => h.claim c "corrected" at_))
      (MayClose.andThen (MayClose.forEach (fun r _ => h.relationship r "corrected" at_))
        (MayClose.forEach (fun e _ => h.edge at_ e)))) t t' hrun
  · intro c hc
    have h := windowReader_claimWindow (F := F) c
    have hclaims := Closes.forEach hc (closes_markClaimStatusOn (F := F) c "corrected" at_)
      (fun c' _ => h.claim c' "corrected" at_)
    exact Closes.andThen_right (MayClose.forEach (hinvalidations h))
      (hclaims.andThen_left (MayClose.andThen
        (MayClose.forEach (fun r _ => h.relationship r "corrected" at_))
        (MayClose.forEach (fun e _ => h.edge at_ e)))) t t' hrun
  · intro r hr
    have h := windowReader_relationshipWindow (F := F) r
    have hrelationships := Closes.forEach hr
      (closes_markRelationshipStatusOn (F := F) r "corrected" at_)
      (fun r' _ => h.relationship r' "corrected" at_)
    exact Closes.andThen_right (MayClose.forEach (hinvalidations h))
      (Closes.andThen_right (MayClose.forEach (fun c _ => h.claim c "corrected" at_))
        (hrelationships.andThen_left (MayClose.forEach (fun e _ => h.edge at_ e)))) t t' hrun

end Policies

/-!
## The operations
-/

section Operations

variable [Scalar F]

/-- An invalidation leaves the tables alone, or writes the loaded memory back with
its new end; it can still fail after that, when the event is recorded. -/
theorem invalidateMemory_cases (env : Env F) (m : MemoryId) (at_ : Timestamp) (w : World F) :
    (exists e n, invalidateMemory env m at_ w = (Except.error e, { w with ticks := n })) ∨
    (exists node t result n, w.tables.getMemory m = some node ∧
      Tables.storeMemoryOn (node.invalidate at_) w.embeddingDim w.tables = Except.ok t ∧
      invalidateMemory env m at_ w = (result, { w with tables := t, ticks := n })) := by
  simp only [invalidateMemory, bind, Prog.bind, getMemory]
  cases hget : w.tables.getMemory m with
  | none => exact Or.inl ⟨_, w.ticks, rfl⟩
  | some node =>
      simp only [dbStoreMemory, bind, Prog.bind, Prog.gets, transact, emitLifecycleEvent]
      cases hfault : env.fault w.ticks with
      | some e => exact Or.inl ⟨e, _, rfl⟩
      | none =>
          cases hrun : Tables.storeMemory w.embeddingDim (node.invalidate at_) w.tables with
          | error e => exact Or.inl ⟨e, _, rfl⟩
          | ok t =>
              dsimp only
              cases hevent : env.fault (w.ticks + 1) with
              | some e => exact Or.inr ⟨node, t, _, _, rfl, Tables.storeMemory_ok hrun, rfl⟩
              | none => exact Or.inr ⟨node, t, _, _, rfl, Tables.storeMemory_ok hrun, rfl⟩

theorem applyCorrectionPolicy_cases (env : Env F) (request : CorrectionRequest) (w : World F) :
    (exists e n, applyCorrectionPolicy env request w = (Except.error e, { w with ticks := n })) ∨
    (exists affected t g n,
      correctionTx request affected (env.clock w.ticks) w.tables = Except.ok t ∧
      applyCorrectionPolicy env request w =
        (Except.ok affected, { w with tables := t, graph := g, ticks := n })) := by
  simp only [applyCorrectionPolicy, bind, Prog.bind, getMemory]
  cases hget : w.tables.getMemory request.newMemoryId with
  | none => exact Or.inl ⟨_, w.ticks, rfl⟩
  | some node =>
      simp only [Prog.gets, currentTimeUs, transact]
      cases hfault : env.fault (w.ticks + 1) with
      | some e => exact Or.inl ⟨e, _, rfl⟩
      | none =>
          cases hrun : correctionTx (F := F) request (buildCorrectionPlan w.tables request)
              (env.clock w.ticks) w.tables with
          | error e =>
              simp only [hrun]
              exact Or.inl ⟨e, _, rfl⟩
          | ok t =>
              simp only [hrun]
              exact Or.inr ⟨_, t, _, _, hrun, rfl⟩

theorem closedAt_storeMemoryOn {m : MemoryId} {node : MemoryNode F} {at_ : Timestamp} {dim : Nat}
    {t t' : Tables F} (hget : t.getMemory m = some node)
    (hrun : Tables.storeMemoryOn (node.invalidate at_) dim t = Except.ok t') :
    ClosedAt at_ (memoryWindow m t) (memoryWindow m t') := by
  rcases Option.map_eq_some_iff.mp hget with ⟨row, hrow, hnode⟩
  have hnodeid := Tables.getMemory_id hget
  have hid : (node.invalidate at_).id = m := hnodeid
  unfold ClosedAt memoryWindow
  rw [Tables.storeMemoryOn_find? hrun, if_pos hid.symm, hid, hrow]
  subst hnode
  rfl

theorem staysEnded_of_closedAt {at_ s : Timestamp} {before after : Option Window}
    (h : after = before ∨ ClosedAt at_ before after) (hle : at_ <= s) :
    StaysEnded s before after := by
  intro hended x hx
  rcases h with hsame | hclosed
  · rw [hsame] at hx
    exact (hended x hx).not_valid (UInt64.le_refl s)
  · rw [hclosed] at hx
    rcases Option.map_eq_some_iff.mp hx with ⟨y, _, heq⟩
    rw [← heq]
    exact (Window.endedBy_closeAt y hle).not_valid (UInt64.le_refl s)

omit [Scalar F] in
theorem allStayEnded_of_mayClose {at_ s : Timestamp} {tx : Tx F} {t t' : Tables F}
    (h : forall get, WindowReader get -> MayClose get at_ tx) (hrun : tx t = Except.ok t')
    (hle : at_ <= s) : AllStayEnded s t t' :=
  ⟨fun m => staysEnded_of_closedAt (h _ (windowReader_memoryWindow m) t t' hrun) hle,
    fun c => staysEnded_of_closedAt (h _ (windowReader_claimWindow c) t t' hrun) hle,
    fun r => staysEnded_of_closedAt (h _ (windowReader_relationshipWindow r) t t' hrun) hle⟩

omit [Scalar F] in
theorem AllStayEnded.refl (s : Timestamp) (t : Tables F) : AllStayEnded s t t :=
  ⟨fun _ => staysEnded_of_closedAt (Or.inl rfl) (UInt64.le_refl s),
    fun _ => staysEnded_of_closedAt (Or.inl rfl) (UInt64.le_refl s),
    fun _ => staysEnded_of_closedAt (Or.inl rfl) (UInt64.le_refl s)⟩

/-- What consolidation may leave of a window: the window itself, or the window
closed with a reading made since. -/
def SameOrReclosed (env : Env F) (start : Nat) (x : Window) (n : Nat) (y : Window) : Prop :=
  y = x ∨ exists k, start <= k ∧ k < n ∧ y = x.closeAt (env.clock k)

omit [Scalar F] in
theorem windowLaw_sameOrReclosed (env : Env F) (start : Nat) (x : Window) :
    WindowLaw env start (SameOrReclosed env start x) where
  later a b y hle hy := by
    rcases hy with heq | ⟨k, hstart, hk, heq⟩
    · exact Or.inl heq
    · exact Or.inr ⟨k, hstart, Nat.lt_of_lt_of_le hk hle, heq⟩
  closed k n y hstart hk hy := by
    rcases hy with heq | ⟨j, _, _, heq⟩
    · rw [heq]
      exact Or.inr ⟨k, hstart, hk, rfl⟩
    · rw [heq]
      exact Or.inr ⟨k, hstart, hk, rfl⟩

omit [Scalar F] in
/-- The property that no window has: the memory is not stored. -/
theorem windowLaw_false (env : Env F) (start : Nat) : WindowLaw env start (fun _ _ => False) where
  later _ _ _ _ h := h
  closed _ _ _ _ _ h := h

theorem memoryWindow_consolidateCluster (env : Env F) (ids : List MemoryId) (w : World F)
    {m : MemoryId} (hfresh : forall k, env.freshMemoryId k ≠ m) {y : Window}
    (hy : memoryWindow m (consolidateCluster env ids w).2.tables = some y) :
    exists x, memoryWindow m w.tables = some x ∧
      SameOrReclosed env w.ticks x (consolidateCluster env ids w).2.ticks y := by
  rcases Option.map_eq_some_iff.mp hy with ⟨row, hrow, hwindow⟩
  cases hbefore : w.tables.memories.find? m with
  | none =>
      have hmeets : Meets m (fun _ _ => False) w.ticks w := by
        refine ⟨?_, Nat.le_refl _⟩
        intro row' hrow'
        rw [hbefore] at hrow'
        cases hrow'
      have hafter := (keeps_consolidateCluster_meets (windowLaw_false env w.ticks)
        (Nat.le_refl _) hfresh ids).state hmeets
      exact (hafter.1 row hrow).elim
  | some old =>
      have hmeets : Meets m (SameOrReclosed env w.ticks (rowWindow old)) w.ticks w := by
        refine ⟨?_, Nat.le_refl _⟩
        intro row' hrow'
        rw [hbefore] at hrow'
        cases hrow'
        exact Or.inl rfl
      have hafter := (keeps_consolidateCluster_meets
        (windowLaw_sameOrReclosed env w.ticks (rowWindow old)) (Nat.le_refl _) hfresh ids).state
        hmeets
      refine ⟨rowWindow old, by simp [memoryWindow, hbefore], ?_⟩
      rw [← hwindow]
      exact hafter.1 row hrow

/-- Each path overwrites the end of validity with its own instant.  What had ended
by an instant stays so when the new end is not later. -/
theorem invalidation_overwrites (env : Env F) (w : World F) (s : Timestamp) :
    (forall m at_,
      ((invalidateMemory env m at_ w).1 = Except.ok () ->
        ClosedAt at_ (memoryWindow m w.tables)
          (memoryWindow m (invalidateMemory env m at_ w).2.tables)) ∧
      (at_ <= s -> StaysEnded s (memoryWindow m w.tables)
        (memoryWindow m (invalidateMemory env m at_ w).2.tables))) ∧
    (forall request,
      (forall affected, (applyCorrectionPolicy env request w).1 = Except.ok affected ->
        ClosedAll (env.clock w.ticks) affected w.tables
          (applyCorrectionPolicy env request w).2.tables) ∧
      (env.clock w.ticks <= s ->
        AllStayEnded s w.tables (applyCorrectionPolicy env request w).2.tables)) ∧
    (forall scope,
      (forall affected, (applyForgetPolicy env scope ForgetMode.soft w).1 = Except.ok affected ->
        ClosedAll (env.clock w.ticks) affected w.tables
          (applyForgetPolicy env scope ForgetMode.soft w).2.tables) ∧
      (env.clock w.ticks <= s ->
        AllStayEnded s w.tables (applyForgetPolicy env scope ForgetMode.soft w).2.tables)) ∧
    (forall ids m, (forall k, env.freshMemoryId k ≠ m) ->
      (forall y, memoryWindow m (consolidateCluster env ids w).2.tables = some y ->
        exists x, memoryWindow m w.tables = some x ∧
          SameOrReclosed env w.ticks x (consolidateCluster env ids w).2.ticks y) ∧
      ((forall k, w.ticks <= k -> k < (consolidateCluster env ids w).2.ticks ->
          env.clock k <= s) ->
        StaysEnded s (memoryWindow m w.tables)
          (memoryWindow m (consolidateCluster env ids w).2.tables))) := by
  refine ⟨?_, ?_, ?_, ?_⟩
  · intro m at_
    rcases invalidateMemory_cases env m at_ w with
      ⟨e, n, hfail⟩ | ⟨node, t, result, n, hget, hrun, hdone⟩
    · rw [hfail]
      refine ⟨?_, fun hle => staysEnded_of_closedAt (Or.inl rfl) hle⟩
      intro hok
      cases hok
    · rw [hdone]
      have hclosed := closedAt_storeMemoryOn hget hrun
      exact ⟨fun _ => hclosed, fun hle => staysEnded_of_closedAt (Or.inr hclosed) hle⟩
  · intro request
    rcases applyCorrectionPolicy_cases env request w with
      ⟨e, n, hfail⟩ | ⟨affected, t, g, n, hrun, hdone⟩
    · rw [hfail]
      refine ⟨?_, fun _ => AllStayEnded.refl s w.tables⟩
      intro affected hok
      cases hok
    · rw [hdone]
      constructor
      · intro affected' hok
        cases hok
        exact closedAll_correctionTx hrun
      · exact allStayEnded_of_mayClose (fun _ h => h.correctionTx request affected) hrun
  · intro scope
    rcases applyForgetPolicy_cases env scope ForgetMode.soft w with
      ⟨e, hfail⟩ | ⟨t, hrun, hdone⟩
    · rw [hfail]
      refine ⟨?_, fun _ => AllStayEnded.refl s w.tables⟩
      intro affected hok
      cases hok
    · rw [hdone]
      have hsoft : Tables.softForgetOn (buildForgetPlan w.tables scope) (env.clock w.ticks)
          w.tables = Except.ok t := hrun
      constructor
      · intro affected hok
        cases hok
        exact closedAll_softForgetOn hsoft
      · exact allStayEnded_of_mayClose (fun _ h => h.softForgetOn _) hsoft
  · intro ids m hfresh
    refine ⟨fun y hy => memoryWindow_consolidateCluster env ids w hfresh hy, ?_⟩
    intro hreadings hended y hy
    rcases memoryWindow_consolidateCluster env ids w hfresh hy with ⟨x, hx, hxy⟩
    rcases hxy with heq | ⟨k, hstart, hk, heq⟩
    · rw [heq]
      exact (hended x hx).not_valid (UInt64.le_refl s)
    · rw [heq]
      exact (Window.endedBy_closeAt x (hreadings k hstart hk)).not_valid (UInt64.le_refl s)

end Operations

/-!
A memory that ended at one instant and is invalidated again at a later one is
valid in between.
-/

def endedWorld : World Rat :=
  (invalidateMemory (calmEnv CognitiveConfig.default) ⟨7⟩ 1500
    (store (calmEnv CognitiveConfig.default)
      (MemoryNode.new ⟨7⟩ 1000 AgentId.nil MemoryType.semantic "Turin" []) emptyWorld).2).2

theorem later_invalidation_extends :
    memoryWindow ⟨7⟩ endedWorld.tables = some ⟨none, some 1500⟩ ∧
      (invalidateMemory (calmEnv CognitiveConfig.default) ⟨7⟩ 2000 endedWorld).1 =
        Except.ok () ∧
      (endedWorld.tables.getMemory ⟨7⟩).map (fun m => m.isValidAt 1700) = some false ∧
      ((invalidateMemory (calmEnv CognitiveConfig.default) ⟨7⟩ 2000 endedWorld).2.tables.getMemory
        ⟨7⟩).map (fun m => m.isValidAt 1700) = some true ∧
      ¬ StaysEnded 1700 (memoryWindow ⟨7⟩ endedWorld.tables)
        (memoryWindow ⟨7⟩
          (invalidateMemory (calmEnv CognitiveConfig.default) ⟨7⟩ 2000 endedWorld).2.tables) := by
  have hbefore : memoryWindow ⟨7⟩ endedWorld.tables = some ⟨none, some 1500⟩ := by decide +kernel
  have hafter : memoryWindow ⟨7⟩
      (invalidateMemory (calmEnv CognitiveConfig.default) ⟨7⟩ 2000 endedWorld).2.tables =
      some ⟨none, some 2000⟩ := by decide +kernel
  refine ⟨hbefore, by decide +kernel, by decide +kernel, by decide +kernel, ?_⟩
  intro hstays
  have hended : forall x, memoryWindow ⟨7⟩ endedWorld.tables = some x -> x.EndedBy 1700 := by
    intro x hx
    rw [hbefore] at hx
    cases hx
    exact ⟨1500, rfl, by decide⟩
  have hvalid := hstays hended _ hafter
  revert hvalid
  decide

end Facade
end MenteDb
