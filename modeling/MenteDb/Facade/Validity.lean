import MenteDb.Facade.Policies

/-!
# Validity windows through operations

Operations rewrite whole memory rows, but what they do to the validity of a
memory is little: they carry it over or overwrite its end with an instant of
their own.  The rules below follow one memory's window through every operation,
for any property of windows that survives the passage of time and closing.
-/

namespace MenteDb
namespace Facade

open Foundation
open Sqlite
open MenteDb.Graph
open Cognitive
open Consolidation

variable {F : Type}

/-!
## Windows
-/

structure Window where
  validFrom : Option Timestamp
  validUntil : Option Timestamp
deriving DecidableEq

namespace Window

def isValidAt (x : Window) (s : Timestamp) : Bool :=
  MenteDb.isValidAt x.validFrom x.validUntil s

def closeAt (x : Window) (t : Timestamp) : Window := { x with validUntil := some t }

/-- The window has ended by the bound. -/
def EndedBy (bound : Timestamp) (x : Window) : Prop :=
  exists u, x.validUntil = some u ∧ u <= bound

theorem EndedBy.not_valid {bound s : Timestamp} {x : Window} (h : EndedBy bound x)
    (hle : bound <= s) : x.isValidAt s = false := by
  rcases h with ⟨u, hu, hub⟩
  unfold isValidAt
  rw [hu]
  exact isValidAt_of_until_le (UInt64.le_trans hub hle)

theorem EndedBy.mono {bound bound' : Timestamp} {x : Window} (h : EndedBy bound x)
    (hle : bound <= bound') : EndedBy bound' x := by
  rcases h with ⟨u, hu, hub⟩
  exact ⟨u, hu, UInt64.le_trans hub hle⟩

theorem endedBy_closeAt {bound t : Timestamp} (x : Window) (h : t <= bound) :
    EndedBy bound (x.closeAt t) := ⟨t, rfl, h⟩

end Window

def rowWindow (row : MemoryRow F) : Window := ⟨row.validFrom, row.validUntil⟩

def nodeWindow (node : MemoryNode F) : Window := ⟨node.validFrom, node.validUntil⟩

/-- If the memory is stored, its window has the property. -/
def RowMeets (m : MemoryId) (P : Window -> Prop) (t : Tables F) : Prop :=
  forall row, t.memories.find? m = some row -> P (rowWindow row)

/-- If the node is a copy of the memory, its window has the property. -/
def CopyMeets (m : MemoryId) (P : Window -> Prop) (node : MemoryNode F) : Prop :=
  node.id = m -> P (nodeWindow node)

/-!
## Transactions
-/

section Transactions

variable {m : MemoryId} {P Q : Window -> Prop} {t : Tables F}

theorem RowMeets.mono (h : RowMeets m P t) (hPQ : forall x, P x -> Q x) : RowMeets m Q t :=
  fun row hrow => hPQ _ (h row hrow)

theorem CopyMeets.mono {node : MemoryNode F} (h : CopyMeets m P node)
    (hPQ : forall x, P x -> Q x) : CopyMeets m Q node := fun hid => hPQ _ (h hid)

theorem copyMeets_of_ne {node : MemoryNode F} (h : node.id ≠ m) : CopyMeets m P node :=
  fun hid => absurd hid h

/-- Whatever is loaded has the property of the row. -/
theorem RowMeets.copyMeets (h : RowMeets m P t) {id : MemoryId} {node : MemoryNode F}
    (hget : t.getMemory id = some node) : CopyMeets m P node := by
  intro hid
  rcases Option.map_eq_some_iff.mp hget with ⟨row, hrow, hnode⟩
  rw [← Tables.getMemory_id hget, hid] at hrow
  have hP := h row hrow
  rw [← hnode]
  exact hP

theorem rowMeets_storeMemoryOn [Scalar F] {node : MemoryNode F} {dim : Nat}
    (hnode : CopyMeets m P node) :
    Atomic.Keeps (RowMeets m P) (Tables.storeMemoryOn node dim) := by
  intro t t' ht hrun row hrow
  rw [Tables.storeMemoryOn_find? hrun] at hrow
  by_cases hm : m = node.id
  · rw [if_pos hm] at hrow
    have hwindow : rowWindow row = nodeWindow node := by
      cases hold : t.memories.find? node.id with
      | none =>
          rw [hold] at hrow
          cases hrow
          rfl
      | some old =>
          rw [hold] at hrow
          cases hrow
          rfl
    rw [hwindow]
    exact hnode hm.symm
  · rw [if_neg hm] at hrow
    exact ht row hrow

theorem find?_invalidateMemoryOn {id : MemoryId} {at_ : Timestamp} {t' : Tables F}
    {row : MemoryRow F} (hrun : Tables.invalidateMemoryOn id at_ t = Except.ok t')
    (hrow : t'.memories.find? m = some row) :
    exists old, t.memories.find? m = some old ∧
      rowWindow row = if m = id then (rowWindow old).closeAt at_ else rowWindow old := by
  cases hrun
  rw [MemoryTable.find?_modify] at hrow
  rcases Option.map_eq_some_iff.mp hrow with ⟨old, hold, hnew⟩
  refine ⟨old, hold, ?_⟩
  rw [← hnew]
  by_cases hid : m = id
  · rw [if_pos hid, if_pos hid]
    rfl
  · rw [if_neg hid, if_neg hid]

theorem rowMeets_invalidateMemoryOn {id : MemoryId} {at_ : Timestamp}
    (hat : id = m -> forall x, P x -> P (x.closeAt at_)) :
    Atomic.Keeps (RowMeets m P) (Tables.invalidateMemoryOn id at_ : Tx F) := by
  intro t t' ht hrun row hrow
  rcases find?_invalidateMemoryOn hrun hrow with ⟨old, hold, hwindow⟩
  rw [hwindow]
  by_cases hid : m = id
  · rw [if_pos hid]
    exact hat hid.symm _ (ht old hold)
  · rw [if_neg hid]
    exact ht old hold

theorem rowMeets_beside {tx : Tx F}
    (h : forall t t', tx t = Except.ok t' -> t'.memories = t.memories) :
    Atomic.Keeps (RowMeets m P) tx := by
  intro t t' ht hrun
  unfold RowMeets
  rw [h t t' hrun]
  exact ht

theorem rowMeets_markClaimStatusOn {c status : String} {at_ : Timestamp} :
    Atomic.Keeps (RowMeets m P) (Tables.markClaimStatusOn c status at_ : Tx F) := by
  apply rowMeets_beside
  intro t t' hrun
  cases hrun
  rfl

theorem rowMeets_markRelationshipStatusOn {r status : String} {at_ : Timestamp} :
    Atomic.Keeps (RowMeets m P) (Tables.markRelationshipStatusOn r status at_ : Tx F) := by
  apply rowMeets_beside
  intro t t' hrun
  cases hrun
  rfl

theorem rowMeets_addEdgeOn (edge : MemoryEdge F) :
    Atomic.Keeps (RowMeets m P) (Tables.addEdgeOn edge) := by
  apply rowMeets_beside
  intro t t' hrun
  cases hrun
  rfl

theorem rowMeets_applyCorrectionPolicy {mutation : CorrectionPolicyMutation F}
    (h : forall p, p ∈ mutation.memoryInvalidations -> p.1 = m ->
      forall x, P x -> P (x.closeAt p.2)) :
    Atomic.Keeps (RowMeets m P) (Tables.applyCorrectionPolicy mutation) := by
  apply Atomic.Keeps.andThen
  · exact Atomic.Keeps.forEach (fun p hp => rowMeets_invalidateMemoryOn (h p hp))
  · apply Atomic.Keeps.andThen
    · exact Atomic.Keeps.forEach (fun c _ => rowMeets_markClaimStatusOn)
    · apply Atomic.Keeps.andThen
      · exact Atomic.Keeps.forEach (fun r _ => rowMeets_markRelationshipStatusOn)
      · exact Atomic.Keeps.forEach (fun e _ => rowMeets_addEdgeOn e)

theorem rowMeets_softForgetOn {a : PolicyAffected} {at_ : Timestamp}
    (h : m ∈ a.memoryIds -> forall x, P x -> P (x.closeAt at_)) :
    Atomic.Keeps (RowMeets m P) (Tables.softForgetOn a at_ : Tx F) := by
  apply Atomic.Keeps.andThen
  · apply Atomic.Keeps.forEach
    intro id hid
    apply rowMeets_invalidateMemoryOn
    intro heq
    rw [heq] at hid
    exact h hid
  · apply Atomic.Keeps.andThen
    · exact Atomic.Keeps.forEach (fun c _ => rowMeets_markClaimStatusOn)
    · exact Atomic.Keeps.forEach (fun r _ => rowMeets_markRelationshipStatusOn)

/-- Invalidating a list of memories closes each of them. -/
theorem rowMeets_invalidateAll {ids : List MemoryId} {at_ : Timestamp} {t' : Tables F}
    (hm : m ∈ ids) (ht : RowMeets m P t) (hclose : forall x, P x -> Q (x.closeAt at_))
    (hagain : forall x, Q x -> Q (x.closeAt at_))
    (hrun : Atomic.forEach ids (fun id => Tables.invalidateMemoryOn id at_) t = Except.ok t') :
    RowMeets m Q t' := by
  induction ids generalizing t with
  | nil => cases hm
  | cons id rest ih =>
      rcases Atomic.andThen_eq_ok.mp hrun with ⟨mid, hmid, hend⟩
      by_cases hid : m = id
      · have hclosed : RowMeets m Q mid := by
          intro row hrow
          rcases find?_invalidateMemoryOn hmid hrow with ⟨old, hold, hwindow⟩
          rw [hwindow, if_pos hid]
          exact hclose _ (ht old hold)
        exact Atomic.Keeps.forEach
          (fun _ _ => rowMeets_invalidateMemoryOn (fun _ => hagain)) mid t' hclosed hend
      · have hkept : RowMeets m P mid :=
          rowMeets_invalidateMemoryOn (fun heq => absurd heq.symm hid) t mid ht hmid
        rcases List.mem_cons.mp hm with heq | hmem
        · exact absurd heq hid
        · exact ih hmem hkept hend

/-- A soft forget ends the window of every memory it affects. -/
theorem endedBy_softForgetOn {a : PolicyAffected} {at_ : Timestamp}
    {t' : Tables F} (hm : m ∈ a.memoryIds)
    (h : Tables.softForgetOn a at_ t = Except.ok t') :
    RowMeets m (Window.EndedBy at_) t' := by
  rcases Atomic.andThen_eq_ok.mp h with ⟨t1, h1, h⟩
  rcases Atomic.andThen_eq_ok.mp h with ⟨t2, h2, h3⟩
  have hclose : forall x : Window, (x.closeAt at_).EndedBy at_ :=
    fun x => Window.endedBy_closeAt x (UInt64.le_refl at_)
  have hmem : RowMeets m (Window.EndedBy at_) t1 :=
    rowMeets_invalidateAll (P := fun _ => True) hm (fun _ _ => trivial) (fun x _ => hclose x)
      (fun x _ => hclose x) h1
  have hclaims := Atomic.Keeps.forEach (fun c _ => rowMeets_markClaimStatusOn) t1 t2 hmem h2
  exact Atomic.Keeps.forEach (fun r _ => rowMeets_markRelationshipStatusOn) t2 t' hclaims h3

end Transactions

/-!
## Operations
-/

/-- A property of windows, indexed by the clock counter, that lasts and survives
closing with a past clock reading made since the start. -/
structure WindowLaw (env : Env F) (start : Nat) (P : Nat -> Window -> Prop) : Prop where
  later : forall a b x, a <= b -> P a x -> P b x
  closed : forall k n x, start <= k -> k < n -> P n x -> P n (x.closeAt (env.clock k))

/-- The memory's window has the property now, and the clock counter is past {lit}`n`. -/
def Meets (m : MemoryId) (P : Nat -> Window -> Prop) (n : Nat) (w : World F) : Prop :=
  RowMeets m (P w.ticks) w.tables ∧ n <= w.ticks

/-- Closing with the instant is harmless from {lit}`n` on. -/
def ClosesFrom (P : Nat -> Window -> Prop) (n : Nat) (at_ : Timestamp) : Prop :=
  forall j x, n <= j -> P j x -> P j (x.closeAt at_)

section Operations

variable {env : Env F} {m : MemoryId} {P : Nat -> Window -> Prop} {start n : Nat}

theorem Meets.mono {n' : Nat} {w : World F} (h : Meets m P n w) (hle : n' <= n) :
    Meets m P n' w := ⟨h.1, hle.trans h.2⟩

variable (law : WindowLaw env start P)

include law

theorem closesFrom_clock {k : Nat} (hstart : start <= k) :
    ClosesFrom P (k + 1) (env.clock k) :=
  fun j x hle hx => law.closed k j x hstart hle hx

theorem viewsMemories_meets : ViewsMemories (Meets m P n : World F -> Prop) := by
  intro w w' _ hmemories _ _ hticks hw
  constructor
  · have hlater := hw.1.mono (fun x => law.later _ _ x hticks)
    unfold RowMeets at hlater ⊢
    rw [hmemories]
    exact hlater
  · exact hw.2.trans hticks

/-- A clock reading, and what was known when it was made. -/
theorem triple_currentTimeUs_meets :
    Prog.Triple (Meets m P n) (currentTimeUs env)
      (fun now w => exists k, now = env.clock k ∧ n <= k ∧ Meets m P (k + 1) w ∧
        RowMeets m (P k) w.tables) (Meets m P n) := by
  intro w hw
  refine ⟨w.ticks, rfl, hw.2, ⟨?_, Nat.le_refl _⟩, hw.1⟩
  exact hw.1.mono (fun x => law.later _ _ x (Nat.le_succ _))

theorem keeps_transact_meets {tx : Tx F}
    (h : forall j, n <= j -> Atomic.Keeps (RowMeets m (P j)) tx) :
    Prog.Keeps (Meets m P n) (transact env tx) := by
  apply keeps_transact (viewsMemories_meets law).ignoresTicks
  intro w t hw hrun
  exact ⟨h _ hw.2 w.tables t hw.1 hrun, hw.2⟩

theorem keeps_relate_meets (edge : MemoryEdge F) :
    Prog.Keeps (Meets m P n) (relate env edge) := by
  apply Prog.Keeps.bind
  · exact keeps_transact_meets law (fun _ _ => rowMeets_addEdgeOn edge)
  · intro _
    exact keeps_onGraph (fun _ _ hw => hw)

/-- Writing a copy back that has the property. -/
theorem triple_dbStoreMemory_meets [Scalar F] (node : MemoryNode F) :
    Prog.Triple (fun w => Meets m P n w ∧ CopyMeets m (P w.ticks) node)
      (dbStoreMemory env node) (fun _ => Meets m P n) (Meets m P n) := by
  apply Prog.triple_gets_bind
  intro dim
  have hticks : IgnoresTicks
      (fun w : World F => Meets m P n w ∧ CopyMeets m (P w.ticks) node) := by
    intro w k hle hw
    exact ⟨(viewsMemories_meets law).ignoresTicks w k hle hw.1,
      hw.2.mono (fun x => law.later _ _ x hle)⟩
  apply (triple_transact hticks ?_).weaken (fun _ h => h) (fun _ _ h => h) (fun _ h => h.1)
  intro w t hw hrun
  exact ⟨rowMeets_storeMemoryOn hw.2 w.tables t hw.1.1 (Tables.storeMemory_ok hrun), hw.1.2⟩

theorem triple_storeBack_meets [Scalar F] (node : MemoryNode F) :
    Prog.Triple (fun w => Meets m P n w ∧ CopyMeets m (P w.ticks) node)
      (do
        dbStoreMemory env node
        emitLifecycleEvent env)
      (fun _ => Meets m P n) (Meets m P n) := by
  apply Prog.Triple.bind (triple_dbStoreMemory_meets law node)
  intro _
  exact keeps_emitLifecycleEvent (viewsMemories_meets law)

theorem keeps_invalidateMemory_meets [Scalar F] {id : MemoryId} {at_ : Timestamp}
    (hat : id = m -> ClosesFrom P n at_) :
    Prog.Keeps (Meets m P n) (invalidateMemory env id at_) := by
  apply Prog.Triple.bind (Q := fun node w => Meets m P n w ∧
    CopyMeets m (P w.ticks) node ∧ node.id = id)
  · intro w hw
    unfold getMemory
    cases hget : w.tables.getMemory id with
    | none => exact hw
    | some node => exact ⟨hw, hw.1.copyMeets hget, Tables.getMemory_id hget⟩
  · intro node w hw
    apply triple_storeBack_meets law (node.invalidate at_) w
    refine ⟨hw.1, ?_⟩
    intro hid
    have heq : id = m := by
      rw [← hw.2.2]
      exact hid
    exact hat heq _ _ hw.1.2 (hw.2.1 hid)

theorem keeps_rewriteMemory_meets [Scalar F] {id : MemoryId} {f : MemoryNode F -> MemoryNode F}
    (hf : forall node, (f node).id = node.id ∧ nodeWindow (f node) = nodeWindow node) :
    Prog.Keeps (Meets m P n) (rewriteMemory env id f) := by
  apply Prog.Triple.bind (Q := fun loaded w => Meets m P n w ∧
    forall node, loaded = some node -> CopyMeets m (P w.ticks) node)
  · apply Prog.triple_gets
    intro w hw
    exact ⟨hw, fun node hget => hw.1.copyMeets hget⟩
  · intro loaded w hw
    cases loaded with
    | none => exact hw.1
    | some node =>
        apply triple_storeBack_meets law (f node) w
        refine ⟨hw.1, ?_⟩
        unfold CopyMeets
        rw [(hf node).1, (hf node).2]
        exact hw.2 node rfl

/-!
### Stores
-/

/-- An inference closes a memory with a reading of its own or with the creation
time of the new memory, and only a memory it mentions. -/
theorem keeps_applyInferredAction_meets [Scalar F] (hstart : start <= n)
    {action : InferredAction F}
    (h : m ∈ action.endpoints ->
      forall memory supersededBy validUntil,
        action = InferredAction.invalidateMemory memory supersededBy validUntil ->
        ClosesFrom P n validUntil) :
    Prog.Keeps (Meets m P n) (applyInferredAction env action) := by
  have hviews : ViewsMemories (Meets m P n : World F -> Prop) := viewsMemories_meets law
  have hemit : Prog.Keeps (Meets m P n) (emitLifecycleEvent env) :=
    keeps_emitLifecycleEvent hviews
  have hnow : Prog.Keeps (Meets m P n) (currentTimeUs env) :=
    keeps_currentTimeUs hviews.ignoresTicks
  cases action with
  | createEdge source target edgeType weight =>
      exact Prog.Keeps.bind hnow (fun now => keeps_relate_meets law _)
  | invalidateMemory memory supersededBy validUntil =>
      have hat : memory = m -> ClosesFrom P n validUntil := by
        intro heq
        exact h (by simp [InferredAction.endpoints, heq]) _ _ _ rfl
      apply Prog.Keeps.bind (keeps_invalidateMemory_meets law hat)
      intro _
      apply Prog.Keeps.bind hnow
      intro now
      exact Prog.Keeps.bind (keeps_relate_meets law _) (fun _ => hemit)
  | markObsolete memory supersededBy =>
      apply Prog.Triple.bind (triple_currentTimeUs_meets law)
      intro now w hw
      rcases hw with ⟨k, hk, hle, hmeets, _⟩
      have hat : memory = m -> ClosesFrom P (k + 1) now := by
        intro _
        rw [hk]
        exact closesFrom_clock law (hstart.trans hle)
      have hkeeps : Prog.Keeps (Meets m P (k + 1)) (do
          invalidateMemory env memory now
          relate env (inferredEdge now supersededBy memory EdgeType.supersedes 1 none)
          emitLifecycleEvent env) := by
        apply Prog.Keeps.bind (keeps_invalidateMemory_meets law hat)
        intro _
        exact Prog.Keeps.bind (keeps_relate_meets law _)
          (fun _ => keeps_emitLifecycleEvent (viewsMemories_meets law))
      have hle' : n <= k + 1 := Nat.le_succ_of_le hle
      exact hkeeps.weaken (fun _ h => h) (fun _ _ h => h.mono hle') (fun _ h => h.mono hle')
        w hmeets
  | flagContradiction existing new reason =>
      apply Prog.Keeps.bind hnow
      intro now
      exact Prog.Keeps.bind (keeps_relate_meets law _) (fun _ => hemit)
  | updateConfidence memory newConfidence =>
      exact keeps_rewriteMemory_meets law (fun _ => ⟨rfl, rfl⟩)
  | propagateBeliefChange root delta =>
      apply Prog.Keeps.bind (Prog.keeps_gets _)
      intro affected
      exact Prog.Keeps.forEach
        (fun a _ => keeps_rewriteMemory_meets law (fun _ => ⟨rfl, rfl⟩))
  | updateContent memory newContent reason =>
      exact keeps_rewriteMemory_meets law (fun _ => ⟨rfl, rfl⟩)

/-- A new memory whose inferences cannot harm: it was created at a reading of the
past, or it is never compared with the followed memory. -/
def SafeToStore [Scalar F] (env : Env F) (m : MemoryId) (P : Nat -> Window -> Prop) (n : Nat)
    (new : MemoryNode F) : Prop :=
  new.id ≠ m ∧
    (ClosesFrom P n new.createdAt ∨
      forall (w : World F) k, RowMeets m (P k) w.tables ->
        m ∉ (inferenceCandidates env w (env.clock k) new).map MemoryNode.id)

theorem keeps_runWriteInference_meets [Scalar F] (hstart : start <= n) {new : MemoryNode F}
    (hsafe : SafeToStore env m P n new) :
    Prog.Keeps (Meets m P n) (runWriteInference env new) := by
  unfold runWriteInference
  apply Prog.triple_ite
  · intro _
    exact Prog.keeps_pure ()
  · intro _
    apply Prog.Triple.bind (triple_currentTimeUs_meets law)
    intro now
    apply Prog.Triple.bind (Q := fun existing w => Meets m P n w ∧
      (ClosesFrom P n new.createdAt ∨ m ∉ existing.map MemoryNode.id))
    · apply Prog.triple_gets
      intro w hw
      rcases hw with ⟨k, hk, hle, hmeets, hthen⟩
      refine ⟨hmeets.mono (Nat.le_succ_of_le hle), ?_⟩
      cases hsafe.2 with
      | inl hcreated => exact Or.inl hcreated
      | inr hunseen =>
          rw [hk]
          exact Or.inr (hunseen w k hthen)
    · intro existing w hw
      have hloop : Prog.Keeps (Meets m P n)
          (Prog.forEach (inferOnWrite env.text env.config.inferenceConfig new existing)
            (fun action => do
              let _ ← Prog.attempt (applyInferredAction env action)
              pure ())) := by
        apply Prog.Keeps.forEach
        intro action haction
        apply Prog.Keeps.bind
        · apply Prog.Keeps.attempt
          apply keeps_applyInferredAction_meets law hstart
          intro hmem memory supersededBy validUntil heq
          subst heq
          rw [validUntil_inferOnWrite haction]
          cases hw.2 with
          | inl hcreated => exact hcreated
          | inr hunseen =>
              rcases List.mem_cons.mp (endpoints_inferOnWrite haction hmem) with hnew | hold
              · exact absurd hnew.symm hsafe.1
              · exact absurd hold hunseen
        · intro _
          exact Prog.keeps_pure ()
      exact hloop w hw.1

theorem keeps_store_meets [Scalar F] (hstart : start <= n) {node : MemoryNode F}
    (hsafe : SafeToStore env m P n node) :
    Prog.Keeps (Meets m P n) (store env node) := by
  have hviews : ViewsMemories (Meets m P n : World F -> Prop) := viewsMemories_meets law
  have hwrite : Prog.Keeps (Meets m P n) (dbStoreMemory env node) :=
    (triple_dbStoreMemory_meets law node).weaken
      (fun _ h => ⟨h, copyMeets_of_ne hsafe.1⟩) (fun _ _ h => h) (fun _ h => h)
  exact keeps_store_of (keeps_provision hviews [node]) hwrite (fun _ hw => hw)
    (keeps_indexMemoryEntities hviews node)
    (fun _ => keeps_runWriteInference_meets law hstart hsafe)

theorem keeps_storeBatch_meets [Scalar F] {nodes : List (MemoryNode F)}
    (hnodes : forall node, node ∈ nodes -> node.id ≠ m) :
    Prog.Keeps (Meets m P n) (storeBatch env nodes) := by
  have hviews : ViewsMemories (Meets m P n : World F -> Prop) := viewsMemories_meets law
  apply Prog.Keeps.bind (keeps_provision hviews nodes)
  intro _
  apply Prog.Keeps.bind (Prog.keeps_gets _)
  intro dim
  apply Prog.Keeps.bind
  · apply keeps_transact_meets law
    intro j _ t t' ht hrun
    have hkeeps : Atomic.Keeps (RowMeets m (P j))
        (Atomic.forEach nodes (fun node => Tables.storeMemoryOn node dim)) :=
      Atomic.Keeps.forEach (fun node hnode =>
        rowMeets_storeMemoryOn (copyMeets_of_ne (hnodes node hnode)))
    exact hkeeps t t' ht (Tables.storeMemoryBatch_ok hrun)
  intro _
  apply Prog.Keeps.bind
  · apply Prog.Keeps.forEach
    intro node _
    apply Prog.Keeps.bind
    · exact Prog.keeps_modify (fun _ hw => hw)
    intro _
    apply Prog.Keeps.bind (Prog.Keeps.attempt (keeps_indexMemoryEntities hviews node))
    intro _
    exact Prog.keeps_pure ()
  · intro _
    exact Prog.keeps_pure _

/-!
### Policies and passes
-/

theorem keeps_applyCorrectionPolicy_meets [Scalar F] (hstart : start <= n)
    (request : CorrectionRequest) :
    Prog.Keeps (Meets m P n) (applyCorrectionPolicy env request) := by
  apply Prog.Keeps.bind
  · intro w hw
    unfold getMemory
    cases w.tables.getMemory request.newMemoryId with
    | none => exact hw
    | some node => exact hw
  intro _
  apply Prog.Keeps.bind (Prog.keeps_gets _)
  intro affected
  apply Prog.Triple.bind (triple_currentTimeUs_meets law)
  intro now w hw
  rcases hw with ⟨k, hk, hle, hmeets, _⟩
  have hkeeps : Prog.Keeps (Meets m P (k + 1)) (do
      transact env (Tables.applyCorrectionPolicy (correctionMutation request affected now))
      mirrorEdges (correctionEdges request now)
      pure affected : Op F PolicyAffected) := by
    apply Prog.Keeps.bind
    · apply keeps_transact_meets law
      intro j hj
      apply rowMeets_applyCorrectionPolicy
      intro p hp _ x
      rcases List.mem_map.mp hp with ⟨id, _, heq⟩
      rw [← heq, hk]
      exact closesFrom_clock law (hstart.trans hle) j x hj
    · intro _
      apply Prog.Keeps.bind
      · exact Prog.keeps_modify (fun _ hw => hw)
      · intro _
        exact Prog.keeps_pure affected
  have hle' : n <= k + 1 := Nat.le_succ_of_le hle
  exact hkeeps.weaken (fun _ h => h) (fun _ _ h => h.mono hle') (fun _ h => h.mono hle') w hmeets

theorem triple_writeLifecycle_meets [Scalar F] (updates : List (MemoryNode F)) :
    Prog.Triple (fun w => Meets m P n w ∧
        forall u, u ∈ updates -> CopyMeets m (P w.ticks) u)
      (writeLifecycle env updates) (fun _ => Meets m P n) (Meets m P n) := by
  apply Prog.triple_gets_bind
  intro dim
  have hticks : IgnoresTicks (fun w : World F => Meets m P n w ∧
      forall u, u ∈ updates -> CopyMeets m (P w.ticks) u) := by
    intro w k hle hw
    exact ⟨(viewsMemories_meets law).ignoresTicks w k hle hw.1,
      fun u hu => (hw.2 u hu).mono (fun x => law.later _ _ x hle)⟩
  apply Prog.Triple.bind (Q := fun _ => Meets m P n)
  · apply (triple_transact hticks ?_).weaken (fun _ h => h) (fun _ _ h => h) (fun _ h => h.1)
    intro w t hw hrun
    have hkeeps : Atomic.Keeps (RowMeets m (P w.ticks))
        (Tables.applyLifecyclePolicy dim updates) :=
      Atomic.Keeps.forEach (fun u hu => rowMeets_storeMemoryOn (hw.2 u hu))
    exact ⟨hkeeps w.tables t hw.1.1 hrun, hw.1.2⟩
  · intro _
    exact Prog.keeps_pure _

/-- A pass that loads all memories and writes changed copies back. -/
theorem keeps_maintenancePass_meets [Scalar F]
    {updates : Timestamp -> List (MemoryNode F) -> List (MemoryNode F)}
    (h : forall now nodes u, u ∈ updates now nodes ->
      exists node, node ∈ nodes ∧ u.id = node.id ∧ nodeWindow u = nodeWindow node) :
    Prog.Keeps (Meets m P n) (do
      let now ← currentTimeUs env
      let nodes ← Prog.gets (fun w : World F => w.tables.allMemories)
      writeLifecycle env (updates now nodes)) := by
  apply Prog.Keeps.bind (keeps_currentTimeUs (viewsMemories_meets law).ignoresTicks)
  intro now
  apply Prog.Triple.bind (Q := fun nodes w => Meets m P n w ∧
    forall node, node ∈ nodes -> CopyMeets m (P w.ticks) node)
  · apply Prog.triple_gets
    intro w hw
    exact ⟨hw, fun node hnode => hw.1.copyMeets (Tables.mem_allMemories hnode)⟩
  · intro nodes
    apply (triple_writeLifecycle_meets law (updates now nodes)).weaken ?_ (fun _ _ h => h)
      (fun _ h => h)
    intro w hw
    refine ⟨hw.1, ?_⟩
    intro u hu
    rcases h now nodes u hu with ⟨node, hnode, hid, hwindow⟩
    unfold CopyMeets
    rw [hid, hwindow]
    exact hw.2 node hnode

theorem keeps_applyDecayPolicyGlobal_meets [Scalar F] :
    Prog.Keeps (Meets m P n) (applyDecayPolicyGlobal env) := by
  apply keeps_maintenancePass_meets law
  intro now nodes u hu
  rcases mem_decayUpdates hu with ⟨node, hnode, s, heq⟩
  rw [heq]
  exact ⟨node, hnode, rfl, rfl⟩

theorem keeps_applyArchivePolicyGlobal_meets [Scalar F] :
    Prog.Keeps (Meets m P n) (applyArchivePolicyGlobal env) := by
  apply keeps_maintenancePass_meets law
  intro now nodes u hu
  rcases mem_archiveUpdates hu with ⟨node, hnode, tags, s, heq⟩
  rw [heq]
  exact ⟨node, hnode, rfl, rfl⟩

theorem keeps_retireSource_meets [Scalar F] {id source : MemoryId} {now : Timestamp}
    (hat : ClosesFrom P n now) : Prog.Keeps (Meets m P n) (retireSource env id now source) := by
  apply Prog.Keeps.bind
    (Prog.Keeps.attempt (keeps_invalidateMemory_meets law (fun _ => hat)))
  intro _
  apply Prog.Keeps.bind (Prog.Keeps.attempt (keeps_relate_meets law _))
  intro _
  apply Prog.Keeps.bind
    (Prog.Keeps.attempt (keeps_emitLifecycleEvent (viewsMemories_meets law)))
  intro _
  exact Prog.keeps_pure ()

/-- The merged memory is created at a reading of the consolidation itself. -/
theorem keeps_consolidateCluster_meets [Scalar F] (hstart : start <= n)
    (hfresh : forall k, env.freshMemoryId k ≠ m) (memoryIds : List MemoryId) :
    Prog.Keeps (Meets m P n) (consolidateCluster env memoryIds) := by
  apply Prog.Keeps.bind (Prog.keeps_gets _)
  intro cluster
  match cluster with
  | [] => exact Prog.keeps_fail _
  | [_] => exact Prog.keeps_fail _
  | first :: second :: rest =>
      apply Prog.Triple.bind (Q := fun id w => Meets m P n w ∧ id ≠ m)
      · exact Prog.triple_gets (fun w hw => ⟨hw, hfresh w.ticks⟩)
      intro id w hid
      apply Prog.Triple.bind (triple_currentTimeUs_meets law) _ w hid.1
      intro createdAt w1 hw1
      rcases hw1 with ⟨j, hj, hnj, hmeets1, _⟩
      have hcreated : ClosesFrom P (j + 1) createdAt := by
        rw [hj]
        exact closesFrom_clock law (hstart.trans hnj)
      have hstart' : start <= j + 1 := Nat.le_succ_of_le (hstart.trans hnj)
      have hkeeps : Prog.Keeps (Meets m P (j + 1)) (do
          store env (consolidatedNode env (first :: second :: rest) first.agentId id createdAt)
          emitLifecycleEvent env
          let now ← currentTimeUs env
          Prog.forEach (consolidate env.text (first :: second :: rest)).sourceMemories
            (retireSource env id now)
          pure id : Op F MemoryId) := by
        apply Prog.Keeps.bind
        · exact keeps_store_meets law hstart' ⟨hid.2, Or.inl hcreated⟩
        intro _
        apply Prog.Keeps.bind (keeps_emitLifecycleEvent (viewsMemories_meets law))
        intro _
        apply Prog.Triple.bind (triple_currentTimeUs_meets law)
        intro now w2 hw2
        rcases hw2 with ⟨k, hk, hjk, hmeets2, _⟩
        have hnow : ClosesFrom P (k + 1) now := by
          rw [hk]
          exact closesFrom_clock law (hstart'.trans hjk)
        have hsources : Prog.Keeps (Meets m P (k + 1)) (do
            Prog.forEach (consolidate env.text (first :: second :: rest)).sourceMemories
              (retireSource env id now)
            pure id : Op F MemoryId) :=
          Prog.Keeps.bind
            (Prog.Keeps.forEach (fun _ _ => keeps_retireSource_meets law hnow))
            (fun _ => Prog.keeps_pure id)
        have hle : j + 1 <= k + 1 := Nat.le_succ_of_le hjk
        exact hsources.weaken (fun _ h => h) (fun _ _ h => h.mono hle) (fun _ h => h.mono hle)
          w2 hmeets2
      have hle : n <= j + 1 := Nat.le_succ_of_le hnj
      exact hkeeps.weaken (fun _ h => h) (fun _ _ h => h.mono hle) (fun _ h => h.mono hle)
        w1 hmeets1

end Operations

end Facade
end MenteDb
