import MenteDb.Sqlite.History

/-!
# Reading back over whole histories

A run of the backend with the columns of its file beside it.  In every state a
run can reach, a node that is stored is read back from the columns, and a batch
is stored as a whole or not at all.
-/

namespace MenteDb
namespace Sqlite

open Foundation

variable {F : Type}

/-!
## Runs
-/

/-- An open database, the columns of its file and the statements committed so far. -/
structure Ledger (F : Type) where
  backend : Backend F
  columns : SqlDb F
  history : List (MemoryStatement F)

inductive LedgerCall (F : Type) where
  | write (write : BackendWrite F) (fault : Option MenteError)
  | reopen (hintDim : Nat)
  | ensureVectorIndex (dim : Nat)

namespace Ledger

variable [Scalar F]

omit [Scalar F] in
/-- A new database. -/
def opened (hintDim : Nat) : Ledger F where
  backend := Backend.opened Tables.empty hintDim
  columns := SqlDb.empty
  history := []

omit [Scalar F] in
/-- The state after a transaction with the given statements has committed. -/
def committed (codec : Codec F) (ledger : Ledger F) (statements : List (MemoryStatement F))
    (t : Tables F) : Ledger F where
  backend := { ledger.backend with tables := t }
  columns := ledger.columns.executeAll codec statements
  history := ledger.history ++ statements

/-- A write commits, or reports an error and leaves the database as it was; the fault
is an error of the storage itself. -/
def perform (codec : Codec F) (write : BackendWrite F) (fault : Option MenteError) :
    Prog (Ledger F) MenteError Unit := fun ledger =>
  match fault with
  | some e => (Except.error e, ledger)
  | none =>
      match write.transaction ledger.backend.embeddingDim ledger.backend.tables with
      | Except.error e => (Except.error e, ledger)
      | Except.ok t => (Except.ok (), ledger.committed codec write.statements t)

def step (codec : Codec F) (ledger : Ledger F) : LedgerCall F -> Ledger F
  | LedgerCall.write write fault => (perform codec write fault ledger).2
  | LedgerCall.reopen hintDim =>
      { ledger with backend := Backend.opened ledger.backend.tables hintDim }
  | LedgerCall.ensureVectorIndex dim =>
      { ledger with backend := ledger.backend.step (BackendCall.ensureVectorIndex dim) }

omit [Scalar F] in
def Agreed (codec : Codec F) (ledger : Ledger F) : Prop :=
  Agrees codec ledger.columns ledger.history ledger.backend.tables

variable {codec : Codec F} {ledger ledger' : Ledger F} {write : BackendWrite F}
variable {fault : Option MenteError}

theorem perform_ok (h : perform codec write fault ledger = (Except.ok (), ledger')) :
    exists t, write.transaction ledger.backend.embeddingDim ledger.backend.tables = Except.ok t ∧
      ledger' = ledger.committed codec write.statements t := by
  unfold perform at h
  split at h
  · cases h
  · split at h
    · cases h
    · rename_i t htx
      cases h
      exact ⟨t, htx, rfl⟩

theorem perform_error {e : MenteError}
    (h : perform codec write fault ledger = (Except.error e, ledger')) : ledger' = ledger := by
  unfold perform at h
  split at h
  · cases h
    rfl
  · split at h
    · cases h
      rfl
    · cases h

theorem agreed_perform (hagreed : ledger.Agreed codec)
    (h : perform codec write fault ledger = (Except.ok (), ledger')) : ledger'.Agreed codec := by
  rcases perform_ok h with ⟨t, htx, hledger⟩
  rw [hledger]
  exact BackendWrite.follows_transaction _ write _ _ _ _ hagreed htx

theorem agreed_step (hagreed : ledger.Agreed codec) (call : LedgerCall F) :
    (ledger.step codec call).Agreed codec := by
  have hsame : forall backend : Backend F,
      backend.tables.memories = ledger.backend.tables.memories ->
      backend.tables.memoryTags = ledger.backend.tables.memoryTags ->
      Agreed codec { ledger with backend := backend } := by
    intro backend hmemories htags
    refine ⟨⟨?_, ?_⟩, ?_⟩
    · intro id
      rw [hmemories]
      exact hagreed.represents.rows id
    · intro id tag
      rw [htags]
      exact hagreed.represents.tags id tag
    · intro id
      rw [hmemories]
      exact hagreed.created id
  cases call with
  | write write fault =>
      rcases hperform : perform codec write fault ledger with ⟨result, ledger'⟩
      have hstep : ledger.step codec (LedgerCall.write write fault) = ledger' :=
        congrArg Prod.snd hperform
      rw [hstep]
      cases result with
      | ok u => exact agreed_perform hagreed hperform
      | error e =>
          rw [perform_error hperform]
          exact hagreed
  | reopen hintDim => exact hsame _ rfl rfl
  | ensureVectorIndex dim =>
      apply hsame
      · unfold Backend.step
        simp only
        split
        · rfl
        · rfl
      · unfold Backend.step
        simp only
        split
        · rfl
        · rfl

omit [Scalar F] in
theorem agreed_opened (codec : Codec F) (hintDim : Nat) :
    (opened hintDim : Ledger F).Agreed codec where
  represents := ⟨fun _ => rfl, fun _ _ => Iff.rfl⟩
  created _ := rfl

theorem agreed_of_run {hintDim : Nat} {calls : List (LedgerCall F)}
    (hrun : Run (step codec) (fun _ _ => True) (opened hintDim) calls ledger) :
    ledger.Agreed codec :=
  hrun.invariant (I := Agreed codec) (fun _ call hagreed _ => agreed_step hagreed call)
    (agreed_opened codec hintDim)

/-!
### Loading what was stored
-/

omit [Scalar F] in
/-- Loading from the columns gives what the typed row holds, when it can be encoded. -/
theorem getMemory_columns (hagreed : ledger.Agreed codec) {node : MemoryNode F} {rowid : Nat}
    {createdAt : Timestamp} (hnode : Encodable codec node)
    (hrow : ledger.backend.tables.memories.find? node.id =
      some { Tables.rowOfNode node createdAt with rowid := rowid })
    (htags : forall tag, ledger.backend.tables.memoryTags.contains (node.id, tag) = true <->
      tag ∈ node.tags) :
    ledger.columns.getMemory codec node.id =
      some { node with createdAt := createdAt, tags := loadedTags node.tags } := by
  have hlisted : ledger.columns.tagsOf (idText node.id) = loadedTags node.tags := by
    apply Tables.sortedTags_eq_loadedTags
    intro tag
    rw [hagreed.represents.tags]
    exact htags tag
  unfold SqlDb.getMemory
  rw [hagreed.represents.rows, hrow, hlisted, Option.map_some,
    ← SqlDb.paramsOf_eq_encodeRow node rowid createdAt, Option.map_some,
    SqlDb.nodeOf_paramsOf hnode]

/-- Loading the node from the columns gives it back, with its tags in order and the
creation time of the history. -/
def Holds (codec : Codec F) (ledger : Ledger F) (node : MemoryNode F) : Prop :=
  exists createdAt, firstStored ledger.history node.id = some createdAt ∧
    ledger.columns.getMemory codec node.id =
      some { node with createdAt := createdAt, tags := loadedTags node.tags }

omit [Scalar F] in
/-- The row and the tags of the node are what the node says. -/
def Carries (node : MemoryNode F) (t : Tables F) : Prop :=
  (exists rowid createdAt, t.memories.find? node.id =
      some { Tables.rowOfNode node createdAt with rowid := rowid }) ∧
    forall tag, t.memoryTags.contains (node.id, tag) = true <-> tag ∈ node.tags

theorem carries_storeMemoryOn {node : MemoryNode F} {dim : Nat} {t t' : Tables F}
    (h : Tables.storeMemoryOn node dim t = Except.ok t') : Carries node t' := by
  constructor
  · rw [Tables.storeMemoryOn_find? h, if_pos rfl]
    cases t.memories.find? node.id with
    | none => exact ⟨_, _, rfl⟩
    | some old => exact ⟨_, _, rfl⟩
  · intro tag
    rw [Tables.storeMemoryOn_tags h]
    simp

/-- A store of another memory leaves the node alone. -/
theorem keeps_carries {node other : MemoryNode F} (dim : Nat) (hne : node.id ≠ other.id) :
    Atomic.Keeps (Carries node) (Tables.storeMemoryOn other dim) := by
  intro t t' ht hrun
  constructor
  · rw [Tables.storeMemoryOn_find? hrun, if_neg hne]
    exact ht.1
  · intro tag
    rw [Tables.storeMemoryOn_tags hrun]
    simpa [hne] using ht.2 tag

omit [Scalar F] in
theorem holds_of_carries (hagreed : ledger.Agreed codec) {node : MemoryNode F}
    (hnode : Encodable codec node) (h : Carries node ledger.backend.tables) :
    ledger.Holds codec node := by
  rcases h with ⟨⟨rowid, createdAt, hrow⟩, htags⟩
  have hcreated := hagreed.created node.id
  rw [hrow] at hcreated
  exact ⟨createdAt, hcreated.symm, getMemory_columns hagreed hnode hrow htags⟩

theorem holds_store (hagreed : ledger.Agreed codec) {node : MemoryNode F}
    (hnode : Encodable codec node)
    (h : perform codec (BackendWrite.storeMemory node) fault ledger = (Except.ok (), ledger')) :
    ledger'.Holds codec node := by
  apply holds_of_carries (agreed_perform hagreed h) hnode
  rcases perform_ok h with ⟨t, htx, hledger⟩
  rw [hledger]
  exact carries_storeMemoryOn (Tables.storeMemory_ok htx)

/-- The last of the nodes with its id is the one that is read back. -/
theorem holds_storeBatch (hagreed : ledger.Agreed codec) {earlier later : List (MemoryNode F)}
    {node : MemoryNode F} (hnode : Encodable codec node)
    (hlast : node.id ∉ later.map MemoryNode.id)
    (h : perform codec (BackendWrite.storeMemoryBatch (earlier ++ node :: later)) fault ledger =
      (Except.ok (), ledger')) : ledger'.Holds codec node := by
  apply holds_of_carries (agreed_perform hagreed h) hnode
  rcases perform_ok h with ⟨t, htx, hledger⟩
  rw [hledger]
  rcases Atomic.forEach_append_ok (Tables.storeMemoryBatch_ok htx) with ⟨mid, _, hrest⟩
  rcases Atomic.andThen_eq_ok.mp hrest with ⟨stored, hstore, hlater⟩
  refine Atomic.Keeps.forEach ?_ stored t (carries_storeMemoryOn hstore) hlater
  intro other hother
  apply keeps_carries
  intro heq
  exact hlast (heq ▸ List.mem_map_of_mem hother)

omit [Scalar F] in
theorem committed_committed (ledger : Ledger F) (xs ys : List (MemoryStatement F))
    (t t' : Tables F) :
    (ledger.committed codec xs t).committed codec ys t' =
      ledger.committed codec (xs ++ ys) t' := by
  simp [committed, SqlDb.executeAll]

theorem perform_store_of_fits {node : MemoryNode F} {t : Tables F}
    (hfits : Tables.dimensionMismatch ledger.backend.embeddingDim node = false)
    (h : Tables.storeMemoryOn node ledger.backend.embeddingDim ledger.backend.tables =
      Except.ok t) :
    perform codec (BackendWrite.storeMemory node) none ledger =
      (Except.ok (), ledger.committed codec [MemoryStatement.store node] t) := by
  have htx : (BackendWrite.storeMemory node).transaction ledger.backend.embeddingDim
      ledger.backend.tables = Except.ok t := by
    show Tables.storeMemory _ node _ = _
    unfold Tables.storeMemory
    rw [hfits, if_neg Bool.false_ne_true]
    exact h
  unfold perform
  simp only [htx]
  rfl

/-- Stores of nodes that fit the index, one after another. -/
theorem forEach_perform_store {nodes : List (MemoryNode F)} {ledger : Ledger F} {t : Tables F}
    (hfits : forall node, node ∈ nodes ->
      Tables.dimensionMismatch ledger.backend.embeddingDim node = false)
    (hrun : Atomic.forEach nodes
      (fun node => Tables.storeMemoryOn node ledger.backend.embeddingDim)
      ledger.backend.tables = Except.ok t) :
    Prog.forEach nodes (fun node => perform codec (BackendWrite.storeMemory node) none) ledger =
      (Except.ok (), ledger.committed codec (nodes.map MemoryStatement.store) t) := by
  induction nodes generalizing ledger with
  | nil =>
      cases hrun
      unfold committed
      rw [List.map_nil, List.append_nil]
      rfl
  | cons node rest ih =>
      rcases Atomic.andThen_eq_ok.mp hrun with ⟨mid, hstore, hrest⟩
      have hhead : perform codec (BackendWrite.storeMemory node) none ledger =
          (Except.ok (), ledger.committed codec [MemoryStatement.store node] mid) :=
        perform_store_of_fits (hfits node List.mem_cons_self) hstore
      have hmidFits : forall other, other ∈ rest -> Tables.dimensionMismatch
          (ledger.committed codec [MemoryStatement.store node] mid).backend.embeddingDim other =
            false :=
        fun other hother => hfits other (List.mem_cons_of_mem node hother)
      have htail := ih hmidFits hrest
      have hsplit : Prog.forEach (node :: rest)
          (fun node => perform codec (BackendWrite.storeMemory node) none) ledger =
            Prog.forEach rest (fun node => perform codec (BackendWrite.storeMemory node) none)
              (ledger.committed codec [MemoryStatement.store node] mid) :=
        Prog.forEach_cons_of_ok hhead
      rw [hsplit, htail, committed_committed]
      rfl

/-- A batch that commits is the stores of its nodes, one after another. -/
theorem storeBatch_one_by_one {nodes : List (MemoryNode F)}
    (h : perform codec (BackendWrite.storeMemoryBatch nodes) fault ledger =
      (Except.ok (), ledger')) :
    Prog.forEach nodes (fun node => perform codec (BackendWrite.storeMemory node) none) ledger =
      (Except.ok (), ledger') := by
  rcases perform_ok h with ⟨t, htx, hledger⟩
  rw [hledger]
  refine forEach_perform_store ?_ (Tables.storeMemoryBatch_ok htx)
  intro node hnode
  have hfind : nodes.find? (Tables.dimensionMismatch ledger.backend.embeddingDim) = none := by
    have hbatch : Tables.storeMemoryBatch ledger.backend.embeddingDim nodes
        ledger.backend.tables = Except.ok t := htx
    unfold Tables.storeMemoryBatch at hbatch
    split at hbatch
    · cases hbatch
    · rename_i hnone
      exact hnone
  exact Bool.eq_false_iff.mpr (List.find?_eq_none.mp hfind node hnode)

/-- In every run, a stored node is read back, and a batch is all or nothing. -/
theorem store_round_trip {hintDim : Nat} {calls : List (LedgerCall F)}
    (hrun : Run (step codec) (fun _ _ => True) (opened hintDim) calls ledger) :
    (forall node fault ledger', Encodable codec node ->
      perform codec (BackendWrite.storeMemory node) fault ledger = (Except.ok (), ledger') ->
      ledger'.Holds codec node) ∧
    (forall nodes fault e ledger',
      perform codec (BackendWrite.storeMemoryBatch nodes) fault ledger =
        (Except.error e, ledger') -> ledger' = ledger) ∧
    (forall nodes fault ledger',
      perform codec (BackendWrite.storeMemoryBatch nodes) fault ledger = (Except.ok (), ledger') ->
      Prog.forEach nodes (fun node => perform codec (BackendWrite.storeMemory node) none) ledger =
        (Except.ok (), ledger') ∧
      forall earlier node later, nodes = earlier ++ node :: later ->
        node.id ∉ later.map MemoryNode.id -> Encodable codec node ->
        ledger'.Holds codec node) := by
  have hagreed := agreed_of_run hrun
  refine ⟨?_, ?_, ?_⟩
  · intro node fault ledger' hnode hstore
    exact holds_store hagreed hnode hstore
  · intro nodes fault e ledger' hfail
    exact perform_error hfail
  · intro nodes fault ledger' hbatch
    refine ⟨storeBatch_one_by_one hbatch, ?_⟩
    intro earlier node later hsplit hlast hnode
    rw [hsplit] at hbatch
    exact holds_storeBatch hagreed hnode hlast hbatch

/-!
### Concrete runs
-/

def unitVector : MemoryNode Rat :=
  { MemoryNode.new ⟨7⟩ 1000 AgentId.nil MemoryType.semantic "first axis" [1, 0] with
    tags := ["b", "a", "b"] }

def laterVector : MemoryNode Rat :=
  { unitVector with content := "first axis, again", createdAt := 2000, accessedAt := 2000 }

theorem encodable_laterVector : Encodable plainCodec laterVector := by
  refine ⟨?_, ?_, ?_, ?_⟩
  · decide +kernel
  · decide +kernel
  · decide +kernel
  · decide +kernel

/-- A new database of two dimensions in which a node has been stored. -/
def axisLedger : Ledger Rat :=
  step plainCodec (opened 2) (LedgerCall.write (BackendWrite.storeMemory unitVector) none)

theorem store_round_trip_axis :
    (step plainCodec axisLedger
      (LedgerCall.write (BackendWrite.storeMemory laterVector) none)).Holds plainCodec
        laterVector ∧
    firstStored (axisLedger.history ++ [MemoryStatement.store laterVector]) laterVector.id =
      some 1000 ∧
    loadedTags laterVector.tags = ["a", "b"] := by
  have hrun : Run (step plainCodec) (fun _ _ => True) (opened 2)
      [LedgerCall.write (BackendWrite.storeMemory unitVector) none] axisLedger :=
    (Run.nil (opened 2)).snoc trivial
  have hstore := Prog.eq_of_isOk (x := perform plainCodec (BackendWrite.storeMemory laterVector)
    none) (s := axisLedger) (by decide +kernel)
  refine ⟨?_, by decide +kernel, by decide +kernel⟩
  exact (store_round_trip hrun).1 laterVector none _ encodable_laterVector hstore

end Ledger

end Sqlite
end MenteDb
