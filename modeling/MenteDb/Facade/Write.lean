import MenteDb.Facade.Recall

/-!
# Storing and relating memories

A store writes the memory, registers it in the graph, links the entities it
mentions and then draws inferences from similar memories.  Failures of the last
two steps are logged and dropped.
-/

namespace MenteDb
namespace Facade

open Foundation
open Sqlite
open MenteDb.Graph
open Cognitive

variable {F : Type}

/-!
## Backend calls
-/

def getMemory (id : MemoryId) : Op F (MemoryNode F) := fun w =>
  match w.tables.getMemory id with
  | none => (Except.error (MenteError.memoryNotFound id), w)
  | some node => (Except.ok node, w)

/-- The transaction of an audit record, whose row is in none of the relations here: it can fail,
and nothing reads what it wrote. -/
def emitLifecycleEvent (env : Env F) : Op F Unit := transact env (fun t => Except.ok t)

section Backend

variable [Scalar F]

def ensureVectorIndex (env : Env F) (dim : Nat) : Op F Unit := do
  let current ← Prog.gets World.embeddingDim
  if dim = 0 ∨ dim = current then pure ()
  else
    transact env (Tables.ensureVectorIndex dim)
    Prog.modify (fun w => { w with embeddingDim := dim })

def dbStoreMemory (env : Env F) (node : MemoryNode F) : Op F Unit := do
  let dim ← Prog.gets World.embeddingDim
  transact env (Tables.storeMemory dim node)

/-- Provision the index from the first embedding seen. -/
def provisionIndex (env : Env F) (nodes : List (MemoryNode F)) : Op F Unit := do
  let dim ← Prog.gets World.embeddingDim
  match nodes.find? (fun n => !n.embedding.isEmpty) with
  | some first => if dim = 0 then ensureVectorIndex env first.embedding.length else pure ()
  | none => pure ()

def checkDimensions (nodes : List (MemoryNode F)) : Op F Unit := do
  let dim ← Prog.gets World.embeddingDim
  match nodes.find? (Tables.dimensionMismatch dim) with
  | some node => Prog.fail (Tables.mismatchError dim node)
  | none => pure ()

def provision (env : Env F) (nodes : List (MemoryNode F)) : Op F Unit := do
  provisionIndex env nodes
  checkDimensions nodes

end Backend

/-!
## Entities of a memory
-/

section Entities

variable [Scalar F]

/-- The record a mention is written to: the latest one of that name, or a new one. -/
def entityRecordFor (env : Env F) (t : Tables F) (ticks : Nat) (now : Timestamp)
    (mention : ExtractedEntity F × Nat) : EntityRecord F :=
  match t.entityByCanonical mention.1.entityType mention.1.canonical with
  | some (id, row) =>
      (id, { row with
        confidence := max row.confidence mention.1.confidence
        updatedAt := now
        attributesJson := "\x7b\x7d" })
  | none =>
      (env.freshEntityId ticks mention.2,
        { entityType := mention.1.entityType
          canonical := mention.1.canonical
          attributesJson := "\x7b\x7d"
          confidence := mention.1.confidence
          createdAt := now
          updatedAt := now })

omit [Scalar F] in
/-- The phantom tracker learns that the entities are known. -/
def registerEntities (entities : List String) : Op F Unit :=
  Prog.modify (fun w => { w with phantom := w.phantom.registerEntities entities })

def persistExtractedEntities (env : Env F) (memoryId : MemoryId)
    (extracted : List (ExtractedEntity F)) : Op F Unit := do
  if extracted.isEmpty then
    transact env (Tables.replaceMemoryEntityBundle memoryId [] [] [])
  else
    let now ← currentTimeUs env
    let records ← Prog.gets (fun w =>
      extracted.zipIdx.map (fun m => (m.1, entityRecordFor env w.tables w.ticks now m)))
    let aliases : List (EntityAlias F) := records.flatMap (fun r =>
      r.1.aliases.map (fun name =>
        ((r.2.1, name),
          { source := some "surface_linker", confidence := r.1.confidence })))
    let links : List (MemoryEntityLink F) := records.map (fun r =>
      ((memoryId, r.2.1, r.1.role.getD "mentioned"),
        { confidence := r.1.confidence, evidence := r.1.evidence }))
    transact env (Tables.replaceMemoryEntityBundle memoryId (records.map Prod.snd) aliases links)
    registerEntities (records.map (fun r => r.2.2.canonical))

def indexMemoryEntities (env : Env F) (node : MemoryNode F) : Op F Unit :=
  if env.config.entityExtractionConfig.enabled then
    persistExtractedEntities env node.id (env.extractMemory node)
  else pure ()

end Entities

/-!
## Relating and invalidating
-/

/-- The edge row is committed before the graph is asked. -/
def relate (env : Env F) (edge : MemoryEdge F) : Op F Unit := do
  transact env (Tables.addEdgeOn edge)
  onGraph (fun g => GraphManager.addRelationship g edge)

def invalidateMemory [Scalar F] (env : Env F) (id : MemoryId) (at_ : Timestamp) : Op F Unit := do
  let node ← getMemory id
  dbStoreMemory env (node.invalidate at_)
  emitLifecycleEvent env

/-!
## Write inference
-/

inductive InferredAction (F : Type) where
  | flagContradiction (existing new : MemoryId) (reason : String)
  | markObsolete (memory supersededBy : MemoryId)
  | invalidateMemory (memory supersededBy : MemoryId) (validUntil : Timestamp)
  | updateContent (memory : MemoryId) (newContent reason : String)
  | createEdge (source target : MemoryId) (edgeType : EdgeType) (weight : F)
  | updateConfidence (memory : MemoryId) (newConfidence : F)
  | propagateBeliefChange (root : MemoryId) (delta : F)

section Inference

variable [Scalar F]

/-- Actions for one similar memory. -/
def inferForPair (text : TextOps F) (config : WriteInferenceConfig F)
    (new existing : MemoryNode F) : List (InferredAction F) :=
  let sim := cosineSimilarity new.embedding existing.embedding
  (if config.contradictionThreshold < sim ∧ existing.agentId = new.agentId
      ∧ existing.content ≠ new.content then
    [InferredAction.flagContradiction existing.id new.id
      ("High embedding similarity (" ++ text.fixed3 sim
        ++ ") with different content from same agent")]
  else [])
  ++ (if config.obsoleteThreshold < sim ∧ existing.createdAt < new.createdAt then
    [InferredAction.markObsolete existing.id new.id,
      InferredAction.invalidateMemory existing.id new.id new.createdAt]
  else [])
  ++ (if config.relatedMin < sim ∧ sim <= config.relatedMax then
    [InferredAction.createEdge new.id existing.id EdgeType.related sim]
  else [])

/-- The most similar memory; the last one of equals. -/
def mostSimilar (new : MemoryNode F) (existing : List (MemoryNode F)) :
    Option (MemoryNode F) :=
  existing.foldl (fun best m =>
    match best with
    | none => some m
    | some b =>
        if cosineSimilarity new.embedding b.embedding
            <= cosineSimilarity new.embedding m.embedding then some m
        else some b) none

def inferCorrection (config : WriteInferenceConfig F) (new : MemoryNode F)
    (existing : List (MemoryNode F)) : List (InferredAction F) :=
  if new.memoryType = MemoryType.correction then
    match mostSimilar new existing with
    | none => []
    | some original =>
        if config.correctionThreshold < cosineSimilarity new.embedding original.embedding then
          [InferredAction.createEdge new.id original.id EdgeType.supersedes 1,
            InferredAction.updateConfidence original.id
              (max (original.confidence * config.confidenceDecayFactor) config.confidenceFloor)]
        else []
  else []

def inferOnWrite (text : TextOps F) (config : WriteInferenceConfig F) (new : MemoryNode F)
    (existing : List (MemoryNode F)) : List (InferredAction F) :=
  let others := existing.filter (fun m => decide (m.id ≠ new.id))
  others.flatMap (inferForPair text config new) ++ inferCorrection config new others

def inferredEdge (now : Timestamp) (source target : MemoryId) (edgeType : EdgeType)
    (weight : F) (label : Option String) : MemoryEdge F where
  source := source
  target := target
  edgeType := edgeType
  weight := weight
  createdAt := now
  validFrom := none
  validUntil := none
  label := label

/-- Load, change and store back; a memory that does not load is skipped. -/
def rewriteMemory (env : Env F) (id : MemoryId) (f : MemoryNode F -> MemoryNode F) :
    Op F Unit := do
  let loaded ← Prog.gets (fun w => w.tables.getMemory id)
  match loaded with
  | none => pure ()
  | some node =>
      dbStoreMemory env (f node)
      emitLifecycleEvent env

def applyInferredAction (env : Env F) : InferredAction F -> Op F Unit
  | InferredAction.createEdge source target edgeType weight => do
      let now ← currentTimeUs env
      relate env (inferredEdge now source target edgeType weight none)
  | InferredAction.invalidateMemory memory supersededBy validUntil => do
      invalidateMemory env memory validUntil
      let now ← currentTimeUs env
      relate env (inferredEdge now supersededBy memory EdgeType.supersedes 1 none)
      emitLifecycleEvent env
  | InferredAction.markObsolete memory supersededBy => do
      let now ← currentTimeUs env
      invalidateMemory env memory now
      relate env (inferredEdge now supersededBy memory EdgeType.supersedes 1 none)
      emitLifecycleEvent env
  | InferredAction.flagContradiction existing new reason => do
      let now ← currentTimeUs env
      relate env (inferredEdge now new existing EdgeType.contradicts 1 (some reason))
      emitLifecycleEvent env
  | InferredAction.updateConfidence memory newConfidence =>
      rewriteMemory env memory (fun node => { node with confidence := newConfidence })
  | InferredAction.propagateBeliefChange root delta => do
      let affected ← Prog.gets (fun w =>
        match w.tables.getMemory root with
        | none => []
        | some node => env.hashOrder.order
            (propagateUpdate w.graph root (clampUnit (node.confidence + delta))))
      Prog.forEach affected (fun a =>
        rewriteMemory env a.1 (fun node => { node with confidence := a.2 }))
  | InferredAction.updateContent memory newContent _ =>
      rewriteMemory env memory (fun node => { node with content := newContent })

/-- Memories to compare a new memory with: what recall finds similar right now. -/
def inferenceCandidates (env : Env F) (w : World F) (now : Timestamp) (new : MemoryNode F) :
    List (MemoryNode F) :=
  ((openRecall env w new.embedding none 20 now).filter
    (fun hit => decide (hit.1 ≠ new.id))).filterMap (fun hit => w.tables.getMemory hit.1)

def runWriteInference (env : Env F) (new : MemoryNode F) : Op F Unit :=
  if new.embedding.isEmpty then pure ()
  else do
    let now ← currentTimeUs env
    let existing ← Prog.gets (fun w => inferenceCandidates env w now new)
    Prog.forEach (inferOnWrite env.text env.config.inferenceConfig new existing) (fun action => do
      let _ ← Prog.attempt (applyInferredAction env action)
      pure ())

/-!
## Storing
-/

def store (env : Env F) (node : MemoryNode F) : Op F Unit := do
  provision env [node]
  dbStoreMemory env node
  Prog.modify (fun w => { w with graph := GraphManager.addMemory w.graph node.id })
  let _ ← Prog.attempt (indexMemoryEntities env node)
  if env.config.writeInference then runWriteInference env node else pure ()

def storeBatch (env : Env F) (nodes : List (MemoryNode F)) : Op F (List MemoryId) := do
  provision env nodes
  let dim ← Prog.gets World.embeddingDim
  transact env (Tables.storeMemoryBatch dim nodes)
  Prog.forEach nodes (fun node => do
    Prog.modify (fun w => { w with graph := GraphManager.addMemory w.graph node.id })
    let _ ← Prog.attempt (indexMemoryEntities env node)
    pure ())
  pure (nodes.map MemoryNode.id)

end Inference

/-!
## What an inference concludes
-/

/-- The actions one similar memory can lead to. -/
inductive Concludes [Scalar F] (config : WriteInferenceConfig F) (new existing : MemoryNode F) :
    InferredAction F -> Prop where
  | contradiction (reason : String) : existing.agentId = new.agentId ->
      Concludes config new existing (InferredAction.flagContradiction existing.id new.id reason)
  | obsolete : config.obsoleteThreshold < cosineSimilarity new.embedding existing.embedding ->
      existing.createdAt < new.createdAt ->
      Concludes config new existing (InferredAction.markObsolete existing.id new.id)
  | invalid : config.obsoleteThreshold < cosineSimilarity new.embedding existing.embedding ->
      existing.createdAt < new.createdAt ->
      Concludes config new existing
        (InferredAction.invalidateMemory existing.id new.id new.createdAt)
  | edge (edgeType : EdgeType) (weight : F) :
      Concludes config new existing
        (InferredAction.createEdge new.id existing.id edgeType weight)
  | confidence (c : F) : new.memoryType = MemoryType.correction ->
      config.correctionThreshold < cosineSimilarity new.embedding existing.embedding ->
      Concludes config new existing (InferredAction.updateConfidence existing.id c)

theorem concludes_inferForPair [Scalar F] {text : TextOps F} {config : WriteInferenceConfig F}
    {new existing : MemoryNode F} {action : InferredAction F}
    (h : action ∈ inferForPair text config new existing) :
    Concludes config new existing action := by
  unfold inferForPair at h
  simp only [List.mem_append] at h
  rcases h with (h | h) | h
  · split at h
    · rename_i hc
      rw [List.mem_singleton.mp h]
      exact Concludes.contradiction _ hc.2.1
    · cases h
  · split at h
    · rename_i hc
      rcases List.mem_cons.mp h with heq | hmem
      · rw [heq]
        exact Concludes.obsolete hc.1 hc.2
      · rw [List.mem_singleton.mp hmem]
        exact Concludes.invalid hc.1 hc.2
    · cases h
  · split at h
    · rw [List.mem_singleton.mp h]
      exact Concludes.edge _ _
    · cases h

theorem mem_of_mostSimilar [Scalar F] {new : MemoryNode F} {existing : List (MemoryNode F)}
    {m : MemoryNode F} (h : mostSimilar new existing = some m) : m ∈ existing := by
  have hfold : forall (rest : List (MemoryNode F)) (best : Option (MemoryNode F)),
      rest.foldl (fun best m =>
        match best with
        | none => some m
        | some b =>
            if cosineSimilarity new.embedding b.embedding
                <= cosineSimilarity new.embedding m.embedding then some m
            else some b) best = some m -> best = some m ∨ m ∈ rest := by
    intro rest
    induction rest with
    | nil =>
        intro best hbest
        exact Or.inl hbest
    | cons x rest ih =>
        intro best hbest
        rw [List.foldl_cons] at hbest
        rcases ih _ hbest with hhead | hmem
        · cases best with
          | none =>
              cases hhead
              exact Or.inr List.mem_cons_self
          | some b =>
              simp only at hhead
              split at hhead
              · cases hhead
                exact Or.inr List.mem_cons_self
              · exact Or.inl hhead
        · exact Or.inr (List.mem_cons_of_mem x hmem)
  rcases hfold existing none h with hnone | hmem
  · cases hnone
  · exact hmem

/-- The confidence a corrected memory is left with. -/
def correctedConfidence [Scalar F] (config : WriteInferenceConfig F) (confidence : F) : F :=
  max (confidence * config.confidenceDecayFactor) config.confidenceFloor

/-- A correction does nothing, or supersedes one of its candidates and lowers its
confidence. -/
theorem inferCorrection_cases [Scalar F] (config : WriteInferenceConfig F) (new : MemoryNode F)
    (existing : List (MemoryNode F)) :
    inferCorrection config new existing = [] ∨
      exists original, original ∈ existing ∧ new.memoryType = MemoryType.correction ∧
        config.correctionThreshold < cosineSimilarity new.embedding original.embedding ∧
        inferCorrection config new existing =
          [InferredAction.createEdge new.id original.id EdgeType.supersedes 1,
            InferredAction.updateConfidence original.id
              (correctedConfidence config original.confidence)] := by
  unfold inferCorrection
  by_cases htype : new.memoryType = MemoryType.correction
  · rw [if_pos htype]
    cases hsimilar : mostSimilar new existing with
    | none => exact Or.inl rfl
    | some original =>
        simp only
        split
        · rename_i hthreshold
          exact Or.inr ⟨original, mem_of_mostSimilar hsimilar, htype, hthreshold, rfl⟩
        · exact Or.inl rfl
  · exact Or.inl (if_neg htype)

theorem mem_inferCorrection [Scalar F] {config : WriteInferenceConfig F} {new : MemoryNode F}
    {existing : List (MemoryNode F)} {action : InferredAction F}
    (h : action ∈ inferCorrection config new existing) :
    exists original, original ∈ existing ∧ new.memoryType = MemoryType.correction ∧
      config.correctionThreshold < cosineSimilarity new.embedding original.embedding ∧
      (action = InferredAction.createEdge new.id original.id EdgeType.supersedes 1 ∨
        action = InferredAction.updateConfidence original.id
          (correctedConfidence config original.confidence)) := by
  rcases inferCorrection_cases config new existing with
    hnil | ⟨original, horiginal, htype, hthreshold, hactions⟩
  · rw [hnil] at h
    cases h
  · rw [hactions, List.mem_cons, List.mem_singleton] at h
    exact ⟨original, horiginal, htype, hthreshold, h⟩

theorem concludes_inferCorrection [Scalar F] {config : WriteInferenceConfig F}
    {new : MemoryNode F} {existing : List (MemoryNode F)} {action : InferredAction F}
    (h : action ∈ inferCorrection config new existing) :
    exists m, m ∈ existing ∧ Concludes config new m action := by
  rcases mem_inferCorrection h with ⟨original, horiginal, htype, hthreshold, heq | heq⟩
  · rw [heq]
    exact ⟨original, horiginal, Concludes.edge _ _⟩
  · rw [heq]
    exact ⟨original, horiginal, Concludes.confidence _ htype hthreshold⟩

/-- Every inferred action is drawn from one of the memories it is given. -/
theorem concludes_inferOnWrite [Scalar F] {text : TextOps F} {config : WriteInferenceConfig F}
    {new : MemoryNode F} {existing : List (MemoryNode F)} {action : InferredAction F}
    (h : action ∈ inferOnWrite text config new existing) :
    exists m, m ∈ existing ∧ Concludes config new m action := by
  rcases List.mem_append.mp h with hpair | hcorrection
  · rcases List.mem_flatMap.mp hpair with ⟨m, hm, haction⟩
    exact ⟨m, List.mem_of_mem_filter hm, concludes_inferForPair haction⟩
  · rcases concludes_inferCorrection hcorrection with ⟨m, hm, haction⟩
    exact ⟨m, List.mem_of_mem_filter hm, haction⟩

/-- The memories an action joins by an edge. -/
def InferredAction.endpoints : InferredAction F -> List MemoryId
  | InferredAction.flagContradiction existing new _ => [new, existing]
  | InferredAction.markObsolete memory supersededBy => [supersededBy, memory]
  | InferredAction.invalidateMemory memory supersededBy _ => [supersededBy, memory]
  | InferredAction.createEdge source target _ _ => [source, target]
  | InferredAction.updateContent _ _ _ => []
  | InferredAction.updateConfidence _ _ => []
  | InferredAction.propagateBeliefChange _ _ => []

theorem endpoints_inferOnWrite [Scalar F] {text : TextOps F} {config : WriteInferenceConfig F}
    {new : MemoryNode F} {existing : List (MemoryNode F)} {action : InferredAction F}
    (h : action ∈ inferOnWrite text config new existing) {id : MemoryId}
    (hid : id ∈ action.endpoints) : id ∈ new.id :: existing.map MemoryNode.id := by
  rcases concludes_inferOnWrite h with ⟨m, hm, haction⟩
  have hmember : m.id ∈ existing.map MemoryNode.id := List.mem_map_of_mem hm
  have hends : id ∈ [new.id, m.id] := by
    cases haction with
    | contradiction reason _ => exact hid
    | obsolete _ _ => exact hid
    | invalid _ _ => exact hid
    | edge edgeType weight => exact hid
    | confidence c _ _ => cases hid
  rcases List.mem_cons.mp hends with hnew | hold
  · rw [hnew]
    exact List.mem_cons_self
  · rw [List.mem_singleton.mp hold]
    exact List.mem_cons_of_mem _ hmember

/-- The end of validity an inference sets is the creation time of the new memory. -/
theorem validUntil_inferOnWrite [Scalar F] {text : TextOps F} {config : WriteInferenceConfig F}
    {new : MemoryNode F} {existing : List (MemoryNode F)} {memory supersededBy : MemoryId}
    {validUntil : Timestamp}
    (h : InferredAction.invalidateMemory memory supersededBy validUntil ∈
      inferOnWrite text config new existing) : validUntil = new.createdAt := by
  rcases concludes_inferOnWrite h with ⟨m, _, haction⟩
  cases haction with
  | invalid _ _ => rfl

/-!
## Rules

An assertion that only looks at the memories, their tags, the edges and the graph
survives everything that is written beside them.
-/

def ViewsMemories (I : World F -> Prop) : Prop :=
  forall w w' : World F, w'.graph = w.graph -> w'.tables.memories = w.tables.memories ->
    w'.tables.memoryTags = w.tables.memoryTags -> w'.tables.edges = w.tables.edges ->
    w.ticks <= w'.ticks -> I w -> I w'

theorem ViewsMemories.ignoresTicks {I : World F -> Prop} (h : ViewsMemories I) :
    IgnoresTicks I :=
  fun w _ hle hw => h w _ rfl rfl rfl rfl hle hw

section Rules

variable {env : Env F} {I : World F -> Prop}

theorem keeps_transact_beside (hI : ViewsMemories I) {tx : Tx F}
    (h : forall t t', tx t = Except.ok t' ->
      t'.memories = t.memories ∧ t'.memoryTags = t.memoryTags ∧ t'.edges = t.edges) :
    Prog.Keeps I (transact env tx) := by
  apply keeps_transact hI.ignoresTicks
  intro w t hw hrun
  rcases h _ _ hrun with ⟨hmemories, htags, hedges⟩
  exact hI w _ rfl hmemories htags hedges (Nat.le_refl _) hw

theorem keeps_emitLifecycleEvent (hI : ViewsMemories I) :
    Prog.Keeps I (emitLifecycleEvent env) := by
  apply keeps_transact_beside hI
  intro t t' hrun
  cases hrun
  exact ⟨rfl, rfl, rfl⟩

/-- Indexing keeps an assertion when reading the clock, replacing the links and registering
the entities do. -/
theorem keeps_indexMemoryEntities_of [Scalar F] {node : MemoryNode F}
    (hnow : Prog.Keeps I (currentTimeUs env))
    (hreplace : forall entities aliases links, Prog.Keeps I
      (transact env (Tables.replaceMemoryEntityBundle node.id entities aliases links)))
    (hregister : forall entities, Prog.Keeps I (registerEntities entities)) :
    Prog.Keeps I (indexMemoryEntities env node) := by
  unfold indexMemoryEntities
  apply Prog.triple_ite
  · intro _
    unfold persistExtractedEntities
    apply Prog.triple_ite
    · intro _
      exact hreplace _ _ _
    · intro _
      apply Prog.Keeps.bind hnow
      intro now
      apply Prog.Keeps.bind (Prog.keeps_gets _)
      intro records
      exact Prog.Keeps.bind (hreplace _ _ _) (fun _ => hregister _)
  · intro _
    exact Prog.keeps_pure ()

theorem keeps_indexMemoryEntities [Scalar F] (hI : ViewsMemories I) (node : MemoryNode F) :
    Prog.Keeps I (indexMemoryEntities env node) := by
  apply keeps_indexMemoryEntities_of (keeps_currentTimeUs hI.ignoresTicks)
  · intro entities aliases links
    apply keeps_transact_beside hI
    intro t t' hrun
    have hsame := Tables.sameMemories_replaceMemoryEntityBundle t node.id entities aliases links
      t t' (Tables.SameMemories.refl t) hrun
    exact ⟨hsame.2.1, hsame.2.2.1, hsame.2.2.2.2⟩
  · intro entities
    exact Prog.keeps_modify (fun w hw => hI w _ rfl rfl rfl rfl (Nat.le_refl _) hw)

theorem keeps_ensureVectorIndex [Scalar F] (hI : ViewsMemories I) (dim : Nat) :
    Prog.Keeps I (ensureVectorIndex env dim) := by
  apply Prog.Keeps.bind (Prog.keeps_gets _)
  intro current
  apply Prog.triple_ite
  · intro _
    exact Prog.keeps_pure ()
  · intro _
    apply Prog.Keeps.bind
    · apply keeps_transact_beside hI
      intro t t' hrun
      cases hrun
      exact ⟨rfl, rfl, rfl⟩
    · intro _
      exact Prog.triple_modify (fun w hw => hI w _ rfl rfl rfl rfl (Nat.le_refl _) hw)

/-- The checks before a write keep an assertion when provisioning the index does. -/
theorem keeps_provision_of [Scalar F]
    (hindex : forall dim, Prog.Keeps I (ensureVectorIndex env dim))
    (nodes : List (MemoryNode F)) : Prog.Keeps I (provision env nodes) := by
  apply Prog.Keeps.bind
  · apply Prog.Keeps.bind (Prog.keeps_gets _)
    intro dim
    split
    · apply Prog.triple_ite
      · intro _
        exact hindex _
      · intro _
        exact Prog.keeps_pure ()
    · exact Prog.keeps_pure ()
  · intro _
    apply Prog.Keeps.bind (Prog.keeps_gets _)
    intro dim
    split
    · exact Prog.keeps_fail _
    · exact Prog.keeps_pure ()

theorem keeps_provision [Scalar F] (hI : ViewsMemories I) (nodes : List (MemoryNode F)) :
    Prog.Keeps I (provision env nodes) :=
  keeps_provision_of (keeps_ensureVectorIndex hI) nodes

/-- Inference keeps an assertion when every action does that it can draw from memories of
the kind the assertion lets it load. -/
theorem keeps_runWriteInference_of [Scalar F] {P : MemoryNode F -> Prop} {new : MemoryNode F}
    (hnow : Prog.Keeps I (currentTimeUs env))
    (hloaded : forall w id m, I w -> w.tables.getMemory id = some m -> P m)
    (haction : forall existing action, (forall m, m ∈ existing -> P m) ->
      action ∈ inferOnWrite env.text env.config.inferenceConfig new existing ->
      Prog.Keeps I (applyInferredAction env action)) :
    Prog.Keeps I (runWriteInference env new) := by
  unfold runWriteInference
  apply Prog.triple_ite
  · intro _
    exact Prog.keeps_pure ()
  intro _
  apply Prog.Keeps.bind hnow
  intro now
  apply Prog.Triple.bind (Q := fun existing w => I w ∧ forall m, m ∈ existing -> P m)
  · apply Prog.triple_gets
    intro w hw
    refine ⟨hw, ?_⟩
    intro m hm
    rcases List.mem_filterMap.mp hm with ⟨hit, _, hget⟩
    exact hloaded w hit.1 m hw hget
  · intro existing w hw
    have hloop : Prog.Keeps I
        (Prog.forEach (inferOnWrite env.text env.config.inferenceConfig new existing)
          (fun action => do
            let _ ← Prog.attempt (applyInferredAction env action)
            pure ())) := by
      apply Prog.Keeps.forEach
      intro action hmem
      apply Prog.Keeps.bind (haction existing action hw.2 hmem).attempt
      intro _
      exact Prog.keeps_pure ()
    exact hloop w hw.1

/-- A store keeps an assertion when each of its stages does. -/
theorem keeps_store_of [Scalar F] {node : MemoryNode F}
    (hprovision : Prog.Keeps I (provision env [node]))
    (hwrite : Prog.Keeps I (dbStoreMemory env node))
    (hregister : forall w, I w -> I { w with graph := GraphManager.addMemory w.graph node.id })
    (hindex : Prog.Keeps I (indexMemoryEntities env node))
    (hinfer : env.config.writeInference = true -> Prog.Keeps I (runWriteInference env node)) :
    Prog.Keeps I (store env node) := by
  apply Prog.Keeps.bind hprovision
  intro _
  apply Prog.Keeps.bind hwrite
  intro _
  apply Prog.Keeps.bind (Prog.keeps_modify hregister)
  intro _
  apply Prog.Keeps.bind hindex.attempt
  intro _
  apply Prog.triple_ite
  · exact hinfer
  · intro _
    exact Prog.keeps_pure ()

end Rules

end Facade
end MenteDb
