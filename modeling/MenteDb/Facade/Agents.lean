import MenteDb.Facade.Hiding
import MenteDb.Facade.Merging

/-!
# What inference does to other agents

Write inference and consolidation look at the memories of all agents.  The rule for
contradictions asks whether the two memories have one agent; the rules for outdated
memories and for corrections do not, and neither does clustering.
-/

namespace MenteDb
namespace Facade

open Foundation
open Sqlite
open MenteDb.Graph
open Cognitive
open Consolidation

variable {F : Type} [Scalar F]

/-!
## Edges into an agent's memories
-/

omit [Scalar F] in
/-- Every edge to a memory of the agent was there before, apart from those that only say
that two memories are related. -/
def LinkedAsBefore (agent : AgentId) (t0 : Tables F) (w : World F) : Prop :=
  forall e, e ∈ w.tables.allEdges -> e.edgeType ≠ EdgeType.related ->
    (memoryOf agent t0 e.target).isSome = true -> e ∈ t0.allEdges

/-- The agent's memories are as they were, and nothing new supersedes, contradicts or
derives from one of them. -/
def Isolated (agent : AgentId) (t0 : Tables F) (w : World F) : Prop :=
  Spared agent t0 w ∧ LinkedAsBefore agent t0 w

section Links

variable {env : Env F} {agent : AgentId} {t0 : Tables F}

omit [Scalar F] in
theorem LinkedAsBefore.of_edges {w w' : World F} (h : LinkedAsBefore agent t0 w)
    (hedges : w'.tables.edges = w.tables.edges) : LinkedAsBefore agent t0 w' := by
  unfold LinkedAsBefore Tables.allEdges at h ⊢
  rw [hedges]
  exact h

omit [Scalar F] in
theorem viewsMemories_linked : ViewsMemories (LinkedAsBefore agent t0 : World F -> Prop) :=
  fun _ _ _ _ _ hedges _ hw => hw.of_edges hedges

omit [Scalar F] in
theorem keeps_relate_linked {edge : MemoryEdge F}
    (h : edge.edgeType = EdgeType.related ∨ memoryOf agent t0 edge.target = none) :
    Prog.Keeps (LinkedAsBefore agent t0) (relate env edge) := by
  apply Prog.Keeps.bind
  · apply keeps_transact viewsMemories_linked.ignoresTicks
    intro w t hw hrun e he htype hown
    cases hrun
    unfold Tables.allEdges at he
    rw [List.map_append, List.map_singleton, Tables.edgeOfRow_rowOfEdge] at he
    rcases List.mem_append.mp he with hold | hnew
    · exact hw e hold htype hown
    · rw [List.mem_singleton.mp hnew] at htype hown
      rcases h with hrelated | hforeign
      · exact absurd hrelated htype
      · rw [hforeign] at hown
        cases hown
  · intro _
    exact keeps_onGraph (fun _ _ hw => hw)

theorem keeps_dbStoreMemory_linked (node : MemoryNode F) :
    Prog.Keeps (LinkedAsBefore agent t0) (dbStoreMemory env node) := by
  apply Prog.Keeps.bind (Prog.keeps_gets _)
  intro dim
  apply keeps_transact viewsMemories_linked.ignoresTicks
  intro w t hw hrun
  exact hw.of_edges (Tables.storeMemoryOn_edges (Tables.storeMemory_ok hrun))

theorem keeps_storeBack_linked (node : MemoryNode F) :
    Prog.Keeps (LinkedAsBefore agent t0) (do
      dbStoreMemory env node
      emitLifecycleEvent env) := by
  apply Prog.Keeps.bind (keeps_dbStoreMemory_linked node)
  intro _
  exact keeps_emitLifecycleEvent viewsMemories_linked

theorem keeps_invalidateMemory_linked (id : MemoryId) (at_ : Timestamp) :
    Prog.Keeps (LinkedAsBefore agent t0) (invalidateMemory env id at_) := by
  apply Prog.Keeps.bind (StoreClosed.keeps_getMemory id)
  intro node
  exact keeps_storeBack_linked _

theorem keeps_rewriteMemory_linked (id : MemoryId) (f : MemoryNode F -> MemoryNode F) :
    Prog.Keeps (LinkedAsBefore agent t0) (rewriteMemory env id f) := by
  apply Prog.Keeps.bind (Prog.keeps_gets _)
  intro loaded
  cases loaded with
  | none => exact Prog.keeps_pure ()
  | some node => exact keeps_storeBack_linked _

/-- A memory of another agent that inference spares gets no edge that judges it. -/
theorem not_draws_of_spares {config : WriteInferenceConfig F} {new existing : MemoryNode F}
    (hagent : existing.agentId ≠ new.agentId) (hspares : Spares config new existing) :
    ¬ Draws config new existing := by
  intro hdraws
  rcases hdraws with hcontradicts | hobsolete | hcorrected
  · exact hagent hcontradicts.2.1
  · exact hspares.1 hobsolete
  · exact hspares.2 hcorrected

theorem keeps_applyInferredAction_linked {config : WriteInferenceConfig F}
    {new existing : MemoryNode F} {action : InferredAction F}
    (haction : Follows config new existing action)
    (hexisting : memoryOf agent t0 existing.id = none ∨ ¬ Draws config new existing) :
    Prog.Keeps (LinkedAsBefore agent t0) (applyInferredAction env action) := by
  have hemit : Prog.Keeps (LinkedAsBefore agent t0) (emitLifecycleEvent env) :=
    keeps_emitLifecycleEvent viewsMemories_linked
  have hnow : Prog.Keeps (LinkedAsBefore agent t0) (currentTimeUs env) :=
    keeps_currentTimeUs viewsMemories_linked.ignoresTicks
  have hrelate : Draws config new existing -> forall now edgeType weight label,
      Prog.Keeps (LinkedAsBefore agent t0)
        (relate env (inferredEdge now new.id existing.id edgeType weight label)) := by
    intro hdraws now edgeType weight label
    apply keeps_relate_linked
    rcases hexisting with hforeign | hnot
    · exact Or.inr hforeign
    · exact absurd hdraws hnot
  cases haction with
  | contradiction reason hdraws =>
      apply Prog.Keeps.bind hnow
      intro now
      exact Prog.Keeps.bind (hrelate hdraws _ _ _ _) (fun _ => hemit)
  | obsolete hdraws _ =>
      apply Prog.Keeps.bind hnow
      intro now
      apply Prog.Keeps.bind (keeps_invalidateMemory_linked _ _)
      intro _
      exact Prog.Keeps.bind (hrelate hdraws _ _ _ _) (fun _ => hemit)
  | invalid hdraws _ =>
      apply Prog.Keeps.bind (keeps_invalidateMemory_linked _ _)
      intro _
      apply Prog.Keeps.bind hnow
      intro now
      exact Prog.Keeps.bind (hrelate hdraws _ _ _ _) (fun _ => hemit)
  | related weight =>
      apply Prog.Keeps.bind hnow
      intro now
      exact keeps_relate_linked (Or.inl rfl)
  | corrected hdraws => exact Prog.Keeps.bind hnow (fun _ => hrelate hdraws _ _ _ _)
  | confidence c _ => exact keeps_rewriteMemory_linked _ _

end Links

/-!
## Stores
-/

section Stores

variable {env : Env F} {agent : AgentId} {t0 : Tables F}

theorem isolated_self (agent : AgentId) (w : World F) : Isolated agent w.tables w :=
  ⟨Untouched.refl agent w.tables, fun _ he _ _ => he⟩

theorem Isolated.trans {w w' : World F} (h : Isolated agent t0 w)
    (h' : Isolated agent w.tables w') : Isolated agent t0 w' := by
  refine ⟨Untouched.trans h.1 h'.1, ?_⟩
  intro e he htype hown
  have hsame : memoryOf agent w.tables e.target = memoryOf agent t0 e.target :=
    Untouched.memories h.1 e.target
  refine h.2 e (h'.2 e he htype ?_) htype hown
  rw [hsame]
  exact hown

theorem viewsMemories_isolated : ViewsMemories (Isolated agent t0) := by
  intro w w' hgraph hmemories htags hedges hticks hw
  exact ⟨viewsMemories_spared w w' hgraph hmemories htags hedges hticks hw.1,
    viewsMemories_linked w w' hgraph hmemories htags hedges hticks hw.2⟩

theorem keeps_runWriteInference_isolated {new : MemoryNode F} (hagent : new.agentId ≠ agent)
    (hnew : memoryOf agent t0 new.id = none)
    (hspares : SparesAll env.config.inferenceConfig agent t0 new) :
    Prog.Keeps (Isolated agent t0) (runWriteInference env new) := by
  apply keeps_runWriteInference_of (P := fun m => memoryOf agent t0 m.id = none ∨
    Spares env.config.inferenceConfig new m ∧ m.agentId = agent)
    (keeps_currentTimeUs viewsMemories_isolated.ignoresTicks)
  · intro w id m hw hget
    rw [Tables.getMemory_id hget]
    cases hown : memoryOf agent t0 id with
    | none => exact Or.inl rfl
    | some node =>
        have hnode := hown
        rw [← hw.1.memories, memoryOf_eq_some, hget] at hnode
        cases hnode.1
        exact Or.inr ⟨hspares id m hown, hnode.2⟩
  · intro existing action hexisting haction
    rcases concludes_inferOnWrite haction with ⟨m, hm, hconcludes⟩
    rcases follows_inferOnWrite haction with ⟨n, hn, _, hfollows⟩
    have hspared : Prog.Keeps (Spared agent t0) (applyInferredAction env action) :=
      keeps_applyInferredAction_spared hconcludes hnew ((hexisting m hm).imp_right And.left)
    have hlinked : Prog.Keeps (LinkedAsBefore agent t0) (applyInferredAction env action) := by
      apply keeps_applyInferredAction_linked hfollows
      refine (hexisting n hn).imp_right ?_
      intro hother
      apply not_draws_of_spares _ hother.1
      rw [hother.2]
      exact hagent.symm
    exact hspared.and hlinked

theorem keeps_store_isolated {node : MemoryNode F} (hagent : node.agentId ≠ agent)
    (hid : memoryOf agent t0 node.id = none)
    (hspares : env.config.writeInference = true ->
      SparesAll env.config.inferenceConfig agent t0 node) :
    Prog.Keeps (Isolated agent t0) (store env node) :=
  keeps_store_of (keeps_provision viewsMemories_isolated [node])
    ((keeps_dbStoreMemory_spared hagent hid).and (keeps_dbStoreMemory_linked node))
    (fun _ hw => hw) (keeps_indexMemoryEntities viewsMemories_isolated node)
    (fun hinference => keeps_runWriteInference_isolated hagent hid (hspares hinference))

/-- No other agent has a memory under the identifier, or one that inference on the memory
would reach. -/
def SparesOthers (env : Env F) (t : Tables F) (node : MemoryNode F) : Prop :=
  forall id existing, t.getMemory id = some existing -> existing.agentId ≠ node.agentId ->
    id ≠ node.id ∧ (env.config.writeInference = true ->
      Spares env.config.inferenceConfig node existing)

theorem SparesOthers.keeps_store {node : MemoryNode F} (h : SparesOthers env t0 node)
    (hagent : node.agentId ≠ agent) : Prog.Keeps (Isolated agent t0) (store env node) := by
  have hother : forall id existing, memoryOf agent t0 id = some existing ->
      id ≠ node.id ∧ (env.config.writeInference = true ->
        Spares env.config.inferenceConfig node existing) := by
    intro id existing hown
    rcases memoryOf_eq_some.mp hown with ⟨hget, hexisting⟩
    apply h id existing hget
    rw [hexisting]
    exact hagent.symm
  apply keeps_store_isolated hagent
  · cases hown : memoryOf agent t0 node.id with
    | none => rfl
    | some existing => exact absurd rfl (hother node.id existing hown).1
  · intro hinference id existing hown
    exact (hother id existing hown).2 hinference

end Stores

/-!
## Consolidation
-/

section Consolidation

variable {env : Env F} {agent owner : AgentId} {t0 : Tables F} {w : World F}

theorem keeps_retireSource_isolated {consolidatedId sourceId : MemoryId} (now : Timestamp)
    (hconsolidated : memoryOf agent t0 consolidatedId = none)
    (hsource : memoryOf agent t0 sourceId = none) :
    Prog.Keeps (Isolated agent t0) (retireSource env consolidatedId now sourceId) := by
  have hrelate : forall edge : MemoryEdge F, edge.source = consolidatedId ->
      edge.target = sourceId -> Prog.Keeps (Isolated agent t0) (relate env edge) := by
    intro edge hedgeSource hedgeTarget
    rw [← hedgeSource] at hconsolidated
    rw [← hedgeTarget] at hsource
    exact (keeps_relate_spared (not_joinsOwn_of_source hconsolidated)).and
      (keeps_relate_linked (Or.inr hsource))
  apply Prog.Keeps.bind ((keeps_invalidateMemory_spared hsource).and
    (keeps_invalidateMemory_linked sourceId now)).attempt
  intro _
  apply Prog.Keeps.bind (hrelate _ rfl rfl).attempt
  intro _
  apply Prog.Keeps.bind (keeps_emitLifecycleEvent viewsMemories_isolated).attempt
  intro _
  exact Prog.keeps_pure ()

/-- The memories of the cluster are the owner's, and so is whatever inference on the
merged memory reaches. -/
def ClusterKept (env : Env F) (owner : AgentId) (memoryIds : List MemoryId) (w : World F) : Prop :=
  forall first second rest, memoryIds.filterMap w.tables.getMemory = first :: second :: rest ->
    (forall m, m ∈ first :: second :: rest -> m.agentId = owner) ∧
      SparesOthers env w.tables (consolidatedNode env (first :: second :: rest) owner
        (env.freshMemoryId w.ticks) (env.clock w.ticks))

theorem isolated_consolidateCluster {memoryIds : List MemoryId} (hne : agent ≠ owner)
    (hkept : ClusterKept env owner memoryIds w) :
    Isolated agent w.tables (consolidateCluster env memoryIds w).2 := by
  refine Prog.Triple.state (P := fun w' => w' = w) ?_ rfl
  apply Prog.Triple.bind (Q := fun cluster w' => w' = w ∧
    memoryIds.filterMap w.tables.getMemory = cluster)
  · apply Prog.triple_gets
    intro w' hw'
    rw [hw']
    exact ⟨rfl, rfl⟩
  intro cluster w' hw'
  rcases hw' with ⟨hw', hcluster⟩
  rw [hw']
  match cluster with
  | [] => exact isolated_self agent w
  | [_] => exact isolated_self agent w
  | first :: second :: rest =>
      rcases hkept first second rest hcluster with ⟨howned, hspares⟩
      have hfirst : first.agentId = owner := howned first List.mem_cons_self
      have hforeign : forall id node, w.tables.getMemory id = some node ->
          node.agentId = owner -> memoryOf agent w.tables id = none := by
        intro id node hget hnode
        apply memoryOf_of_ne hget
        rw [hnode]
        exact hne.symm
      have hsources : forall m, m ∈ first :: second :: rest ->
          memoryOf agent w.tables m.id = none := by
        intro m hm
        rw [← hcluster] at hm
        rcases List.mem_filterMap.mp hm with ⟨id, _, hget⟩
        rw [Tables.getMemory_id hget]
        rw [hcluster] at hm
        exact hforeign id m hget (howned m hm)
      have hid : memoryOf agent w.tables (env.freshMemoryId w.ticks) = none := by
        cases hown : memoryOf agent w.tables (env.freshMemoryId w.ticks) with
        | none => rfl
        | some existing =>
            rcases memoryOf_eq_some.mp hown with ⟨hget, hexisting⟩
            refine absurd rfl (hspares _ existing hget ?_).1
            rw [hexisting]
            exact hne
      have hkeeps : Prog.Keeps (Isolated agent w.tables) (do
          store env (consolidatedNode env (first :: second :: rest) first.agentId
            (env.freshMemoryId w.ticks) (env.clock w.ticks))
          emitLifecycleEvent env
          let now ← currentTimeUs env
          Prog.forEach (consolidate env.text (first :: second :: rest)).sourceMemories
            (retireSource env (env.freshMemoryId w.ticks) now)
          pure (env.freshMemoryId w.ticks) : Op F MemoryId) := by
        rw [hfirst]
        apply Prog.Keeps.bind (hspares.keeps_store hne.symm)
        intro _
        apply Prog.Keeps.bind (keeps_emitLifecycleEvent viewsMemories_isolated)
        intro _
        apply Prog.Keeps.bind (keeps_currentTimeUs viewsMemories_isolated.ignoresTicks)
        intro now
        apply Prog.Keeps.bind
        · apply Prog.Keeps.forEach
          intro source hsource
          rcases List.mem_map.mp hsource with ⟨m, hm, heq⟩
          rw [← heq]
          exact keeps_retireSource_isolated now hid (hsources m hm)
        · intro _
          exact Prog.keeps_pure _
      exact hkeeps { w with ticks := w.ticks + 1 }
        (viewsMemories_isolated.ignoresTicks w _ (Nat.le_succ _) (isolated_self agent w))

/-- Every cluster is kept to the owner in the state in which it is merged. -/
def ClustersKept (env : Env F) (owner : AgentId) :
    List (ConsolidationCandidate F) -> World F -> Prop
  | [], _ => True
  | candidate :: rest, w =>
      ClusterKept env owner candidate.memories w ∧
        ClustersKept env owner rest (consolidateCluster env candidate.memories w).2

theorem isolated_consolidateAll (hne : agent ≠ owner)
    {candidates : List (ConsolidationCandidate F)} (hkept : ClustersKept env owner candidates w) :
    Isolated agent w.tables (consolidateAll env candidates w).2 := by
  induction candidates generalizing w with
  | nil => exact isolated_self agent w
  | cons candidate rest ih =>
      have hfirst := isolated_consolidateCluster hne hkept.1
      exact hfirst.trans (ih hkept.2)

end Consolidation

/-!
## Runs
-/

/-- Every candidate has the memories of one agent. -/
def SingleAgent (memories : List (MemoryNode F)) (candidates : List (ConsolidationCandidate F)) :
    Prop :=
  forall c, c ∈ candidates -> forall a b, a ∈ memories -> b ∈ memories -> a.id ∈ c.memories ->
    b.id ∈ c.memories -> a.agentId = b.agentId

theorem singleAgent_findCandidates {o : HashOrder} {text : TextOps F} {minClusterSize : Nat}
    {threshold : F} {memories : List (MemoryNode F)}
    (hnodup : (memories.map MemoryNode.id).Nodup) :
    SingleAgent memories (findCandidates o text memories minClusterSize threshold) <->
      forall a b, a ∈ memories -> b ∈ memories -> Connected memories threshold a b ->
        minClusterSize <= (clusterOf memories threshold a).length -> a.agentId = b.agentId := by
  have hmemories : memories.Nodup := List.Nodup.of_map _ hnodup
  constructor
  · intro h a b ha hb hconnected hsize
    rcases (memories_findCandidates (o := o) hmemories _).mpr ⟨a, ha, hsize, rfl⟩ with
      ⟨c, hc, hids⟩
    apply h c hc a b ha hb
    · rw [hids]
      exact List.mem_map_of_mem (self_mem_clusterOf ha)
    · rw [hids]
      exact List.mem_map_of_mem (mem_clusterOf.mpr ⟨hb, hconnected⟩)
  · intro h c hc a b ha hb haid hbid
    rcases (memories_findCandidates hmemories c.memories).mp ⟨c, hc, rfl⟩ with
      ⟨center, _, hsize, hids⟩
    have hmember : forall x, x ∈ memories -> x.id ∈ c.memories ->
        x ∈ clusterOf memories threshold center := by
      intro x hx hxid
      rw [hids] at hxid
      rcases List.mem_map.mp hxid with ⟨y, hy, hsame⟩
      rw [← eq_of_same_id hnodup (mem_clusterOf.mp hy).1 hx hsame]
      exact hy
    have hacluster := clusterOf_eq_of_mem (hmember a ha haid)
    have hb' := hmember b hb hbid
    rw [← hacluster] at hsize hb'
    exact h a b ha hb (mem_clusterOf.mp hb').2 hsize

/-- What runs for an agent: a store, the merging of a cluster, or a consolidation pass over
all memories or over those a sleep run has loaded. -/
inductive AgentCall (F : Type) where
  | store (node : MemoryNode F)
  | consolidate (owner : AgentId) (memoryIds : List MemoryId)
  | pass (owner : AgentId) (minClusterSize : Nat) (similarityThreshold : F)
  | sleepPass (owner : AgentId) (loadedFrom : Tables F) (config : SleepMaintenanceConfig F)

namespace AgentCall

omit [Scalar F] in
def agent : AgentCall F -> AgentId
  | store node => node.agentId
  | consolidate owner _ => owner
  | pass owner _ _ => owner
  | sleepPass owner _ _ => owner

def step (env : Env F) (w : World F) : AgentCall F -> World F
  | store node => (Facade.store env node w).2
  | consolidate _ memoryIds => (consolidateCluster env memoryIds w).2
  | pass _ minClusterSize similarityThreshold =>
      (consolidationPass env minClusterSize similarityThreshold w).2
  | sleepPass _ loadedFrom config =>
      (runSleepConsolidation env (loadSleepMaintenanceMemories loadedFrom config.maxMemories)
        config w).2

/-- The call leaves the memories of every other agent alone. -/
def Isolates (env : Env F) (w : World F) (call : AgentCall F) : Prop :=
  forall agent, agent ≠ call.agent -> Isolated agent w.tables (call.step env w)

/-- What the call rewrites or merges is its own agent's. -/
def KeptToAgent (env : Env F) (w : World F) : AgentCall F -> Prop
  | store node => SparesOthers env w.tables node
  | consolidate owner memoryIds => ClusterKept env owner memoryIds w
  | pass owner minClusterSize similarityThreshold =>
      ClustersKept env owner (candidatesIn env minClusterSize similarityThreshold w)
        { w with ticks := w.ticks + 1 }
  | sleepPass owner loadedFrom config =>
      ClustersKept env owner ((findCandidates env.hashOrder env.text
        (eligibleAt (env.clock w.ticks)
          (loadSleepMaintenanceMemories loadedFrom config.maxMemories))
        config.consolidationMinClusterSize config.consolidationSimilarityThreshold).take
          config.maxConsolidationClusters)
        { w with ticks := w.ticks + 1 }

theorem KeptToAgent.isolates {env : Env F} {w : World F} {call : AgentCall F}
    (h : call.KeptToAgent env w) : call.Isolates env w := by
  intro agent hne
  cases call with
  | store node => exact (SparesOthers.keeps_store h hne.symm).state (isolated_self agent w)
  | consolidate owner memoryIds => exact isolated_consolidateCluster hne h
  | pass owner minClusterSize similarityThreshold =>
      show Isolated agent w.tables (Prog.bind _ _ w).2
      unfold Prog.bind
      rw [findConsolidationCandidates_eq]
      exact isolated_consolidateAll hne h
  | sleepPass owner loadedFrom config =>
      show Isolated agent w.tables (Prog.bind _ _ w).2
      unfold Prog.bind
      rw [findSleepConsolidationCandidates_eq]
      exact isolated_consolidateAll hne h

end AgentCall

/-- In a run whose calls reach only memories of their own agent, no call touches a memory of
another agent; and the clusters are those of single agents exactly when no two connected
memories have different agents. -/
theorem agents_isolated_of_run {env : Env F} {w0 w : World F} {calls : List (AgentCall F)}
    (hrun : Run (AgentCall.step env) (AgentCall.KeptToAgent env) w0 calls w) :
    Run (AgentCall.step env) (AgentCall.Isolates env) w0 calls w ∧
      forall minClusterSize similarityThreshold,
        SingleAgent (eligibleAt (env.clock w.ticks) w.tables.allMemories)
            (candidatesIn env minClusterSize similarityThreshold w) <->
          forall a b, a ∈ eligibleAt (env.clock w.ticks) w.tables.allMemories ->
            b ∈ eligibleAt (env.clock w.ticks) w.tables.allMemories ->
            Connected (eligibleAt (env.clock w.ticks) w.tables.allMemories)
              similarityThreshold a b ->
            minClusterSize <= (clusterOf (eligibleAt (env.clock w.ticks) w.tables.allMemories)
              similarityThreshold a).length -> a.agentId = b.agentId := by
  refine ⟨hrun.mono (fun _ _ h => h.isolates), ?_⟩
  intro minClusterSize similarityThreshold
  exact singleAgent_findCandidates
    ((Tables.nodup_id_allMemories w.tables).sublist (List.filter_sublist.map _))

section Examples

def adaAgent : AgentId := ⟨1⟩

def bobAgent : AgentId := ⟨2⟩

/-- As before, with inference on writes. -/
def inferringEnv : Env Rat :=
  { calmEnv CognitiveConfig.default with clock := fun _ => 172800001000 }

def noteOf (agent : AgentId) (id : MemoryId) (createdAt : Timestamp) (content : String)
    (embedding : List Rat) : MemoryNode Rat :=
  MemoryNode.new id createdAt agent MemoryType.semantic content embedding

def episodeOf (agent : AgentId) (id : MemoryId) (content : String) (embedding : List Rat) :
    MemoryNode Rat := { episode id content embedding with agentId := agent }

theorem sparesOthers_of_allMemories {env : Env F} {t : Tables F} {node : MemoryNode F}
    (h : forall existing, existing ∈ t.allMemories -> existing.agentId ≠ node.agentId ->
      existing.id ≠ node.id ∧ Spares env.config.inferenceConfig node existing) :
    SparesOthers env t node := by
  intro id existing hget hagent
  have hparts := h existing (Tables.mem_allMemories_of_getMemory hget) hagent
  rw [Tables.getMemory_id hget] at hparts
  exact ⟨hparts.1, fun _ => hparts.2⟩

/-- Two old episodes of the one agent, and a note of the other about something else. -/
def apartCalls : List (AgentCall Rat) :=
  [AgentCall.store (noteOf bobAgent ⟨3⟩ 1000 "Buy stamps." [9, -40]),
    AgentCall.store (episodeOf adaAgent ⟨1⟩ "Met Bob in Turin." [40, 9]),
    AgentCall.store (episodeOf adaAgent ⟨2⟩ "Had lunch with Bob." [40, -9])]

def apartWorld : World Rat := apartCalls.foldl (AgentCall.step inferringEnv) emptyWorld

theorem pass_keptToAgent_apart :
    (AgentCall.pass adaAgent 2 (ratio 85 100)).KeptToAgent inferringEnv apartWorld := by
  have hcandidates : (candidatesIn inferringEnv 2 (ratio 85 100) apartWorld).map
      ConsolidationCandidate.memories = [[⟨1⟩, ⟨2⟩]] := by decide +kernel
  have hcluster : ClusterKept inferringEnv adaAgent [⟨1⟩, ⟨2⟩]
      { apartWorld with ticks := apartWorld.ticks + 1 } := by
    intro first second rest heq
    rw [← heq]
    exact ⟨by decide +kernel, sparesOthers_of_allMemories (by decide +kernel)⟩
  show ClustersKept inferringEnv adaAgent (candidatesIn inferringEnv 2 (ratio 85 100) apartWorld)
    { apartWorld with ticks := apartWorld.ticks + 1 }
  rcases List.map_eq_cons_iff.mp hcandidates with ⟨c, others, hlist, hc, hothers⟩
  rw [List.map_eq_nil_iff.mp hothers] at hlist
  rw [hlist]
  refine ⟨?_, trivial⟩
  rw [hc]
  exact hcluster

theorem agents_isolated_of_run_apart :
    (memoryOf bobAgent apartWorld.tables ⟨3⟩).isSome = true ∧
      Run (AgentCall.step inferringEnv) (AgentCall.Isolates inferringEnv) emptyWorld
        (apartCalls ++ [AgentCall.pass adaAgent 2 (ratio 85 100)])
        ((AgentCall.pass adaAgent 2 (ratio 85 100)).step inferringEnv apartWorld) := by
  have h0 : Run (AgentCall.step inferringEnv) (AgentCall.KeptToAgent inferringEnv) emptyWorld []
      emptyWorld := Run.nil _
  have h1 := h0.snoc (i := AgentCall.store (noteOf bobAgent ⟨3⟩ 1000 "Buy stamps." [9, -40]))
    (sparesOthers_of_allMemories (by decide +kernel))
  have h2 := h1.snoc
    (i := AgentCall.store (episodeOf adaAgent ⟨1⟩ "Met Bob in Turin." [40, 9]))
    (sparesOthers_of_allMemories (by decide +kernel))
  have h3 := h2.snoc
    (i := AgentCall.store (episodeOf adaAgent ⟨2⟩ "Had lunch with Bob." [40, -9]))
    (sparesOthers_of_allMemories (by decide +kernel))
  have h4 := h3.snoc (i := AgentCall.pass adaAgent 2 (ratio 85 100)) pass_keptToAgent_apart
  exact ⟨by decide +kernel, (agents_isolated_of_run h4).1⟩

/-- A note of the one agent. -/
def notedWorld : World Rat :=
  (AgentCall.store (noteOf bobAgent ⟨7⟩ 1000 "The office is in Turin." [3, 4])).step inferringEnv
    emptyWorld

/-- Old episodes of both agents that are alike. -/
def mixedWorld : World Rat :=
  [AgentCall.store (episodeOf adaAgent ⟨1⟩ "Met Bob in Turin." [40, 9]),
    AgentCall.store (episodeOf bobAgent ⟨2⟩ "Had lunch with Ada." [40, -9])].foldl
    (AgentCall.step daysLaterEnv) emptyWorld

/-- A later note of the other agent closes and supersedes the first; and a pass for the other
agent merges an episode that is not its own. -/
theorem other_agents_memory_is_rewritten :
    ¬ (AgentCall.store (noteOf adaAgent ⟨8⟩ 2000 "The desk is in Turin." [3, 4])).Isolates
        inferringEnv notedWorld ∧
      ¬ (AgentCall.pass adaAgent 2 (ratio 85 100)).Isolates daysLaterEnv mixedWorld ∧
      exists e, e ∈ ((AgentCall.pass adaAgent 2 (ratio 85 100)).step daysLaterEnv
          mixedWorld).tables.allEdges ∧
        e.target = ⟨2⟩ ∧ e.edgeType = EdgeType.derived ∧
        (memoryOf adaAgent ((AgentCall.pass adaAgent 2 (ratio 85 100)).step daysLaterEnv
          mixedWorld).tables e.source).isSome = true := by
  refine ⟨?_, ?_, by decide +kernel⟩
  · intro h
    have hsame := congrArg (Option.map MemoryNode.validUntil)
      ((h bobAgent (by decide)).1.memories ⟨7⟩)
    revert hsame
    decide +kernel
  · intro h
    have hsame := congrArg (Option.map MemoryNode.validUntil)
      ((h bobAgent (by decide)).1.memories ⟨2⟩)
    revert hsame
    decide +kernel

end Examples

end Facade
end MenteDb
