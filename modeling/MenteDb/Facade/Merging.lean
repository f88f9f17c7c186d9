import MenteDb.Facade.Maintenance
import MenteDb.Facade.SoftForget

/-!
# What consolidation consumes

A consolidation pass merges clusters of eligible memories and marks the sources by
closing them.  Eligibility looks at the type, the age and the access count, not at
that mark, so a closed memory can be merged, and merged again.
-/

namespace MenteDb
namespace Facade

open Foundation
open Sqlite
open MenteDb.Graph
open Cognitive
open Consolidation

variable {F : Type}

/-!
## Sources
-/

section Sources

variable [Scalar F]

def eligibleAt (now : Timestamp) (memories : List (MemoryNode F)) : List (MemoryNode F) :=
  memories.filter (fun node => shouldConsolidate node now)

/-- Every source of every candidate is valid. -/
def SourcesLive (now : Timestamp) (memories : List (MemoryNode F))
    (candidates : List (ConsolidationCandidate F)) : Prop :=
  forall c, c ∈ candidates -> forall id, id ∈ c.memories ->
    exists node, node ∈ memories ∧ node.id = id ∧ node.isValidAt now = true

/-- Nothing that has ended is still eligible and alike enough others. -/
def ClustersLive (now : Timestamp) (minClusterSize : Nat) (similarityThreshold : F)
    (memories : List (MemoryNode F)) : Prop :=
  forall a, a ∈ eligibleAt now memories ->
    minClusterSize <=
      (clusterOf (eligibleAt now memories) similarityThreshold a).length ->
    a.isValidAt now = true

variable {now : Timestamp} {minClusterSize : Nat} {similarityThreshold : F}
  {memories : List (MemoryNode F)}

omit [Scalar F] in
theorem nodup_eligibleAt (hnodup : (memories.map MemoryNode.id).Nodup) :
    (eligibleAt now memories).Nodup := (List.Nodup.of_map _ hnodup).filter _

theorem sourcesLive_findCandidates {o : HashOrder} {text : TextOps F}
    (hnodup : (memories.map MemoryNode.id).Nodup) :
    SourcesLive now memories
        (findCandidates o text (eligibleAt now memories) minClusterSize similarityThreshold) <->
      ClustersLive now minClusterSize similarityThreshold memories := by
  have heligible : (eligibleAt now memories).Nodup := nodup_eligibleAt hnodup
  constructor
  · intro h a ha hsize
    rcases (mem_source_findCandidates (o := o) heligible).mpr ⟨a, ha, rfl, hsize⟩ with
      ⟨c, hc, hid⟩
    rcases h c hc a.id hid with ⟨node, hnode, hsame, hvalid⟩
    rw [← eq_of_same_id hnodup hnode (List.mem_of_mem_filter ha) hsame]
    exact hvalid
  · intro h c hc id hid
    rcases (mem_source_findCandidates heligible).mp ⟨c, hc, hid⟩ with ⟨a, ha, hsame, hsize⟩
    exact ⟨a, List.mem_of_mem_filter ha, hsame, h a ha hsize⟩

/-- Where every eligible memory was eligible before with the same embedding, and whatever
was a source then has ended, nothing is left to merge. -/
theorem findCandidates_eq_nil {o : HashOrder} {text : TextOps F} {before : Timestamp}
    {memoriesBefore : List (MemoryNode F)}
    (hnodup : (memories.map MemoryNode.id).Nodup)
    (hbefore : (memoriesBefore.map MemoryNode.id).Nodup)
    (hlive : ClustersLive now minClusterSize similarityThreshold memories)
    (hold : forall a, a ∈ eligibleAt now memories ->
      exists a', a' ∈ eligibleAt before memoriesBefore ∧ a'.id = a.id ∧
        a'.embedding = a.embedding)
    (hended : forall c, c ∈ findCandidates o text (eligibleAt before memoriesBefore)
      minClusterSize similarityThreshold -> forall a, a ∈ memories -> a.id ∈ c.memories ->
        a.isValidAt now = false) :
    findCandidates o text (eligibleAt now memories) minClusterSize similarityThreshold = [] := by
  apply List.eq_nil_iff_forall_not_mem.mpr
  intro c hc
  have heligible : (eligibleAt now memories).Nodup := nodup_eligibleAt hnodup
  rcases (memories_findCandidates heligible c.memories).mp ⟨c, hc, rfl⟩ with ⟨a, ha, hsize, _⟩
  -- the memory was in a cluster at least as large before, so it was a source and has ended
  have hfunction : exists f : MemoryNode F -> MemoryNode F, forall b, b ∈ eligibleAt now memories ->
      f b ∈ eligibleAt before memoriesBefore ∧ (f b).id = b.id ∧
        (f b).embedding = b.embedding := by
    have hnonempty : Nonempty (MemoryNode F) := ⟨a⟩
    choose! f hf using hold
    exact ⟨f, hf⟩
  rcases hfunction with ⟨f, hf⟩
  have hids : ((eligibleAt now memories).map MemoryNode.id).Nodup :=
    hnodup.sublist (List.filter_sublist.map _)
  have hsize' := hsize.trans (length_clusterOf_le hids hf a)
  rcases (mem_source_findCandidates (o := o) (nodup_eligibleAt hbefore)).mpr
    ⟨f a, (hf a ha).1, (hf a ha).2.1, hsize'⟩ with ⟨c', hc', hsource⟩
  have hinvalid := hended c' hc' a (List.mem_of_mem_filter ha) hsource
  rw [hlive a ha hsize] at hinvalid
  cases hinvalid

end Sources

/-!
## Passes
-/

section Passes

variable [Scalar F] {env : Env F} {w : World F} {minClusterSize : Nat} {similarityThreshold : F}

/-- Merge every candidate, as a turn does with its own parameters. -/
def consolidationPass (env : Env F) (minClusterSize : Nat) (similarityThreshold : F) :
    Op F Unit := do
  let candidates ← findConsolidationCandidates env minClusterSize similarityThreshold
  consolidateAll env candidates

theorem findCandidates_nil {o : HashOrder} {text : TextOps F} :
    findCandidates o text [] minClusterSize similarityThreshold = [] := by
  apply List.eq_nil_iff_forall_not_mem.mpr
  intro c hc
  rcases (memories_findCandidates List.nodup_nil c.memories).mp ⟨c, hc, rfl⟩ with ⟨a, ha, _⟩
  cases ha

/-- The test for an empty list changes nothing. -/
theorem pure_findCandidates (o : HashOrder) (text : TextOps F) (eligible : List (MemoryNode F)) :
    (if eligible.isEmpty then pure []
      else pure (findCandidates o text eligible minClusterSize similarityThreshold) :
      Op F (List (ConsolidationCandidate F))) =
      pure (findCandidates o text eligible minClusterSize similarityThreshold) := by
  cases eligible with
  | nil => rw [findCandidates_nil, ite_self]
  | cons a rest => rfl

/-- The candidates among all stored memories. -/
def candidatesIn (env : Env F) (minClusterSize : Nat) (similarityThreshold : F) (w : World F) :
    List (ConsolidationCandidate F) :=
  findCandidates env.hashOrder env.text (eligibleAt (env.clock w.ticks) w.tables.allMemories)
    minClusterSize similarityThreshold

theorem findConsolidationCandidates_eq :
    findConsolidationCandidates env minClusterSize similarityThreshold w =
      (Except.ok (candidatesIn env minClusterSize similarityThreshold w),
        { w with ticks := w.ticks + 1 }) :=
  congrFun (pure_findCandidates env.hashOrder env.text
    (eligibleAt (env.clock w.ticks) w.tables.allMemories)) { w with ticks := w.ticks + 1 }

theorem findSleepConsolidationCandidates_eq {loaded : List (MemoryNode F)}
    {config : SleepMaintenanceConfig F} :
    findSleepConsolidationCandidates env loaded config w =
      (Except.ok (findCandidates env.hashOrder env.text (eligibleAt (env.clock w.ticks) loaded)
        config.consolidationMinClusterSize config.consolidationSimilarityThreshold),
        { w with ticks := w.ticks + 1 }) :=
  congrFun (pure_findCandidates env.hashOrder env.text
    (eligibleAt (env.clock w.ticks) loaded)) { w with ticks := w.ticks + 1 }

/-- A pass that finds nothing leaves the tables alone. -/
theorem consolidationPass_of_nil
    (h : candidatesIn env minClusterSize similarityThreshold w = []) :
    (consolidationPass env minClusterSize similarityThreshold w).2.tables = w.tables := by
  show (Prog.bind _ _ w).2.tables = w.tables
  unfold Prog.bind
  rw [findConsolidationCandidates_eq, h]
  rfl

theorem keeps_consolidateAll_endedByNow {m : MemoryId} (hclock : NondecreasingClock env)
    (hfresh : forall k, env.freshMemoryId k ≠ m) (candidates : List (ConsolidationCandidate F)) :
    Prog.Keeps (Meets m (EndedByNow env) 0) (consolidateAll env candidates) := by
  apply Prog.Keeps.forEach
  intro candidate _
  exact Prog.Keeps.bind (keeps_consolidateCluster_meets (windowLaw_endedByNow hclock)
    (Nat.le_refl 0) hfresh candidate.memories).attempt (fun _ => Prog.keeps_pure ())

end Passes

/-!
## Runs
-/

/-- A consolidation pass, or another command.  A sleep pass works on the copies it loaded
when the tables were those given. -/
inductive MergeCall (F : Type) where
  | pass (minClusterSize : Nat) (similarityThreshold : F)
  | sleepPass (loadedFrom : Tables F) (config : SleepMaintenanceConfig F)
  | command (command : LaterCommand F)

namespace MergeCall

variable [Scalar F]

def step (env : Env F) (w : World F) : MergeCall F -> World F
  | pass minClusterSize similarityThreshold =>
      (consolidationPass env minClusterSize similarityThreshold w).2
  | sleepPass loadedFrom config =>
      (runSleepConsolidation env (loadSleepMaintenanceMemories loadedFrom config.maxMemories)
        config w).2
  | command c => c.step env w

/-- Whatever the call merges is valid at its instant. -/
def MergesLive (env : Env F) (w : World F) : MergeCall F -> Prop
  | pass minClusterSize similarityThreshold =>
      forall candidates, (findConsolidationCandidates env minClusterSize similarityThreshold w).1 =
        Except.ok candidates ->
          SourcesLive (env.clock w.ticks) w.tables.allMemories candidates
  | sleepPass loadedFrom config =>
      forall candidates, (findSleepConsolidationCandidates env
        (loadSleepMaintenanceMemories loadedFrom config.maxMemories) config w).1 =
        Except.ok candidates ->
          SourcesLive (env.clock w.ticks)
            (loadSleepMaintenanceMemories loadedFrom config.maxMemories) candidates
  | command _ => True

/-- Nothing the call could merge has ended. -/
def NothingEnded (env : Env F) (w : World F) : MergeCall F -> Prop
  | pass minClusterSize similarityThreshold =>
      ClustersLive (env.clock w.ticks) minClusterSize similarityThreshold w.tables.allMemories
  | sleepPass loadedFrom config =>
      ClustersLive (env.clock w.ticks) config.consolidationMinClusterSize
        config.consolidationSimilarityThreshold
        (loadSleepMaintenanceMemories loadedFrom config.maxMemories)
  | command _ => True

/-- Commands that store do not store the memory. -/
def OfOthers (m : MemoryId) (w : World F) : MergeCall F -> Prop
  | command c => c.OfOthers m w
  | _ => True

omit [Scalar F] in
theorem nodup_id_loadSleepMaintenanceMemories (t : Tables F) (maxMemories : Nat) :
    ((loadSleepMaintenanceMemories t maxMemories).map MemoryNode.id).Nodup := by
  have hordered : ((orderBy (fun a b => idLe a.id b.id) t.allMemories).map MemoryNode.id).Nodup :=
    ((List.perm_insertionSort _ _).map _).nodup_iff.mpr (Tables.nodup_id_allMemories t)
  exact hordered.sublist ((List.take_sublist _ _).map _)

theorem mergesLive_iff {env : Env F} {w : World F} {call : MergeCall F} :
    call.MergesLive env w <-> call.NothingEnded env w := by
  cases call with
  | pass minClusterSize similarityThreshold =>
      have hnodup := Tables.nodup_id_allMemories w.tables
      constructor
      · intro h
        exact (sourcesLive_findCandidates hnodup).mp
          (h _ (congrArg Prod.fst findConsolidationCandidates_eq))
      · intro h candidates hcandidates
        rw [findConsolidationCandidates_eq] at hcandidates
        cases hcandidates
        exact (sourcesLive_findCandidates hnodup).mpr h
  | sleepPass loadedFrom config =>
      have hnodup := nodup_id_loadSleepMaintenanceMemories loadedFrom config.maxMemories
      constructor
      · intro h
        exact (sourcesLive_findCandidates hnodup).mp
          (h _ (congrArg Prod.fst findSleepConsolidationCandidates_eq))
      · intro h candidates hcandidates
        rw [findSleepConsolidationCandidates_eq] at hcandidates
        cases hcandidates
        exact (sourcesLive_findCandidates hnodup).mpr h
  | command c => exact Iff.rfl

/-- What has ended stays so, whatever is merged. -/
theorem step_keeps_ended {env : Env F} {m : MemoryId} (hclock : NondecreasingClock env)
    (hfresh : forall k, env.freshMemoryId k ≠ m) {w : World F} {call : MergeCall F}
    (hw : Meets m (EndedByNow env) 0 w) (hothers : call.OfOthers m w) :
    Meets m (EndedByNow env) 0 (call.step env w) := by
  have hticks : IgnoresTicks (Meets m (EndedByNow env) 0 : World F -> Prop) :=
    (viewsMemories_meets (windowLaw_endedByNow hclock)).ignoresTicks
  cases call with
  | pass minClusterSize similarityThreshold =>
      refine (Prog.Keeps.bind ?_ (keeps_consolidateAll_endedByNow hclock hfresh)).state hw
      intro v hv
      rw [findConsolidationCandidates_eq]
      exact hticks v _ (Nat.le_succ _) hv
  | sleepPass loadedFrom config =>
      refine (Prog.Keeps.bind ?_
        (fun _ => keeps_consolidateAll_endedByNow hclock hfresh _)).state hw
      intro v hv
      rw [findSleepConsolidationCandidates_eq]
      exact hticks v _ (Nat.le_succ _) hv
  | command c => exact LaterCommand.step_endedByNow hclock hfresh hw hothers

end MergeCall

/-- A memory that has ended is not merged by a pass that would merge nothing ended. -/
theorem not_source_of_ended [Scalar F] {env : Env F} {w : World F} {m : MemoryId}
    {minClusterSize : Nat} {similarityThreshold : F}
    (hended : RowMeets m (EndedByNow env w.ticks) w.tables)
    (hlive : ClustersLive (env.clock w.ticks) minClusterSize similarityThreshold
      w.tables.allMemories) :
    forall c, c ∈ candidatesIn env minClusterSize similarityThreshold w -> m ∉ c.memories := by
  intro c hc hm
  have hids := Tables.nodup_id_allMemories w.tables
  rcases (sourcesLive_findCandidates hids).mpr hlive c hc m hm with ⟨node, hnode, hid, hvalid⟩
  have hwindow := hended.copyMeets (Tables.mem_allMemories hnode) hid
  have hinvalid := Window.EndedBy.not_valid hwindow (UInt64.le_refl _)
  rw [show node.isValidAt (env.clock w.ticks) =
    (nodeWindow node).isValidAt (env.clock w.ticks) from rfl, hinvalid] at hvalid
  cases hvalid

/-- Whatever a pass in the one state would merge has ended in the other, and nothing is
eligible there that was not eligible before. -/
structure MergedSince [Scalar F] (env : Env F) (minClusterSize : Nat) (similarityThreshold : F)
    (v w : World F) : Prop where
  ended : forall c, c ∈ candidatesIn env minClusterSize similarityThreshold v ->
    forall m, m ∈ c.memories -> RowMeets m (EndedByNow env w.ticks) w.tables
  noNew : forall a, a ∈ eligibleAt (env.clock w.ticks) w.tables.allMemories ->
    exists a', a' ∈ eligibleAt (env.clock v.ticks) v.tables.allMemories ∧ a'.id = a.id ∧
      a'.embedding = a.embedding

/-- A second pass with no new memories creates none. -/
theorem second_pass_idle [Scalar F] {env : Env F} {v w : World F} {minClusterSize : Nat}
    {similarityThreshold : F}
    (hlive : ClustersLive (env.clock w.ticks) minClusterSize similarityThreshold
      w.tables.allMemories)
    (hmerged : MergedSince env minClusterSize similarityThreshold v w) :
    (consolidationPass env minClusterSize similarityThreshold w).2.tables = w.tables := by
  apply consolidationPass_of_nil
  refine findCandidates_eq_nil (Tables.nodup_id_allMemories _) (Tables.nodup_id_allMemories _) hlive
    hmerged.noNew ?_
  intro c hc a ha hsource
  have hwindow := (hmerged.ended c hc a.id hsource).copyMeets (Tables.mem_allMemories ha) rfl
  exact Window.EndedBy.not_valid hwindow (UInt64.le_refl _)

/-- In a run whose passes could merge nothing that has ended, every source is valid when it
is merged, what has ended is not merged later, and a second pass is idle. -/
theorem live_sources_of_run [Scalar F] {env : Env F} {w0 w : World F}
    {calls : List (MergeCall F)}
    (hrun : Run (MergeCall.step env) (MergeCall.NothingEnded env) w0 calls w) :
    Run (MergeCall.step env) (MergeCall.MergesLive env) w0 calls w ∧
      (forall call : MergeCall F, call.MergesLive env w <-> call.NothingEnded env w) ∧
      forall minClusterSize similarityThreshold,
        (MergeCall.pass minClusterSize similarityThreshold).NothingEnded env w ->
          (forall m, NondecreasingClock env -> (forall k, env.freshMemoryId k ≠ m) ->
            Meets m (EndedByNow env) 0 w0 ->
            Run (MergeCall.step env) (fun s call => call.OfOthers m s) w0 calls w ->
            forall c, c ∈ candidatesIn env minClusterSize similarityThreshold w ->
              m ∉ c.memories) ∧
          forall v, MergedSince env minClusterSize similarityThreshold v w ->
            ((MergeCall.pass minClusterSize similarityThreshold).step env w).tables =
              w.tables := by
  refine ⟨hrun.mono (fun _ _ h => MergeCall.mergesLive_iff.mpr h),
    fun _ => MergeCall.mergesLive_iff, ?_⟩
  intro minClusterSize similarityThreshold hlive
  refine ⟨?_, fun v hmerged => second_pass_idle hlive hmerged⟩
  intro m hclock hfresh hended hothers
  have hw : Meets m (EndedByNow env) 0 w :=
    hothers.invariant (fun _ _ hs hcall => MergeCall.step_keeps_ended hclock hfresh hs hcall)
      hended
  exact not_source_of_ended hw.1 hlive

section Examples

/-- Two days after the episodes; inference on writes is switched off. -/
def daysLaterEnv : Env Rat :=
  { calmEnv { CognitiveConfig.default with writeInference := false } with
    clock := fun _ => 172800001000 }

def episode (id : MemoryId) (content : String) (embedding : List Rat) : MemoryNode Rat :=
  { MemoryNode.new id 1000 AgentId.nil MemoryType.episodic content embedding with
    accessCount := 3 }

/-- Two old episodes that are alike. -/
def episodes : World Rat :=
  [LaterCommand.store (episode ⟨1⟩ "Met Ada in Turin." [40, 9]),
    LaterCommand.store (episode ⟨2⟩ "Had lunch with Ada." [40, -9])].foldl
    (LaterCommand.step daysLaterEnv) emptyWorld

/-- The pass of a turn. -/
def mergeEpisodes : MergeCall Rat := MergeCall.pass 2 (ratio 85 100)

theorem live_sources_of_run_episodes :
    (candidatesIn daysLaterEnv 2 (ratio 85 100) episodes).map
        ConsolidationCandidate.memories = [[⟨1⟩, ⟨2⟩]] ∧
      Run (MergeCall.step daysLaterEnv) (MergeCall.MergesLive daysLaterEnv) episodes
        [mergeEpisodes] (mergeEpisodes.step daysLaterEnv episodes) := by
  have hvalid : forall a, a ∈ episodes.tables.allMemories -> a.isValidAt 172800001000 = true := by
    decide +kernel
  have hlive : mergeEpisodes.NothingEnded daysLaterEnv episodes := by
    intro a ha _
    exact hvalid a (List.mem_of_mem_filter ha)
  exact ⟨by decide +kernel, (live_sources_of_run ((Run.nil episodes).snoc hlive)).1⟩

def mergedEpisodes : World Rat := mergeEpisodes.step daysLaterEnv episodes

/-- The first episode is soft-forgotten. -/
def forgottenEpisode : World Rat :=
  (applyForgetPolicy daysLaterEnv (ForgetScope.memory ⟨1⟩) ForgetMode.soft episodes).2

theorem not_mergesLive_of_ended {w : World Rat} (id : MemoryId)
    (hsource : exists c, c ∈ candidatesIn daysLaterEnv 2 (ratio 85 100) w ∧ id ∈ c.memories)
    (hended : forall a, a ∈ w.tables.allMemories -> a.id = id ->
      a.isValidAt 172800001000 = false) : ¬ mergeEpisodes.MergesLive daysLaterEnv w := by
  intro hlive
  rcases hsource with ⟨c, hc, hid⟩
  rcases hlive _ (congrArg Prod.fst findConsolidationCandidates_eq) c hc id hid with
    ⟨a, ha, hsame, hvalid⟩
  rw [show daysLaterEnv.clock w.ticks = 172800001000 from rfl, hended a ha hsame] at hvalid
  cases hvalid

/-- What was merged is merged a second time into another memory, and what was forgotten
is merged into a memory that is valid. -/
theorem ended_memory_is_merged :
    ¬ mergeEpisodes.MergesLive daysLaterEnv mergedEpisodes ∧
      mergedEpisodes.tables.allMemories.length = 3 ∧
      (mergeEpisodes.step daysLaterEnv mergedEpisodes).tables.allMemories.length = 4 ∧
      ¬ mergeEpisodes.MergesLive daysLaterEnv forgottenEpisode ∧
      ((mergeEpisodes.step daysLaterEnv forgottenEpisode).tables.getMemory ⟨1008⟩).map
        (fun a => a.isValidAt 172800001000) = some true ∧
      exists e, e ∈ (mergeEpisodes.step daysLaterEnv forgottenEpisode).tables.allEdges ∧
        e.source = ⟨1008⟩ ∧ e.target = ⟨1⟩ ∧ e.edgeType = EdgeType.derived := by
  refine ⟨?_, by decide +kernel, by decide +kernel, ?_, by decide +kernel, by decide +kernel⟩
  · exact not_mergesLive_of_ended ⟨1⟩ (by decide +kernel) (by decide +kernel)
  · exact not_mergesLive_of_ended ⟨1⟩ (by decide +kernel) (by decide +kernel)

end Examples

end Facade
end MenteDb
