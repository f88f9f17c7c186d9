import MenteDb.Facade.Policies
import MenteDb.Foundation.Clamp
import MenteDb.Sqlite.RoundTrip

/-!
# Decay and its schedule

A decay pass reads the stored salience as the salience before decay and writes
the decayed value over it, while the instant of the last access stays.  The
value a second pass computes is therefore decayed from that instant once more.
The results below say what a pass leaves for each memory and on exactly which
memories running it earlier as well makes no difference.
-/

namespace MenteDb
namespace Facade

open Foundation
open Sqlite
open Consolidation

variable {F : Type}

/-!
## The decayed value
-/

section Engine

variable [Scalar F]

def decayFactor (config : DecayConfig F) (accessedAt now : Timestamp) : F :=
  Scalar.exp2 (-(saturatingSub now accessedAt : F) / (config.halfLifeUs.toNat : F))

def accessBonus (config : DecayConfig F) (accessCount : UInt32) : F :=
  config.accessBoost * Scalar.ln (1 + (accessCount.toNat : F))

theorem clamp_eq_clampTo {lo hi : F} (hle : lo <= hi) (x : F) :
    clamp lo hi x = clampTo lo hi x := by
  unfold clamp
  split
  · rename_i hlow
    exact (clampTo_of_le hlow.le).symm
  · rename_i hlow
    split
    · rename_i hhigh
      exact (clampTo_of_ge hle hhigh.le).symm
    · rename_i hhigh
      exact (clampTo_of_between (not_lt.mp hlow) (not_lt.mp hhigh)).symm

theorem computeDecay_eq {config : DecayConfig F} (hle : config.minSalience <= config.maxSalience)
    (salience : F) (accessedAt : Timestamp) (accessCount : UInt32) (now : Timestamp) :
    computeDecay config salience accessedAt accessCount now =
      clampTo config.minSalience config.maxSalience
        (salience * decayFactor config accessedAt now + accessBonus config accessCount) :=
  clamp_eq_clampTo hle _

/-- The decayed value of a memory at an instant. -/
def decayed (config : DecayConfig F) (node : MemoryNode F) (now : Timestamp) : F :=
  computeDecay config node.salience node.accessedAt node.accessCount now

/-- Decay at the instant leaves the salience where it is: in range and unmoved, or at
a bound and pushed beyond it. -/
def Unmoved (config : DecayConfig F) (node : MemoryNode F) (now : Timestamp) : Prop :=
  let raw := node.salience * decayFactor config node.accessedAt now
    + accessBonus config node.accessCount
  (config.minSalience <= node.salience ∧ node.salience <= config.maxSalience ∧
      raw = node.salience) ∨
    (node.salience = config.minSalience ∧ raw <= config.minSalience) ∨
    (node.salience = config.maxSalience ∧ config.maxSalience <= raw)

/-- At the second instant the stored salience and the one decayed at the first are
both brought down to the floor. -/
def BothAtFloor (config : DecayConfig F) (node : MemoryNode F) (first second : Timestamp) : Prop :=
  let bonus := accessBonus config node.accessCount
  let factor := decayFactor config node.accessedAt second
  let raw := node.salience * decayFactor config node.accessedAt first + bonus
  (config.minSalience * factor + bonus <= config.minSalience ∧
      (config.maxSalience * factor + bonus <= config.minSalience ∨
        raw * factor + bonus <= config.minSalience)) ∧
    node.salience * factor + bonus <= config.minSalience

/-- At the second instant both are lifted to the cap. -/
def BothAtCap (config : DecayConfig F) (node : MemoryNode F) (first second : Timestamp) : Prop :=
  let bonus := accessBonus config node.accessCount
  let factor := decayFactor config node.accessedAt second
  let raw := node.salience * decayFactor config node.accessedAt first + bonus
  (config.maxSalience <= config.maxSalience * factor + bonus ∧
      (config.maxSalience <= config.minSalience * factor + bonus ∨
        config.maxSalience <= raw * factor + bonus)) ∧
    config.maxSalience <= node.salience * factor + bonus

/-- The memories on which a pass at the first instant makes no difference to one at
the second. -/
def SchedulesAgree (config : DecayConfig F) (node : MemoryNode F)
    (first second : Timestamp) : Prop :=
  config.minSalience = config.maxSalience ∨ Unmoved config node first ∨
    BothAtFloor config node first second ∨ BothAtCap config node first second

theorem decayed_twice_iff (hexp : forall x : F, 0 < Scalar.exp2 x) {config : DecayConfig F}
    (hbounds : config.minSalience <= config.maxSalience) (node : MemoryNode F)
    (first second : Timestamp) :
    decayed config { node with salience := decayed config node first } second =
        decayed config node second <->
      SchedulesAgree config node first second := by
  unfold SchedulesAgree decayed
  simp only [computeDecay_eq hbounds]
  rcases eq_or_lt_of_le hbounds with heq | hlt
  · have hcollapse : forall x, clampTo config.minSalience config.maxSalience x =
        config.maxSalience := by
      intro x
      rw [← heq]
      unfold clampTo
      rw [max_eq_left (min_le_left _ _)]
    simp only [hcollapse, true_iff]
    exact Or.inl heq
  · have hfactor : 0 < decayFactor config node.accessedAt second := hexp _
    rw [clampTo_mul_add_twice_iff hlt hfactor, or_iff_right hlt.ne]
    exact Iff.rfl

end Engine

/-!
## The durable passes
-/

/-- The two passes that write decayed values: the policy run, which turn maintenance
also uses, and the decay stage of a sleep run. -/
inductive DecayPass (F : Type) where
  | policy
  | sleep (maxMemories : Nat) (decayWriteEpsilon : F)

namespace DecayPass

variable [Scalar F]

/-- The pass at a fixed instant. -/
def run (env : Env F) (now : Timestamp) : DecayPass F -> Op F Unit
  | policy => do
      let _ ← applyDecayPolicyGlobal { env with clock := fun _ => now }
      pure ()
  | sleep maxMemories decayWriteEpsilon =>
      applySleepDecay { env with clock := fun _ => now } maxMemories decayWriteEpsilon

/-- Changes up to this size are not written. -/
def epsilon : DecayPass F -> F
  | policy => ratio 1 1000
  | sleep _ decayWriteEpsilon => decayWriteEpsilon

omit [Scalar F] in
/-- The memories the pass looks at. -/
def loaded (t : Tables F) : DecayPass F -> List (MemoryNode F)
  | policy => t.allMemories
  | sleep maxMemories _ => loadSleepMaintenanceMemories t maxMemories

omit [Scalar F] in
def Covers (pass : DecayPass F) (t : Tables F) (id : MemoryId) : Prop :=
  id ∈ (pass.loaded t).map MemoryNode.id

instance (pass : DecayPass F) (t : Tables F) (id : MemoryId) : Decidable (pass.Covers t id) :=
  inferInstanceAs (Decidable (id ∈ (pass.loaded t).map MemoryNode.id))

/-!
### What a pass writes
-/

/-- The updates of the pass over the given tables. -/
def updates (env : Env F) (now : Timestamp) (t : Tables F) (pass : DecayPass F) :
    List (MemoryNode F) :=
  decayUpdates env.config.decayConfig pass.epsilon now (pass.loaded t)

theorem forEach_dbStoreMemory_ok {env : Env F} {nodes : List (MemoryNode F)} {w w' : World F}
    (h : Prog.forEach nodes (dbStoreMemory env) w = (Except.ok (), w')) :
    Atomic.forEach nodes (fun u => Tables.storeMemoryOn u w.embeddingDim) w.tables =
      Except.ok w'.tables := by
  induction nodes generalizing w with
  | nil =>
      cases h
      rfl
  | cons node rest ih =>
      rcases Prog.bind_ok h with ⟨u, mid, hstore, hrest⟩
      rcases transact_ok hstore with ⟨t, ht, hmid⟩
      have htail := ih hrest
      rw [hmid] at htail
      exact Atomic.andThen_eq_ok.mpr ⟨t, Tables.storeMemory_ok ht, htail⟩

/-- Either pass stores its updates one after another. -/
theorem run_ok {env : Env F} {now : Timestamp} {pass : DecayPass F} {w w' : World F}
    (h : pass.run env now w = (Except.ok (), w')) :
    Atomic.forEach (pass.updates env now w.tables)
      (fun u => Tables.storeMemoryOn u w.embeddingDim) w.tables = Except.ok w'.tables := by
  cases pass with
  | policy =>
      rcases Prog.bind_ok h with ⟨ids, mid, hpolicy, hend⟩
      cases hend
      rcases Prog.bind_ok hpolicy with ⟨t, w1, hclock, hloaded⟩
      cases hclock
      rcases Prog.bind_ok hloaded with ⟨nodes, w2, hnodes, hwrite⟩
      cases hnodes
      rcases Prog.bind_ok hwrite with ⟨dim, w3, hdim, hcommit⟩
      cases hdim
      rcases Prog.bind_ok hcommit with ⟨u, w4, htransact, hids⟩
      cases hids
      rcases transact_ok htransact with ⟨t, ht, hw'⟩
      rw [hw']
      exact ht
  | sleep maxMemories decayWriteEpsilon =>
      rcases Prog.bind_ok h with ⟨nodes, w1, hnodes, hclocked⟩
      cases hnodes
      rcases Prog.bind_ok hclocked with ⟨t, w2, hclock, hwrite⟩
      cases hclock
      have hstored := forEach_dbStoreMemory_ok hwrite
      exact hstored

omit [Scalar F] in
theorem mem_loaded {t : Tables F} {pass : DecayPass F} {node : MemoryNode F}
    (h : node ∈ pass.loaded t) : t.getMemory node.id = some node := by
  cases pass with
  | policy => exact Tables.mem_allMemories h
  | sleep maxMemories decayWriteEpsilon =>
      exact Tables.mem_allMemories (mem_orderBy.mp (List.mem_of_mem_take h))

omit [Scalar F] in
theorem nodup_id_loaded (t : Tables F) (pass : DecayPass F) :
    ((pass.loaded t).map MemoryNode.id).Nodup := by
  cases pass with
  | policy => exact Tables.nodup_id_allMemories t
  | sleep maxMemories decayWriteEpsilon =>
      have hsorted : ((orderBy (fun a b => idLe a.id b.id) t.allMemories).map
          MemoryNode.id).Nodup :=
        ((List.perm_insertionSort _ _).map _).nodup_iff.mpr (Tables.nodup_id_allMemories t)
      exact hsorted.sublist ((List.take_sublist _ _).map _)

theorem mem_updates {env : Env F} {now : Timestamp} {t : Tables F} {pass : DecayPass F}
    {u : MemoryNode F} :
    u ∈ pass.updates env now t <->
      exists node, node ∈ pass.loaded t ∧
        ¬ |decayed env.config.decayConfig node now - node.salience| <= pass.epsilon ∧
        u = { node with salience := decayed env.config.decayConfig node now } := by
  unfold updates decayUpdates
  rw [List.mem_filterMap]
  constructor
  · intro h
    rcases h with ⟨node, hnode, hu⟩
    simp only at hu
    split at hu
    · cases hu
    · rename_i hbig
      cases hu
      exact ⟨node, hnode, hbig, rfl⟩
  · intro h
    rcases h with ⟨node, hnode, hbig, heq⟩
    refine ⟨node, hnode, ?_⟩
    unfold decayed at hbig heq
    simp only
    rw [if_neg hbig, heq]

theorem loaded_updates (env : Env F) (now : Timestamp) (t : Tables F) (pass : DecayPass F) :
    Tables.Loaded t (pass.updates env now t) := by
  intro u hu
  rcases mem_updates.mp hu with ⟨node, hnode, _, heq⟩
  rw [heq]
  exact ⟨node, mem_loaded hnode, rfl, rfl⟩

theorem nodup_id_updates (env : Env F) (now : Timestamp) (t : Tables F) (pass : DecayPass F) :
    ((pass.updates env now t).map MemoryNode.id).Nodup := by
  have hsublist : forall nodes : List (MemoryNode F),
      ((decayUpdates env.config.decayConfig pass.epsilon now nodes).map MemoryNode.id).Sublist
        (nodes.map MemoryNode.id) := by
    intro nodes
    unfold decayUpdates
    induction nodes with
    | nil => exact List.Sublist.refl _
    | cons node rest ih =>
        rw [List.filterMap_cons]
        split
        · exact ih.cons node.id
        · rename_i u hu
          simp only at hu
          split at hu
          · cases hu
          · cases hu
            exact ih.cons_cons node.id
  exact (nodup_id_loaded t pass).sublist (hsublist (pass.loaded t))

/-!
### What a pass leaves
-/

/-- The change to the memory is none or large enough to be written. -/
def AboveThreshold (env : Env F) (pass : DecayPass F) (node : MemoryNode F)
    (now : Timestamp) : Prop :=
  decayed env.config.decayConfig node now = node.salience ∨
    pass.epsilon < |decayed env.config.decayConfig node now - node.salience|

/-- A pass that succeeds leaves every memory it covers with its decayed salience and
otherwise as it was. -/
theorem getMemory_run {env : Env F} {now : Timestamp} {pass : DecayPass F} {w w' : World F}
    (hrun : pass.run env now w = (Except.ok (), w')) {id : MemoryId} {node : MemoryNode F}
    (hget : w.tables.getMemory id = some node) (hcovers : pass.Covers w.tables id)
    (hthreshold : pass.AboveThreshold env node now) :
    w'.tables.getMemory id =
      some { node with salience := decayed env.config.decayConfig node now } := by
  rcases Tables.getMemory_forEach_loaded (nodup_id_updates env now w.tables pass)
    (loaded_updates env now w.tables pass) (run_ok hrun) with ⟨hread, hframe⟩
  rcases List.mem_map.mp hcovers with ⟨covered, hmem, hid⟩
  have hnode : covered = node := by
    have hcovered := mem_loaded hmem
    rw [hid, hget] at hcovered
    exact (Option.some.inj hcovered).symm
  rw [hnode] at hmem hid
  by_cases hsmall : |decayed env.config.decayConfig node now - node.salience| <= pass.epsilon
  · have hsame : decayed env.config.decayConfig node now = node.salience := by
      rcases hthreshold with hsame | hlarge
      · exact hsame
      · exact absurd hsmall (not_le.mpr hlarge)
    have hnot : id ∉ (pass.updates env now w.tables).map MemoryNode.id := by
      intro h
      rcases List.mem_map.mp h with ⟨u, hu, huid⟩
      rcases mem_updates.mp hu with ⟨other, hother, hbig, heq⟩
      have hsameNode : other = node := by
        have hload := mem_loaded hother
        have hotherId : other.id = id := by
          rw [← huid, heq]
        rw [hotherId, hget] at hload
        exact (Option.some.inj hload).symm
      rw [hsameNode] at hbig
      exact hbig hsmall
    rw [hframe id hnot, hget, hsame]
  · subst hid
    exact hread _ (mem_updates.mpr ⟨node, hmem, hsmall, rfl⟩)

omit [Scalar F] in
/-- Which memories a pass looks at depends on the stored ids only. -/
theorem covers_congr {t t' : Tables F} (h : t'.allMemoryIds = t.allMemoryIds)
    (pass : DecayPass F) (id : MemoryId) : pass.Covers t' id <-> pass.Covers t id := by
  unfold Covers
  cases pass with
  | policy =>
      unfold loaded
      rw [Tables.map_id_allMemories, Tables.map_id_allMemories, h]
  | sleep maxMemories decayWriteEpsilon =>
      have hids : forall t : Tables F,
          (loadSleepMaintenanceMemories t maxMemories).map MemoryNode.id =
            (orderBy idLe t.allMemoryIds).take maxMemories := by
        intro t
        unfold loadSleepMaintenanceMemories orderBy
        rw [List.map_take, List.map_insertionSort _ (fun a b => idLe a b = true) MemoryNode.id
          _ (fun _ _ _ _ => Iff.rfl), Tables.map_id_allMemories]
      unfold loaded
      rw [hids, hids, h]

theorem covers_run {env : Env F} {now : Timestamp} {pass : DecayPass F} {w w' : World F}
    (hrun : pass.run env now w = (Except.ok (), w')) (other : DecayPass F) (id : MemoryId) :
    other.Covers w'.tables id <-> other.Covers w.tables id :=
  covers_congr (Tables.allMemoryIds_forEach_loaded (loaded_updates env now w.tables pass)
    (run_ok hrun)) other id

end DecayPass

/-!
## Schedules
-/

section Schedules

variable [Scalar F]

/-- An earlier pass makes no difference to a later one on exactly the memories named
by {lit}`SchedulesAgree`. -/
theorem decay_schedules_agree_iff (env : Env F) (hexp : forall x : F, 0 < Scalar.exp2 x)
    (hconfig : env.config.decayConfig.WellFormed) (earlier later : DecayPass F)
    {first second : Timestamp} {w w1 w2 w' : World F} {id : MemoryId} {node : MemoryNode F}
    (hget : w.tables.getMemory id = some node)
    (hearlier : earlier.Covers w.tables id) (hlater : later.Covers w.tables id)
    (hrun1 : earlier.run env first w = (Except.ok (), w1))
    (hrun2 : later.run env second w1 = (Except.ok (), w2))
    (hrun : later.run env second w = (Except.ok (), w'))
    (hthreshold1 : earlier.AboveThreshold env node first)
    (hthreshold2 : later.AboveThreshold env
      { node with salience := decayed env.config.decayConfig node first } second)
    (hthreshold : later.AboveThreshold env node second) :
    w2.tables.salienceOf id = w'.tables.salienceOf id <->
      SchedulesAgree env.config.decayConfig node first second := by
  have hmid := DecayPass.getMemory_run hrun1 hget hearlier hthreshold1
  have hcovers := (DecayPass.covers_run hrun1 later id).mpr hlater
  have htwice := DecayPass.getMemory_run hrun2 hmid hcovers hthreshold2
  have honce := DecayPass.getMemory_run hrun hget hlater hthreshold
  rw [← decayed_twice_iff hexp hconfig.bounds node first second,
    Tables.salienceOf_of_getMemory htwice, Tables.salienceOf_of_getMemory honce]
  exact Option.some_inj

end Schedules

/-!
### A memory decayed once a week

Seven days are the default half-life.  Left alone for two weeks, a memory of
salience one is to fall to a quarter.
-/

def weekUs : Timestamp := 7 * 24 * 3600 * 1000000

def decayEnv : Env Rat := calmEnv CognitiveConfig.default

def agedMemory : MemoryNode Rat :=
  MemoryNode.new ⟨1⟩ 0 AgentId.nil MemoryType.semantic "fact" []

def agedWorld : World Rat := (dbStoreMemory decayEnv agedMemory emptyWorld).2

/-- The state after policy passes at the given instants. -/
def decayedAt (instants : List Timestamp) : World Rat :=
  instants.foldl (fun w now => (DecayPass.policy.run decayEnv now w).2) agedWorld

theorem exp2_rat_pos (x : Rat) : 0 < (Scalar.exp2 x : Rat) :=
  zpow_pos rfl x.floor

theorem decay_schedules_differ :
    (DecayPass.policy.run decayEnv weekUs agedWorld).1.isOk = true ∧
      (DecayPass.policy.run decayEnv (2 * weekUs) (decayedAt [weekUs])).1.isOk = true ∧
      (DecayPass.policy.run decayEnv (2 * weekUs) agedWorld).1.isOk = true ∧
      (decayedAt [2 * weekUs]).tables.salienceOf agedMemory.id = some (1 / 4) ∧
      (decayedAt [weekUs, 2 * weekUs]).tables.salienceOf agedMemory.id = some (1 / 8) ∧
      (decayedAt [weekUs]).tables.salienceOf agedMemory.id = some (1 / 2) ∧
      (decayedAt [weekUs, weekUs]).tables.salienceOf agedMemory.id = some (1 / 4) ∧
      (decayedAt [weekUs, 2 * weekUs]).tables.salienceOf agedMemory.id ≠
        (decayedAt [2 * weekUs]).tables.salienceOf agedMemory.id := by
  decide +kernel

theorem decay_schedules_agree_at_access :
    (decayedAt [0, weekUs]).tables.salienceOf agedMemory.id =
        (decayedAt [weekUs]).tables.salienceOf agedMemory.id <->
      SchedulesAgree decayEnv.config.decayConfig agedMemory 0 weekUs :=
  decay_schedules_agree_iff decayEnv exp2_rat_pos ⟨by decide +kernel, by decide⟩ DecayPass.policy
    DecayPass.policy (w := agedWorld) rfl (by decide +kernel) (by decide +kernel)
    (Prog.eq_of_isOk (by decide +kernel)) (Prog.eq_of_isOk (by decide +kernel))
    (Prog.eq_of_isOk (by decide +kernel))
    (Or.inl (by decide +kernel)) (Or.inr (by decide +kernel)) (Or.inr (by decide +kernel))

end Facade
end MenteDb
