import MenteDb.Core.Types
import MenteDb.Foundation.Assoc

/-!
# Memory spaces

A space has an owner and a list of the agents it admits, each with a permission.  The lists are
edited in place: a grant replaces the first entry of its agent, a check accepts any entry that
satisfies what is required.
-/

namespace MenteDb
namespace Core

open Foundation

inductive Permission where
  | read
  | write
  | readWrite
  | admin
deriving DecidableEq, Repr

/-- Whether the first permission satisfies the second. -/
def Permission.satisfies : Permission -> Permission -> Bool
  | admin, _ => true
  | readWrite, read => true
  | readWrite, write => true
  | readWrite, readWrite => true
  | read, read => true
  | write, write => true
  | _, _ => false

structure AccessEntry where
  agentId : AgentId
  permission : Permission
deriving DecidableEq, Repr

structure MemorySpace where
  id : SpaceId
  name : String
  owner : AgentId
  accessList : List AccessEntry
  createdAt : Timestamp
  maxMemories : Option Nat
  currentCount : Nat
deriving DecidableEq, Repr

structure SpaceManager where
  spaces : Assoc SpaceId MemorySpace

/-- Replaces the first entry of the agent, or adds one. -/
def setEntry (agent : AgentId) (perm : Permission) : List AccessEntry -> List AccessEntry
  | [] => [{ agentId := agent, permission := perm }]
  | e :: rest =>
      if e.agentId = agent then { e with permission := perm } :: rest
      else e :: setEntry agent perm rest

namespace SpaceManager

def new : SpaceManager where
  spaces := Assoc.empty

/-- The identifier and the time come from outside. -/
def createSpace (m : SpaceManager) (id : SpaceId) (now : Timestamp) (name : String)
    (owner : AgentId) : SpaceManager where
  spaces := m.spaces.insert id
    { id := id
      name := name
      owner := owner
      accessList := [{ agentId := owner, permission := Permission.admin }]
      createdAt := now
      maxMemories := none
      currentCount := 0 }

def deleteSpace (m : SpaceManager) (id : SpaceId) : SpaceManager where
  spaces := m.spaces.erase id

/-- Changes the access list of a space, if there is one. -/
def editAccess (m : SpaceManager) (space : SpaceId)
    (edit : List AccessEntry -> List AccessEntry) : SpaceManager where
  spaces := m.spaces.update (fun id _ => decide (id = space))
    (fun _ s => { s with accessList := edit s.accessList })

def grantAccess (m : SpaceManager) (space : SpaceId) (agent : AgentId) (perm : Permission) :
    SpaceManager :=
  m.editAccess space (setEntry agent perm)

def revokeAccess (m : SpaceManager) (space : SpaceId) (agent : AgentId) : SpaceManager :=
  m.editAccess space (fun entries => entries.filter (fun e => decide (e.agentId ≠ agent)))

/-- An entry of the agent that satisfies what is required. -/
def admits (agent : AgentId) (required : Permission) (entries : List AccessEntry) : Bool :=
  entries.any (fun e => decide (e.agentId = agent) && e.permission.satisfies required)

def checkAccess (m : SpaceManager) (space : SpaceId) (agent : AgentId) (required : Permission) :
    Bool :=
  (m.spaces.find? space).any (fun s =>
    decide (s.owner = agent) || admits agent required s.accessList)

end SpaceManager

/-!
## Histories
-/

inductive SpaceCall where
  | createSpace (id : SpaceId) (now : Timestamp) (name : String) (owner : AgentId)
  | deleteSpace (id : SpaceId)
  | grantAccess (space : SpaceId) (agent : AgentId) (perm : Permission)
  | revokeAccess (space : SpaceId) (agent : AgentId)

namespace SpaceCall

def step (m : SpaceManager) : SpaceCall -> SpaceManager
  | createSpace id now name owner => m.createSpace id now name owner
  | deleteSpace id => m.deleteSpace id
  | grantAccess space agent perm => m.grantAccess space agent perm
  | revokeAccess space agent => m.revokeAccess space agent

/-- The space that a call names. -/
def space : SpaceCall -> SpaceId
  | createSpace id _ _ _ => id
  | deleteSpace id => id
  | grantAccess space _ _ => space
  | revokeAccess space _ => space

/-- What becomes of a space: it gets an owner, or it is gone. -/
def ownership? (s : SpaceId) : SpaceCall -> Option (Option AgentId)
  | createSpace id _ _ owner => if id = s then some (some owner) else none
  | deleteSpace id => if id = s then some none else none
  | grantAccess _ _ _ => none
  | revokeAccess _ _ => none

/-- A grant to an agent, or a revocation. -/
def change? (s : SpaceId) (a : AgentId) : SpaceCall -> Option (Option Permission)
  | createSpace _ _ _ _ => none
  | deleteSpace _ => none
  | grantAccess space agent perm => if space = s ∧ agent = a then some (some perm) else none
  | revokeAccess space agent => if space = s ∧ agent = a then some none else none

/-- The answers for which agents a call is about. -/
def concerns (s : SpaceId) (a : AgentId) : SpaceCall -> Prop
  | createSpace id _ _ _ => id = s
  | deleteSpace id => id = s
  | grantAccess space agent _ => space = s ∧ agent = a
  | revokeAccess space agent => space = s ∧ agent = a

/-- The later of two calls does not create a space that the earlier one names. -/
def FreshAfter (earlier later : SpaceCall) : Prop :=
  match later with
  | createSpace id _ _ _ => earlier.space ≠ id
  | _ => True

end SpaceCall

def runCalls (calls : List SpaceCall) : SpaceManager := calls.foldl SpaceCall.step SpaceManager.new

/-- The owner of a space that was created and not deleted. -/
def ownerOf (calls : List SpaceCall) (s : SpaceId) : Option AgentId :=
  (calls.reverse.findSome? (SpaceCall.ownership? s)).join

/-- The last grant or revocation for an agent in a space, if there was one. -/
def lastChange (calls : List SpaceCall) (s : SpaceId) (a : AgentId) :
    Option (Option Permission) :=
  calls.reverse.findSome? (SpaceCall.change? s a)

/-!
## Entries
-/

/-- The permission of the first entry of an agent. -/
def entryFor (a : AgentId) (entries : List AccessEntry) : Option Permission :=
  (entries.find? (fun e => decide (e.agentId = a))).map AccessEntry.permission

theorem entryFor_cons (a : AgentId) (e : AccessEntry) (rest : List AccessEntry) :
    entryFor a (e :: rest) = if e.agentId = a then some e.permission else entryFor a rest := by
  unfold entryFor
  by_cases h : e.agentId = a
  · rw [if_pos h, List.find?_cons_of_pos (by simp [h])]
    rfl
  · rw [if_neg h, List.find?_cons_of_neg (by simp [h])]

theorem agents_setEntry (agent : AgentId) (perm : Permission) (entries : List AccessEntry) :
    (setEntry agent perm entries).map AccessEntry.agentId =
      if agent ∈ entries.map AccessEntry.agentId then entries.map AccessEntry.agentId
      else entries.map AccessEntry.agentId ++ [agent] := by
  induction entries with
  | nil => rfl
  | cons e rest ih =>
      unfold setEntry
      by_cases h : e.agentId = agent
      · rw [if_pos h, if_pos (by simp [h])]
        rfl
      · rw [if_neg h, List.map_cons, ih]
        have hne : agent ≠ e.agentId := fun heq => h heq.symm
        by_cases hmem : agent ∈ rest.map AccessEntry.agentId
        · rw [if_pos hmem, if_pos (by rw [List.map_cons]; exact List.mem_cons_of_mem _ hmem)]
          rfl
        · rw [if_neg hmem, if_neg (by rw [List.map_cons, List.mem_cons]; simp [hne, hmem])]
          rfl

theorem entryFor_setEntry (agent : AgentId) (perm : Permission) (entries : List AccessEntry)
    (a : AgentId) :
    entryFor a (setEntry agent perm entries) =
      if a = agent then some perm else entryFor a entries := by
  induction entries with
  | nil =>
      unfold setEntry
      rw [entryFor_cons]
      by_cases h : a = agent
      · rw [if_pos h.symm, if_pos h]
      · rw [if_neg (fun heq => h heq.symm), if_neg h]
  | cons e rest ih =>
      unfold setEntry
      by_cases he : e.agentId = agent
      · rw [if_pos he, entryFor_cons, entryFor_cons]
        by_cases h : a = agent
        · rw [if_pos (by rw [he, h]), if_pos h]
        · rw [if_neg (by rw [he]; exact fun heq => h heq.symm), if_neg h,
            if_neg (by rw [he]; exact fun heq => h heq.symm)]
      · rw [if_neg he, entryFor_cons, entryFor_cons, ih]
        by_cases h : a = agent
        · rw [if_pos h, if_pos h, if_neg (by rw [h]; exact he)]
        · rw [if_neg h, if_neg h]

theorem entryFor_revoke (agent : AgentId) (entries : List AccessEntry) (a : AgentId) :
    entryFor a (entries.filter (fun e => decide (e.agentId ≠ agent))) =
      if a = agent then none else entryFor a entries := by
  induction entries with
  | nil =>
      split <;> rfl
  | cons e rest ih =>
      by_cases he : e.agentId = agent
      · rw [List.filter_cons_of_neg (by simp [he]), ih, entryFor_cons]
        by_cases h : a = agent
        · rw [if_pos h, if_pos h]
        · rw [if_neg h, if_neg h, if_neg (by rw [he]; exact fun heq => h heq.symm)]
      · rw [List.filter_cons_of_pos (by simp [he]), entryFor_cons, ih, entryFor_cons]
        by_cases h : a = agent
        · rw [if_pos h, if_pos h, if_neg (by rw [h]; exact he)]
        · rw [if_neg h, if_neg h]

/-- If no agent has two entries, the one that is found first decides. -/
theorem admits_iff {entries : List AccessEntry}
    (h : (entries.map AccessEntry.agentId).Nodup) (a : AgentId) (required : Permission) :
    SpaceManager.admits a required entries = true <->
      exists granted, entryFor a entries = some granted ∧ granted.satisfies required = true := by
  unfold SpaceManager.admits
  induction entries with
  | nil => simp [entryFor]
  | cons e rest ih =>
      rw [List.map_cons, List.nodup_cons] at h
      rw [List.any_cons, entryFor_cons, Bool.or_eq_true, Bool.and_eq_true, decide_eq_true_eq]
      by_cases he : e.agentId = a
      · rw [if_pos he]
        have hrest : rest.any (fun e =>
            decide (e.agentId = a) && e.permission.satisfies required) = false := by
          rw [List.any_eq_false]
          intro x hx
          have hne : x.agentId ≠ a := by
            intro heq
            apply h.1
            rw [he, ← heq]
            exact List.mem_map_of_mem hx
          simp [hne]
        simp [he, hrest]
      · rw [if_neg he, ih h.2]
        simp [he]

theorem admits_setEntry_of_ne {agent a : AgentId} (h : a ≠ agent) (perm required : Permission)
    (entries : List AccessEntry) :
    SpaceManager.admits a required (setEntry agent perm entries) =
      SpaceManager.admits a required entries := by
  unfold SpaceManager.admits
  induction entries with
  | nil =>
      have hne : agent ≠ a := fun heq => h heq.symm
      simp [setEntry, hne]
  | cons e rest ih =>
      unfold setEntry
      by_cases he : e.agentId = agent
      · have hne : e.agentId ≠ a := by
          rw [he]
          exact fun heq => h heq.symm
        rw [if_pos he, List.any_cons, List.any_cons]
        simp [hne]
      · rw [if_neg he, List.any_cons, List.any_cons, ih]

theorem admits_revoke_of_ne {agent a : AgentId} (h : a ≠ agent) (required : Permission)
    (entries : List AccessEntry) :
    SpaceManager.admits a required (entries.filter (fun e => decide (e.agentId ≠ agent))) =
      SpaceManager.admits a required entries := by
  unfold SpaceManager.admits
  rw [List.any_filter]
  congr 1
  funext e
  by_cases he : e.agentId = a
  · simp [he, h]
  · simp [he]

/-!
## Histories decide
-/

theorem ownerOf_append_singleton (past : List SpaceCall) (call : SpaceCall) (s : SpaceId) :
    ownerOf (past ++ [call]) s = ((call.ownership? s).getD (ownerOf past s)) := by
  unfold ownerOf
  rw [List.reverse_append, List.reverse_singleton, List.singleton_append, List.findSome?_cons]
  cases call.ownership? s <;> rfl

theorem lastChange_append_singleton (past : List SpaceCall) (call : SpaceCall) (s : SpaceId)
    (a : AgentId) :
    lastChange (past ++ [call]) s a = (call.change? s a).or (lastChange past s a) := by
  unfold lastChange
  rw [List.reverse_append, List.reverse_singleton, List.singleton_append, List.findSome?_cons]
  cases call.change? s a <;> rfl

/-- Nothing was granted in a space that no call named. -/
theorem lastChange_of_unnamed {past : List SpaceCall} {s : SpaceId}
    (h : forall call, call ∈ past -> call.space ≠ s) (a : AgentId) :
    lastChange past s a = none := by
  unfold lastChange
  rw [List.findSome?_eq_none_iff]
  intro call hcall
  have hne := h call (List.mem_reverse.mp hcall)
  cases call with
  | createSpace id now name owner => rfl
  | deleteSpace id => rfl
  | grantAccess space agent perm => exact if_neg (fun heq => hne heq.1)
  | revokeAccess space agent => exact if_neg (fun heq => hne heq.1)

/-- The spaces are those of the history; no agent has two entries in a list, and the entry of an
agent who is not the owner is what was granted last. -/
structure Follows (calls : List SpaceCall) (m : SpaceManager) : Prop where
  owners : forall s, (m.spaces.find? s).map MemorySpace.owner = ownerOf calls s
  distinct : forall s space, m.spaces.find? s = some space ->
    (space.accessList.map AccessEntry.agentId).Nodup
  permits : forall s space, m.spaces.find? s = some space -> forall a, a ≠ space.owner ->
    entryFor a space.accessList = (lastChange calls s a).join

theorem Follows.createSpace {past : List SpaceCall} {m : SpaceManager} (h : Follows past m)
    {id : SpaceId} (hfresh : forall call, call ∈ past -> call.space ≠ id) (now : Timestamp)
    (name : String) (owner : AgentId) :
    Follows (past ++ [SpaceCall.createSpace id now name owner])
      (m.createSpace id now name owner) where
  owners s := by
    rw [ownerOf_append_singleton, SpaceManager.createSpace, Assoc.find?_insert]
    show _ = (if id = s then some (some owner) else none).getD (ownerOf past s)
    by_cases hs : s = id
    · rw [if_pos hs, if_pos hs.symm]
      rfl
    · rw [if_neg hs, if_neg (fun heq => hs heq.symm)]
      exact h.owners s
  distinct s space hspace := by
    rw [SpaceManager.createSpace, Assoc.find?_insert] at hspace
    split at hspace
    · cases hspace
      exact List.nodup_singleton owner
    · exact h.distinct s space hspace
  permits s space hspace a ha := by
    rw [lastChange_append_singleton]
    rw [SpaceManager.createSpace, Assoc.find?_insert] at hspace
    split at hspace
    · rename_i hs
      cases hspace
      rw [hs, lastChange_of_unnamed hfresh, entryFor_cons, if_neg (fun heq => ha heq.symm)]
      rfl
    · exact h.permits s space hspace a ha

theorem Follows.deleteSpace {past : List SpaceCall} {m : SpaceManager} (h : Follows past m)
    (id : SpaceId) : Follows (past ++ [SpaceCall.deleteSpace id]) (m.deleteSpace id) where
  owners s := by
    rw [ownerOf_append_singleton, SpaceManager.deleteSpace, Assoc.find?_erase]
    show _ = (if id = s then some none else none).getD (ownerOf past s)
    by_cases hs : s = id
    · rw [if_pos hs, if_pos hs.symm]
      rfl
    · rw [if_neg hs, if_neg (fun heq => hs heq.symm)]
      exact h.owners s
  distinct s space hspace := by
    rw [SpaceManager.deleteSpace, Assoc.find?_erase] at hspace
    split at hspace
    · cases hspace
    · exact h.distinct s space hspace
  permits s space hspace a ha := by
    rw [lastChange_append_singleton]
    rw [SpaceManager.deleteSpace, Assoc.find?_erase] at hspace
    split at hspace
    · cases hspace
    · exact h.permits s space hspace a ha

/-- An edit that sets the entry of one agent in one space. -/
theorem Follows.editAccess {past : List SpaceCall} {m : SpaceManager} (h : Follows past m)
    {call : SpaceCall} {space : SpaceId} {agent : AgentId} {left : Option Permission}
    {edit : List AccessEntry -> List AccessEntry} (hownership : forall s, call.ownership? s = none)
    (hchange : forall s a, call.change? s a =
      if space = s ∧ agent = a then some left else none)
    (hdistinct : forall entries, (entries.map AccessEntry.agentId).Nodup ->
      ((edit entries).map AccessEntry.agentId).Nodup)
    (hentry : forall entries a, entryFor a (edit entries) =
      if a = agent then left else entryFor a entries) :
    Follows (past ++ [call]) (m.editAccess space edit) where
  owners s := by
    rw [ownerOf_append_singleton, hownership, SpaceManager.editAccess, Assoc.find?_update,
      Option.map_map]
    refine Eq.trans (congrFun (congrArg Option.map (funext (fun v => ?_))) _) (h.owners s)
    show MemorySpace.owner (if _ then _ else _) = _
    split <;> rfl
  distinct s v hv := by
    rw [SpaceManager.editAccess, Assoc.find?_update] at hv
    rcases Option.map_eq_some_iff.mp hv with ⟨old, hold, heq⟩
    have hnodup := h.distinct s old hold
    rw [← heq]
    split
    · exact hdistinct _ hnodup
    · exact hnodup
  permits s v hv a ha := by
    rw [SpaceManager.editAccess, Assoc.find?_update] at hv
    rcases Option.map_eq_some_iff.mp hv with ⟨old, hold, heq⟩
    rw [lastChange_append_singleton, hchange]
    by_cases hs : s = space
    · rw [if_pos (decide_eq_true hs)] at heq
      rw [← heq] at ha ⊢
      rw [hentry]
      by_cases hagent : a = agent
      · rw [if_pos hagent, if_pos ⟨hs.symm, hagent.symm⟩]
        rfl
      · rw [if_neg hagent, if_neg (fun hboth => hagent hboth.2.symm), Option.none_or]
        exact h.permits s old hold a ha
    · rw [if_neg (by simp [hs])] at heq
      rw [← heq] at ha ⊢
      rw [if_neg (fun hboth => hs hboth.1.symm), Option.none_or]
      exact h.permits s old hold a ha

theorem Follows.step {past : List SpaceCall} {m : SpaceManager} (h : Follows past m)
    {call : SpaceCall} (hfresh : forall earlier, earlier ∈ past -> earlier.FreshAfter call) :
    Follows (past ++ [call]) (call.step m) := by
  cases call with
  | createSpace id now name owner => exact h.createSpace hfresh now name owner
  | deleteSpace id => exact h.deleteSpace id
  | grantAccess space agent perm =>
      apply h.editAccess (fun _ => rfl) (fun _ _ => rfl)
      · intro entries hnodup
        rw [agents_setEntry]
        split
        · exact hnodup
        · rename_i hnew
          rw [List.nodup_append]
          refine ⟨hnodup, List.nodup_singleton agent, ?_⟩
          intro x hx y hy heq
          rw [heq, List.mem_singleton.mp hy] at hx
          exact hnew hx
      · exact entryFor_setEntry agent perm
  | revokeAccess space agent =>
      apply h.editAccess (fun _ => rfl) (fun _ _ => rfl)
      · intro entries hnodup
        exact hnodup.sublist (List.filter_sublist.map AccessEntry.agentId)
      · exact entryFor_revoke agent

theorem follows_runCalls {calls : List SpaceCall} (hfresh : calls.Pairwise SpaceCall.FreshAfter) :
    Follows calls (runCalls calls) := by
  induction calls using List.reverseRecOn with
  | nil =>
      refine ⟨fun _ => rfl, ?_, ?_⟩
      · intro s space hspace
        cases hspace
      · intro s space hspace
        cases hspace
  | append_singleton past call ih =>
      rw [List.pairwise_append] at hfresh
      unfold runCalls
      rw [List.foldl_append]
      exact (ih hfresh.1).step (fun earlier hearlier =>
        hfresh.2.2 earlier hearlier call (List.mem_singleton.mpr rfl))

theorem Follows.checkAccess {calls : List SpaceCall} {m : SpaceManager} (h : Follows calls m)
    (s : SpaceId) (a : AgentId) (required : Permission) :
    m.checkAccess s a required = true <->
      exists owner, ownerOf calls s = some owner ∧
        (owner = a ∨ exists granted, lastChange calls s a = some (some granted) ∧
          granted.satisfies required = true) := by
  rw [← h.owners s]
  unfold SpaceManager.checkAccess
  cases hspace : m.spaces.find? s with
  | none => simp
  | some space =>
      rw [Option.any_some, Option.map_some, Bool.or_eq_true, decide_eq_true_eq,
        admits_iff (h.distinct s space hspace)]
      by_cases howner : space.owner = a
      · simp [howner]
      · rw [h.permits s space hspace a (fun heq => howner heq.symm)]
        simp [howner, Option.join_eq_some_iff]

/-- The answers that a call does not concern stay as they were. -/
theorem checkAccess_step (m : SpaceManager) {call : SpaceCall} {s : SpaceId} {a : AgentId}
    (h : ¬ call.concerns s a) (required : Permission) :
    (call.step m).checkAccess s a required = m.checkAccess s a required := by
  have hedit : forall (space : SpaceId) (agent : AgentId)
      (edit : List AccessEntry -> List AccessEntry), ¬ (space = s ∧ agent = a) ->
      (forall entries, a ≠ agent ->
        SpaceManager.admits a required (edit entries) =
          SpaceManager.admits a required entries) ->
      (m.editAccess space edit).checkAccess s a required = m.checkAccess s a required := by
    intro space agent edit hother hadmits
    unfold SpaceManager.checkAccess SpaceManager.editAccess
    rw [Assoc.find?_update]
    cases m.spaces.find? s with
    | none => rfl
    | some v =>
        rw [Option.map_some, Option.any_some, Option.any_some]
        by_cases hs : s = space
        · rw [if_pos (decide_eq_true hs)]
          have hagent : a ≠ agent := fun heq => hother ⟨hs.symm, heq.symm⟩
          show (_ || SpaceManager.admits a required (edit v.accessList)) = _
          rw [hadmits v.accessList hagent]
        · rw [if_neg (by simp [hs])]
  cases call with
  | createSpace id now name owner =>
      show (m.createSpace id now name owner).checkAccess s a required = _
      unfold SpaceManager.checkAccess SpaceManager.createSpace
      rw [Assoc.find?_insert, if_neg (fun heq => h heq.symm)]
  | deleteSpace id =>
      show (m.deleteSpace id).checkAccess s a required = _
      unfold SpaceManager.checkAccess SpaceManager.deleteSpace
      rw [Assoc.find?_erase, if_neg (fun heq => h heq.symm)]
  | grantAccess space agent perm =>
      exact hedit space agent _ h
        (fun entries hne => admits_setEntry_of_ne hne perm required entries)
  | revokeAccess space agent =>
      exact hedit space agent _ h (fun entries hne => admits_revoke_of_ne hne required entries)

/-- After any history of calls a check is decided by the history: the space exists, and the agent
owns it or was last granted what satisfies the requirement.  No call changes another answer. -/
theorem access_follows_history {calls : List SpaceCall}
    (hfresh : calls.Pairwise SpaceCall.FreshAfter) :
    (forall s a required, (runCalls calls).checkAccess s a required = true <->
      exists owner, ownerOf calls s = some owner ∧
        (owner = a ∨ exists granted, lastChange calls s a = some (some granted) ∧
          granted.satisfies required = true)) ∧
    forall (call : SpaceCall) s a required, ¬ call.concerns s a ->
      (call.step (runCalls calls)).checkAccess s a required =
        (runCalls calls).checkAccess s a required :=
  ⟨fun s a required => (follows_runCalls hfresh).checkAccess s a required,
    fun _ _ _ required h => checkAccess_step (runCalls calls) h required⟩

/-- An agent is admitted to a space and loses a part of its permission. -/
def downgrade : List SpaceCall :=
  [SpaceCall.createSpace ⟨1⟩ 5 "notes" ⟨7⟩,
    SpaceCall.grantAccess ⟨1⟩ ⟨8⟩ Permission.readWrite,
    SpaceCall.grantAccess ⟨1⟩ ⟨8⟩ Permission.read]

theorem access_follows_history_downgrade :
    downgrade.Pairwise SpaceCall.FreshAfter ∧
      (runCalls downgrade).checkAccess ⟨1⟩ ⟨8⟩ Permission.read = true := by
  have hfresh : downgrade.Pairwise SpaceCall.FreshAfter := by
    simp [downgrade, SpaceCall.FreshAfter]
  refine ⟨hfresh, ((access_follows_history hfresh).1 _ _ _).mpr ⟨⟨7⟩, by decide, Or.inr ?_⟩⟩
  exact ⟨Permission.read, by decide, rfl⟩

end Core
end MenteDb
