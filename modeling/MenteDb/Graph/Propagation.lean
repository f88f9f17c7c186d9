import Mathlib.Tactic.Linarith
import MenteDb.Graph.Belief
import MenteDb.Graph.Subgraph

/-!
# What a propagation does

A propagation is a breadth-first search over the four types of edges that carry belief, and a
sequence of updates of one confidence each.  A node passes on the value of its first update;
its later updates change the result and nothing else.
-/

namespace MenteDb
namespace Graph

open Foundation

variable {F : Type} [Scalar F]

def propagateUpdateWithConfig (g : CsrGraph F) (changedId : MemoryId) (newConfidence : F)
    (config : PropagationConfig F) : List (MemoryId × F) :=
  if g.containsNode changedId then
    (propagateLoop config g (g.nodeCount + 1)
      { confidences := Assoc.empty.insert changedId newConfidence
        queue := [(changedId, newConfidence, 0)]
        visited := [changedId] }).confidences.entries
  else []

theorem propagateUpdate_eq (g : CsrGraph F) (changedId : MemoryId) (newConfidence : F) :
    propagateUpdate g changedId newConfidence =
      propagateUpdateWithConfig g changedId newConfidence PropagationConfig.default := rfl

/-!
## Updates
-/

omit [Scalar F] in
/-- The types of the edges that carry belief. -/
def propagatingTypes : List EdgeType :=
  [EdgeType.caused, EdgeType.supports, EdgeType.contradicts, EdgeType.supersedes]

omit [Scalar F] in
def propagates (edgeType : EdgeType) : Bool := decide (edgeType ∈ propagatingTypes)

/-- The node to update, the confidence passed on to it, and the edge it came over. -/
abbrev Update (F : Type) := MemoryId × F × StoredEdge F

/-- The confidence of a node after an update. -/
def updated (config : PropagationConfig F) (current : F) (u : Update F) : F :=
  (neighborConfidence config current u.2.1 u.2.2.weight u.2.2.edgeType).getD current

def recordUpdate (config : PropagationConfig F) (confidences : Assoc MemoryId F)
    (u : Update F) : Assoc MemoryId F :=
  confidences.insert u.1 (updated config ((confidences.find? u.1).getD 1) u)

omit [Scalar F] in
/-- The updates that a node in the queue gives rise to. -/
def updatesFrom (g : CsrGraph F) (entry : MemoryId × F × Nat) : List (Update F) :=
  ((g.outgoing entry.1).filter (fun n => propagates n.2.edgeType)).map
    (fun n => (n.1, entry.2.1, n.2))

omit [Scalar F] in
theorem neighborConfidence_eq_none_iff [Scalar F] (config : PropagationConfig F)
    (current node weight : F) (edgeType : EdgeType) :
    neighborConfidence config current node weight edgeType = none <->
      propagates edgeType = false := by
  cases edgeType <;> simp [neighborConfidence, propagates, propagatingTypes]

omit [Scalar F] in
theorem propagates_cases {edgeType : EdgeType} (h : propagates edgeType = true) :
    edgeType = EdgeType.caused ∨ edgeType = EdgeType.supports ∨
      edgeType = EdgeType.contradicts ∨ edgeType = EdgeType.supersedes := by
  cases edgeType <;> simp_all [propagates, propagatingTypes]

/-- A node on the queue for the first time is put there with its new confidence. -/
def enqueue (config : PropagationConfig F) (depth : Nat) (s : PropagationState F)
    (u : Update F) : PropagationState F where
  confidences := recordUpdate config s.confidences u
  queue :=
    if u.1 ∈ s.visited then s.queue
    else s.queue ++ [(u.1, updated config ((s.confidences.find? u.1).getD 1) u, depth + 1)]
  visited := if u.1 ∈ s.visited then s.visited else s.visited ++ [u.1]

theorem visitNeighbor_eq (config : PropagationConfig F) (node : F) (depth : Nat)
    (s : PropagationState F) (n : MemoryId × StoredEdge F) :
    visitNeighbor config node depth s n =
      if propagates n.2.edgeType then enqueue config depth s (n.1, node, n.2) else s := by
  unfold visitNeighbor enqueue recordUpdate updated
  cases hnew : neighborConfidence config ((s.confidences.find? n.1).getD 1) node n.2.weight
      n.2.edgeType with
  | none =>
      have hskipped := (neighborConfidence_eq_none_iff _ _ _ _ _).mp hnew
      simp only [hnew, hskipped, Bool.false_eq_true, if_false]
  | some confidence =>
      have hkept : propagates n.2.edgeType = true := by
        by_contra hnot
        rw [Bool.not_eq_true] at hnot
        rw [(neighborConfidence_eq_none_iff _ _ _ _ _).mpr hnot] at hnew
        cases hnew
      simp only [hkept, if_true, hnew, Option.getD_some]

/-- Following the edges of a node is carrying out its updates. -/
theorem foldl_visitNeighbor (config : PropagationConfig F) (g : CsrGraph F) (id : MemoryId)
    (confidence : F) (depth : Nat) (s : PropagationState F) :
    (g.outgoing id).foldl (visitNeighbor config confidence depth) s =
      (updatesFrom g (id, confidence, depth)).foldl (enqueue config depth) s := by
  unfold updatesFrom
  rw [List.foldl_map]
  generalize g.outgoing id = neighbors
  induction neighbors generalizing s with
  | nil => rfl
  | cons n rest ih =>
      rw [List.foldl_cons, ih, visitNeighbor_eq, List.filter_cons]
      split
      · rw [List.foldl_cons]
      · rfl

/-- What happens to the first entry of the queue. -/
def propagateStep (config : PropagationConfig F) (g : CsrGraph F) (s : PropagationState F)
    (entry : MemoryId × F × Nat) (rest : List (MemoryId × F × Nat)) : PropagationState F :=
  if config.maxDepth <= entry.2.2 then { s with queue := rest }
  else (updatesFrom g entry).foldl (enqueue config entry.2.2) { s with queue := rest }

theorem propagateLoop_cons {config : PropagationConfig F} {g : CsrGraph F} {fuel : Nat}
    {s : PropagationState F} {entry : MemoryId × F × Nat} {rest : List (MemoryId × F × Nat)}
    (h : s.queue = entry :: rest) :
    propagateLoop config g (fuel + 1) s =
      propagateLoop config g fuel (propagateStep config g s entry rest) := by
  rcases entry with ⟨id, confidence, depth⟩
  simp only [propagateLoop, h, propagateStep]
  split
  · rfl
  · rw [foldl_visitNeighbor]

theorem propagateLoop_nil {config : PropagationConfig F} {g : CsrGraph F} {fuel : Nat}
    {s : PropagationState F} (h : s.queue = []) : propagateLoop config g fuel s = s := by
  cases fuel with
  | zero => rfl
  | succ fuel => simp only [propagateLoop, h]

/-!
## The entries taken from the queue
-/

/-- The entries taken from the queue, first to last. -/
def propagatePops (config : PropagationConfig F) (g : CsrGraph F) :
    Nat -> PropagationState F -> List (MemoryId × F × Nat)
  | 0, _ => []
  | fuel + 1, s =>
      match s.queue with
      | [] => []
      | entry :: rest => entry :: propagatePops config g fuel (propagateStep config g s entry rest)

omit [Scalar F] in
/-- A queue entry without its confidence. -/
def spot (entry : MemoryId × F × Nat) : MemoryId × Nat := (entry.1, entry.2.2)

omit [Scalar F] in
def PropagationState.toState (s : PropagationState F) : Bfs.State MemoryId where
  queue := s.queue.map spot
  visited := s.visited

omit [Scalar F] in
theorem map_fst_spot (entries : List (MemoryId × F × Nat)) :
    (entries.map spot).map Prod.fst = entries.map Prod.fst := by
  rw [List.map_map]
  rfl

theorem toState_enqueue (config : PropagationConfig F) (depth : Nat) (s : PropagationState F)
    (u : Update F) : (enqueue config depth s u).toState = Bfs.visit depth s.toState u.1 := by
  unfold enqueue Bfs.visit PropagationState.toState
  by_cases hseen : u.1 ∈ s.visited
  · simp only [if_pos hseen]
  · simp only [if_neg hseen, List.map_append, List.map_cons, List.map_nil]
    rfl

theorem toState_foldl_enqueue (config : PropagationConfig F) (depth : Nat)
    (updates : List (Update F)) (s : PropagationState F) :
    (updates.foldl (enqueue config depth) s).toState =
      (updates.map Prod.fst).foldl (Bfs.visit depth) s.toState := by
  induction updates generalizing s with
  | nil => rfl
  | cons u rest ih =>
      rw [List.map_cons, List.foldl_cons, List.foldl_cons, ih, toState_enqueue]

omit [Scalar F] in
theorem map_fst_updatesFrom (g : CsrGraph F) (entry : MemoryId × F × Nat) :
    (updatesFrom g entry).map Prod.fst = successors g propagates entry.1 := by
  unfold updatesFrom successors
  rw [List.map_map]
  rfl

/-- Apart from the confidences, a propagation is a breadth-first search. -/
theorem map_spot_propagatePops (config : PropagationConfig F) (g : CsrGraph F) (fuel : Nat)
    (s : PropagationState F) :
    (propagatePops config g fuel s).map spot =
      Bfs.loop (successors g propagates) config.maxDepth fuel s.toState := by
  induction fuel generalizing s with
  | zero => rfl
  | succ fuel ih =>
      rcases s with ⟨confidences, queue, visited⟩
      cases queue with
      | nil => rfl
      | cons entry rest =>
          rcases entry with ⟨id, confidence, depth⟩
          simp only [propagatePops, List.map_cons, ih, propagateStep]
          simp only [PropagationState.toState, List.map_cons, spot, Bfs.loop]
          split
          · rfl
          · rw [← map_fst_updatesFrom g (id, confidence, depth)]
            exact congrArg (fun t => (id, depth) :: Bfs.loop _ _ fuel t)
              (toState_foldl_enqueue config depth _ _)

/-- With entries left after the given rounds, one round more takes another one. -/
theorem length_propagatePops {config : PropagationConfig F} {g : CsrGraph F} (fuel : Nat)
    {s : PropagationState F} (h : (propagateLoop config g fuel s).queue ≠ []) :
    (propagatePops config g (fuel + 1) s).length = fuel + 1 := by
  induction fuel generalizing s with
  | zero =>
      cases hqueue : s.queue with
      | nil => exact absurd hqueue h
      | cons entry rest => simp only [propagatePops, hqueue, List.length_cons, List.length_nil]
  | succ fuel ih =>
      cases hqueue : s.queue with
      | nil =>
          rw [propagateLoop_nil hqueue] at h
          exact absurd hqueue h
      | cons entry rest =>
          rw [propagateLoop_cons hqueue] at h
          have hrest := ih h
          rw [propagatePops]
          simp only [hqueue, List.length_cons, hrest]

/-- With an empty queue, more rounds change nothing. -/
theorem propagateLoop_of_queue_nil {config : PropagationConfig F} {g : CsrGraph F}
    {fuel fuel' : Nat} (hle : fuel <= fuel') {s : PropagationState F}
    (h : (propagateLoop config g fuel s).queue = []) :
    propagateLoop config g fuel' s = propagateLoop config g fuel s ∧
      propagatePops config g fuel' s = propagatePops config g fuel s := by
  induction fuel generalizing fuel' s with
  | zero =>
      have hqueue : s.queue = [] := h
      refine ⟨propagateLoop_nil hqueue, ?_⟩
      cases fuel' with
      | zero => rfl
      | succ fuel' => simp only [propagatePops, hqueue]
  | succ fuel ih =>
      cases fuel' with
      | zero => omega
      | succ fuel' =>
          cases hqueue : s.queue with
          | nil =>
              rw [propagateLoop_nil hqueue, propagateLoop_nil hqueue]
              simp only [propagatePops, hqueue, and_self]
          | cons entry rest =>
              rw [propagateLoop_cons hqueue] at h ⊢
              rw [propagateLoop_cons hqueue]
              have hrest := ih (Nat.le_of_succ_le_succ hle) h
              refine ⟨hrest.1, ?_⟩
              simp only [propagatePops, hqueue, hrest.2]

/-!
## Confidences after a run
-/

/-- The updates that the entries taken from the queue give rise to. -/
def updatesOf (config : PropagationConfig F) (g : CsrGraph F)
    (pops : List (MemoryId × F × Nat)) : List (Update F) :=
  (pops.filter (fun entry => decide (entry.2.2 < config.maxDepth))).flatMap (updatesFrom g)

omit [Scalar F] in
theorem mem_updatesFrom {g : CsrGraph F} {entry : MemoryId × F × Nat} {u : Update F} :
    u ∈ updatesFrom g entry <->
      (u.1, u.2.2) ∈ g.outgoing entry.1 ∧ propagates u.2.2.edgeType = true ∧
        u.2.1 = entry.2.1 := by
  rcases u with ⟨target, passed, edge⟩
  unfold updatesFrom
  simp only [List.mem_map, List.mem_filter, Prod.mk.injEq]
  constructor
  · rintro ⟨n, ⟨hmem, hkept⟩, htarget, hpassed, hedge⟩
    subst htarget
    subst hedge
    exact ⟨hmem, hkept, hpassed.symm⟩
  · rintro ⟨hmem, hkept, hpassed⟩
    exact ⟨(target, edge), ⟨hmem, hkept⟩, rfl, hpassed.symm, rfl⟩

omit [Scalar F] in
theorem mem_updatesOf {config : PropagationConfig F} {g : CsrGraph F}
    {pops : List (MemoryId × F × Nat)} {u : Update F} :
    u ∈ updatesOf config g pops <->
      exists entry, entry ∈ pops ∧ entry.2.2 < config.maxDepth ∧ u ∈ updatesFrom g entry := by
  unfold updatesOf
  simp only [List.mem_flatMap, List.mem_filter, decide_eq_true_eq, and_assoc]

theorem confidences_foldl_enqueue (config : PropagationConfig F) (depth : Nat)
    (updates : List (Update F)) (s : PropagationState F) :
    (updates.foldl (enqueue config depth) s).confidences =
      updates.foldl (recordUpdate config) s.confidences := by
  induction updates generalizing s with
  | nil => rfl
  | cons u rest ih =>
      rw [List.foldl_cons, List.foldl_cons, ih]
      rfl

theorem confidences_propagateLoop (config : PropagationConfig F) (g : CsrGraph F) (fuel : Nat)
    (s : PropagationState F) :
    (propagateLoop config g fuel s).confidences =
      (updatesOf config g (propagatePops config g fuel s)).foldl (recordUpdate config)
        s.confidences := by
  induction fuel generalizing s with
  | zero => rfl
  | succ fuel ih =>
      cases hqueue : s.queue with
      | nil =>
          rw [propagateLoop_nil hqueue]
          simp only [propagatePops, hqueue]
          rfl
      | cons entry rest =>
          rw [propagateLoop_cons hqueue, ih]
          simp only [propagatePops, hqueue, updatesOf, List.filter_cons]
          unfold propagateStep
          by_cases hlast : config.maxDepth <= entry.2.2
          · rw [if_pos hlast, decide_eq_false (Nat.not_lt_of_le hlast)]
            rfl
          · rw [if_neg hlast, decide_eq_true (Nat.lt_of_not_le hlast), if_pos rfl,
              List.flatMap_cons, List.foldl_append, confidences_foldl_enqueue]

/-- Updates of other nodes leave the confidence of a node alone, and a node without one
counts as fully believed. -/
theorem getD_foldl_recordUpdate (config : PropagationConfig F) (updates : List (Update F))
    (confidences : Assoc MemoryId F) (id : MemoryId) :
    ((updates.foldl (recordUpdate config) confidences).find? id).getD 1 =
      (updates.filter (fun u => decide (u.1 = id))).foldl (updated config)
        ((confidences.find? id).getD 1) := by
  induction updates generalizing confidences with
  | nil => rfl
  | cons u rest ih =>
      rw [List.foldl_cons, ih, recordUpdate, Assoc.find?_insert, List.filter_cons]
      by_cases hid : u.1 = id
      · subst hid
        rw [if_pos rfl, decide_eq_true rfl, if_pos rfl, List.foldl_cons, Option.getD_some]
      · rw [if_neg (fun heq => hid heq.symm), decide_eq_false hid, if_neg Bool.false_ne_true]

theorem contains_foldl_recordUpdate (config : PropagationConfig F) (updates : List (Update F))
    (confidences : Assoc MemoryId F) (id : MemoryId) :
    (updates.foldl (recordUpdate config) confidences).contains id = true <->
      confidences.contains id = true ∨ exists u, u ∈ updates ∧ u.1 = id := by
  induction updates generalizing confidences with
  | nil => simp
  | cons u rest ih =>
      rw [List.foldl_cons, ih, recordUpdate, Assoc.insert, Assoc.contains_upsert,
        Bool.or_eq_true, decide_eq_true_eq]
      constructor
      · rintro ((heq | hold) | ⟨u', hu', heq⟩)
        · exact Or.inr ⟨u, List.mem_cons_self, heq.symm⟩
        · exact Or.inl hold
        · exact Or.inr ⟨u', List.mem_cons_of_mem u hu', heq⟩
      · rintro (hold | ⟨u', hu', heq⟩)
        · exact Or.inl (Or.inr hold)
        · cases List.mem_cons.mp hu' with
          | inl hsame =>
              subst hsame
              exact Or.inl (Or.inl heq.symm)
          | inr hrest => exact Or.inr ⟨u', hrest, heq⟩

/-!
## Where a passed confidence comes from

A node enters the queue at its first update, when it has no confidence of its own yet.
-/

/-- The entry is the first one, or its node was updated, as a node without a confidence,
for an entry one step nearer. -/
def Sourced (config : PropagationConfig F) (g : CsrGraph F) (changedId : MemoryId)
    (newConfidence : F) (pops : List (MemoryId × F × Nat)) (entry : MemoryId × F × Nat) : Prop :=
  entry = (changedId, newConfidence, 0) ∨
    exists source, source ∈ pops ∧ source.2.2 < config.maxDepth ∧
      exists u, u ∈ updatesFrom g source ∧
        entry = (u.1, updated config 1 u, source.2.2 + 1)

theorem Sourced.mono {config : PropagationConfig F} {g : CsrGraph F} {changedId : MemoryId}
    {newConfidence : F} {pops more : List (MemoryId × F × Nat)} {entry : MemoryId × F × Nat}
    (h : Sourced config g changedId newConfidence pops entry) (hsub : pops ⊆ more) :
    Sourced config g changedId newConfidence more entry := by
  rcases h with heq | ⟨source, hsource, hrest⟩
  · exact Or.inl heq
  · exact Or.inr ⟨source, hsub hsource, hrest⟩

/-- What holds between two rounds, for the entries taken so far. -/
structure Carries (config : PropagationConfig F) (g : CsrGraph F) (changedId : MemoryId)
    (newConfidence : F) (taken : List (MemoryId × F × Nat)) (s : PropagationState F) :
    Prop where
  seen : forall id, s.confidences.contains id = true -> id ∈ s.visited
  sourced : forall entry, entry ∈ s.queue -> Sourced config g changedId newConfidence taken entry

section Carries

variable {config : PropagationConfig F} {g : CsrGraph F} {changedId : MemoryId}
  {newConfidence : F} {taken : List (MemoryId × F × Nat)} {s : PropagationState F}

theorem Carries.enqueue {entry : MemoryId × F × Nat} (hentry : entry ∈ taken)
    (hdepth : entry.2.2 < config.maxDepth) {u : Update F} (hu : u ∈ updatesFrom g entry)
    (h : Carries config g changedId newConfidence taken s) :
    Carries config g changedId newConfidence taken (Graph.enqueue config entry.2.2 s u) := by
  constructor
  · intro id hid
    show id ∈ (if u.1 ∈ s.visited then s.visited else s.visited ++ [u.1])
    change (recordUpdate config s.confidences u).contains id = true at hid
    rw [recordUpdate, Assoc.insert, Assoc.contains_upsert, Bool.or_eq_true,
      decide_eq_true_eq] at hid
    split
    · rename_i hseen
      cases hid with
      | inl heq => exact heq ▸ hseen
      | inr hold => exact h.seen id hold
    · cases hid with
      | inl heq => exact heq ▸ List.mem_append_right _ List.mem_cons_self
      | inr hold => exact List.mem_append_left _ (h.seen id hold)
  · intro entry' hentry'
    change entry' ∈ (if u.1 ∈ s.visited then s.queue else
      s.queue ++ [(u.1, updated config ((s.confidences.find? u.1).getD 1) u, entry.2.2 + 1)])
      at hentry'
    split at hentry'
    · exact h.sourced entry' hentry'
    · rename_i hnew
      cases List.mem_append.mp hentry' with
      | inl hold => exact h.sourced entry' hold
      | inr hlast =>
          have hnone : s.confidences.find? u.1 = none := by
            rw [Assoc.find?_eq_none_iff, ← Assoc.contains_iff_mem_keys]
            exact fun hcontains => hnew (h.seen _ hcontains)
          rw [hnone, List.mem_singleton] at hlast
          exact Or.inr ⟨entry, hentry, hdepth, u, hu, hlast⟩

theorem Carries.foldl_enqueue {entry : MemoryId × F × Nat} (hentry : entry ∈ taken)
    (hdepth : entry.2.2 < config.maxDepth) (updates : List (Update F))
    (hupdates : updates ⊆ updatesFrom g entry)
    (h : Carries config g changedId newConfidence taken s) :
    Carries config g changedId newConfidence taken
      (updates.foldl (Graph.enqueue config entry.2.2) s) := by
  induction updates generalizing s with
  | nil => exact h
  | cons u rest ih =>
      rw [List.foldl_cons]
      exact ih (fun x hx => hupdates (List.mem_cons_of_mem u hx))
        (h.enqueue hentry hdepth (hupdates List.mem_cons_self))

theorem Carries.propagateStep {entry : MemoryId × F × Nat}
    {rest : List (MemoryId × F × Nat)} (hqueue : s.queue = entry :: rest)
    (h : Carries config g changedId newConfidence taken s) :
    Carries config g changedId newConfidence (taken ++ [entry])
      (Graph.propagateStep config g s entry rest) := by
  have hpop : Carries config g changedId newConfidence (taken ++ [entry])
      { s with queue := rest } := by
    refine ⟨h.seen, ?_⟩
    intro entry' hentry'
    refine (h.sourced entry' ?_).mono (List.subset_append_left _ _)
    rw [hqueue]
    exact List.mem_cons_of_mem entry hentry'
  unfold Graph.propagateStep
  split
  · exact hpop
  · rename_i hmore
    exact hpop.foldl_enqueue (List.mem_append_right _ List.mem_cons_self)
      (Nat.lt_of_not_le hmore) _ (List.Subset.refl _)

/-- Every entry taken from the queue is sourced in an entry taken before it. -/
theorem Carries.sourced_of_mem (fuel : Nat)
    (h : Carries config g changedId newConfidence taken s) {entry : MemoryId × F × Nat}
    (hentry : entry ∈ propagatePops config g fuel s) :
    Sourced config g changedId newConfidence (taken ++ propagatePops config g fuel s) entry := by
  induction fuel generalizing taken s with
  | zero => cases hentry
  | succ fuel ih =>
      cases hqueue : s.queue with
      | nil =>
          simp only [propagatePops, hqueue] at hentry
          cases hentry
      | cons first rest =>
          have hpops : propagatePops config g (fuel + 1) s =
              first :: propagatePops config g fuel
                (Graph.propagateStep config g s first rest) := by
            simp only [propagatePops, hqueue]
          rw [hpops] at hentry ⊢
          cases List.mem_cons.mp hentry with
          | inl heq =>
              refine (h.sourced entry ?_).mono (List.subset_append_left _ _)
              rw [hqueue, heq]
              exact List.mem_cons_self
          | inr hrest =>
              have hstep := ih (h.propagateStep hqueue) hrest
              rw [List.append_assoc, List.singleton_append] at hstep
              exact hstep

end Carries

/-!
## A propagation from its start
-/

def propagateStart (changedId : MemoryId) (newConfidence : F) : PropagationState F where
  confidences := Assoc.empty.insert changedId newConfidence
  queue := [(changedId, newConfidence, 0)]
  visited := [changedId]

/-- The entries that a propagation takes from its queue. -/
def popsFrom (config : PropagationConfig F) (g : CsrGraph F) (changedId : MemoryId)
    (newConfidence : F) : List (MemoryId × F × Nat) :=
  propagatePops config g (g.nodeCount + 1) (propagateStart changedId newConfidence)

section Run

variable (config : PropagationConfig F) (g : CsrGraph F) (changedId : MemoryId)
  (newConfidence : F)

theorem propagateUpdateWithConfig_eq (hstart : g.containsNode changedId = true) :
    propagateUpdateWithConfig g changedId newConfidence config =
      (propagateLoop config g (g.nodeCount + 1)
        (propagateStart changedId newConfidence)).confidences.entries := by
  unfold propagateUpdateWithConfig
  rw [if_pos hstart]
  rfl

theorem map_spot_pops (fuel : Nat) :
    (propagatePops config g fuel (propagateStart changedId newConfidence)).map spot =
      Bfs.loop (successors g propagates) config.maxDepth fuel (Bfs.start changedId) :=
  map_spot_propagatePops config g fuel _

theorem popsFrom_complete :
    Bfs.Complete (successors g propagates) changedId config.maxDepth
      ((popsFrom config g changedId newConfidence).map spot) := by
  unfold popsFrom
  rw [map_spot_pops]
  exact search_successors_complete g propagates changedId config.maxDepth

theorem popsFrom_byDistance :
    Bfs.ByDistance (ReachesOver g propagatingTypes changedId) config.maxDepth
      ((popsFrom config g changedId newConfidence).map spot) := by
  unfold popsFrom
  rw [map_spot_pops]
  exact Bfs.search_byDistance mem_nodes_of_reaches (Nat.le_refl _)

/-- A round for every node empties the queue: one round more would list more nodes than
there are. -/
theorem queue_propagateLoop_eq_nil :
    (propagateLoop config g (g.nodeCount + 1)
      (propagateStart changedId newConfidence)).queue = [] := by
  by_contra hleft
  have hlength := length_propagatePops _ hleft
  have hnodes : forall n id, Bfs.Reaches (successors g propagates) changedId n id ->
      id ∈ changedId :: g.nodeIds := mem_nodes_of_reaches
  have hcomplete : Bfs.Complete (successors g propagates) changedId config.maxDepth
      ((propagatePops config g (g.nodeCount + 1 + 1)
        (propagateStart changedId newConfidence)).map spot) := by
    rw [map_spot_pops]
    exact Bfs.search_complete hnodes (Nat.le_succ _)
  have hsub : ((propagatePops config g (g.nodeCount + 1 + 1)
      (propagateStart changedId newConfidence)).map spot).map Prod.fst ⊆
        changedId :: g.nodeIds := by
    intro id hid
    rcases hcomplete.mem_iff.mp hid with ⟨n, _, hreach⟩
    exact hnodes n id hreach
  have hle := (List.subperm_of_subset hcomplete.nodup hsub).length_le
  rw [List.length_map, List.length_map, hlength] at hle
  exact Nat.not_succ_le_self _ hle

theorem propagateLoop_eq_of_le {rounds : Nat} (h : g.nodeCount + 1 <= rounds) :
    propagateLoop config g rounds (propagateStart changedId newConfidence) =
      propagateLoop config g (g.nodeCount + 1) (propagateStart changedId newConfidence) :=
  (propagateLoop_of_queue_nil h
    (queue_propagateLoop_eq_nil config g changedId newConfidence)).1

theorem sourced_popsFrom {entry : MemoryId × F × Nat}
    (hentry : entry ∈ popsFrom config g changedId newConfidence) :
    Sourced config g changedId newConfidence (popsFrom config g changedId newConfidence)
      entry := by
  have hstart : Carries config g changedId newConfidence []
      (propagateStart changedId newConfidence) := by
    constructor
    · intro id hid
      simp only [propagateStart, Assoc.insert, Assoc.contains_upsert, Assoc.contains_empty,
        Bool.or_false, decide_eq_true_eq] at hid
      exact hid ▸ List.mem_cons_self
    · intro entry' hentry'
      exact Or.inl (List.mem_singleton.mp hentry')
  exact hstart.sourced_of_mem (g.nodeCount + 1) hentry

/-- The confidence that a node has at the end comes from its own updates alone. -/
theorem getD_final (id : MemoryId) :
    ((propagateLoop config g (g.nodeCount + 1)
      (propagateStart changedId newConfidence)).confidences.find? id).getD 1 =
      ((updatesOf config g (popsFrom config g changedId newConfidence)).filter
        (fun u => decide (u.1 = id))).foldl (updated config)
          (if id = changedId then newConfidence else 1) := by
  rw [confidences_propagateLoop, getD_foldl_recordUpdate]
  have hfirst : ((propagateStart changedId newConfidence).confidences.find? id).getD 1 =
      if id = changedId then newConfidence else 1 := by
    simp only [propagateStart, Assoc.find?_insert, Assoc.find?_empty]
    split <;> rfl
  rw [hfirst]
  rfl

theorem contains_final_iff (id : MemoryId) :
    (propagateLoop config g (g.nodeCount + 1)
      (propagateStart changedId newConfidence)).confidences.contains id = true <->
      exists n, n <= config.maxDepth ∧ ReachesOver g propagatingTypes changedId n id := by
  have hcomplete := popsFrom_complete config g changedId newConfidence
  have hlisted : id ∈ ((popsFrom config g changedId newConfidence).map spot).map Prod.fst <->
      exists n, n <= config.maxDepth ∧ ReachesOver g propagatingTypes changedId n id :=
    hcomplete.mem_iff
  rw [← hlisted, confidences_propagateLoop, contains_foldl_recordUpdate]
  simp only [propagateStart, Assoc.insert, Assoc.contains_upsert, Assoc.contains_empty,
    Bool.or_false, decide_eq_true_eq]
  constructor
  · rintro (heq | ⟨u, hu, heq⟩)
    · subst heq
      exact List.mem_map_of_mem hcomplete.origin
    · rcases mem_updatesOf.mp hu with ⟨entry, hentry, hdepth, hfrom⟩
      have hnext : id ∈ successors g propagates entry.1 := by
        rw [← map_fst_updatesFrom g entry, ← heq]
        exact List.mem_map_of_mem hfrom
      rcases hcomplete.expanded (spot entry) (List.mem_map_of_mem hentry) hdepth id hnext with
        ⟨d, _, hmem⟩
      exact List.mem_map_of_mem hmem
  · intro hid
    rw [map_fst_spot] at hid
    rcases List.mem_map.mp hid with ⟨entry, hentry, heq⟩
    rcases sourced_popsFrom config g changedId newConfidence hentry with
      hfirst | ⟨source, hsource, hdepth, u, hu, hlater⟩
    · rw [hfirst] at heq
      exact Or.inl heq.symm
    · rw [hlater] at heq
      exact Or.inr ⟨u, mem_updatesOf.mpr ⟨source, hsource, hdepth, hu⟩, heq⟩

end Run

/-!
## Range
-/

def InUnit (x : F) : Prop := 0 <= x ∧ x <= 1

structure PropagationConfig.UnitFactors (config : PropagationConfig F) : Prop where
  caused : InUnit config.causedDampening
  supports : InUnit config.supportsFactor
  contradicts : InUnit config.contradictsFactor
  supersedes : InUnit config.supersedesFloor

theorem unitFactors_default : (PropagationConfig.default : PropagationConfig F).UnitFactors := by
  constructor <;> norm_num [InUnit, PropagationConfig.default, ratio]

theorem InUnit.one : InUnit (1 : F) := ⟨zero_le_one, le_refl 1⟩

theorem InUnit.mul {x y : F} (hx : InUnit x) (hy : InUnit y) : InUnit (x * y) :=
  ⟨mul_nonneg hx.1 hy.1, mul_le_one₀ hx.2 hy.1 hy.2⟩

theorem InUnit.min {x y : F} (hx : InUnit x) (hy : InUnit y) : InUnit (min x y) :=
  ⟨le_min hx.1 hy.1, (min_le_left x y).trans hx.2⟩

theorem InUnit.clampUnit (x : F) : InUnit (clampUnit x) :=
  ⟨le_max_left 0 _, max_le zero_le_one (min_le_right x 1)⟩

/-- Two of the rules do not clamp; they only multiply and take a minimum. -/
theorem InUnit.updated {config : PropagationConfig F} (hfactors : config.UnitFactors)
    {current : F} {u : Update F} (hcurrent : InUnit current) (hpassed : InUnit u.2.1)
    (hweight : InUnit u.2.2.weight) : InUnit (updated config current u) := by
  unfold Graph.updated
  cases u.2.2.edgeType with
  | caused => exact (hpassed.mul hweight).mul hfactors.caused
  | supports => exact InUnit.clampUnit _
  | contradicts => exact InUnit.clampUnit _
  | supersedes => exact hcurrent.min (hpassed.mul hfactors.supersedes)
  | related => exact hcurrent
  | before => exact hcurrent
  | derived => exact hcurrent
  | partOf => exact hcurrent

section Range

variable {config : PropagationConfig F} {g : CsrGraph F} {changedId : MemoryId}
  {newConfidence : F}

/-- A property of the new confidence that every first update keeps is one of all the
confidences passed on. -/
theorem passed_of_first {P : F -> Prop} (hnew : P newConfidence)
    (hfirst : forall entry u, u ∈ updatesFrom g entry -> P u.2.1 -> P (updated config 1 u))
    {entry : MemoryId × F × Nat} (hentry : entry ∈ popsFrom config g changedId newConfidence) :
    P entry.2.1 := by
  generalize hdepth : entry.2.2 = depth
  induction depth generalizing entry with
  | zero =>
      rcases sourced_popsFrom config g changedId newConfidence hentry with
        heq | ⟨source, _, _, u, _, heq⟩
      · rw [heq]
        exact hnew
      · rw [heq] at hdepth
        cases hdepth
  | succ depth ih =>
      rcases sourced_popsFrom config g changedId newConfidence hentry with
        heq | ⟨source, hsource, _, u, hu, heq⟩
      · rw [heq] at hdepth
        cases hdepth
      · rw [heq] at hdepth ⊢
        refine hfirst source u hu ?_
        rw [(mem_updatesFrom.mp hu).2.2]
        exact ih hsource (Nat.succ.inj hdepth)

/-- The confidences passed on with the updates of a run have the properties of those in
the queue. -/
theorem passed_of_mem_updatesOf {P : F -> Prop}
    (hpops : forall entry, entry ∈ popsFrom config g changedId newConfidence -> P entry.2.1)
    {u : Update F} (hu : u ∈ updatesOf config g (popsFrom config g changedId newConfidence)) :
    P u.2.1 := by
  rcases mem_updatesOf.mp hu with ⟨entry, hentry, _, hfrom⟩
  rw [(mem_updatesFrom.mp hfrom).2.2]
  exact hpops entry hentry

theorem foldl_updated_of {P : F -> Prop} {updates : List (Update F)} {current : F}
    (hcurrent : P current)
    (hupdated : forall x u, u ∈ updates -> P x -> P (updated config x u)) :
    P (updates.foldl (updated config) current) := by
  induction updates generalizing current with
  | nil => exact hcurrent
  | cons u rest ih =>
      rw [List.foldl_cons]
      exact ih (hupdated current u List.mem_cons_self hcurrent)
        (fun x u' hu' => hupdated x u' (List.mem_cons_of_mem u hu'))

theorem inUnit_first (changedId id : MemoryId) (hnew : InUnit newConfidence) :
    InUnit (if id = changedId then newConfidence else 1) := by
  split
  · exact hnew
  · exact InUnit.one

/-- Confidences passed on in a run lie in the range. -/
theorem inUnit_passed (hweights : forall id n, n ∈ g.outgoing id -> InUnit n.2.weight)
    (hfactors : config.UnitFactors) (hnew : InUnit newConfidence) {u : Update F}
    (hu : u ∈ updatesOf config g (popsFrom config g changedId newConfidence)) :
    InUnit u.2.1 ∧ InUnit u.2.2.weight := by
  constructor
  · refine passed_of_mem_updatesOf (P := InUnit) ?_ hu
    intro entry hentry
    refine passed_of_first hnew ?_ hentry
    intro source u hu hpassed
    exact InUnit.one.updated hfactors hpassed (hweights _ _ (mem_updatesFrom.mp hu).1)
  · rcases mem_updatesOf.mp hu with ⟨entry, _, _, hfrom⟩
    exact hweights _ _ (mem_updatesFrom.mp hfrom).1

/-- Updates of a run never leave the range. -/
theorem inUnit_foldl_updated (hweights : forall id n, n ∈ g.outgoing id -> InUnit n.2.weight)
    (hfactors : config.UnitFactors) (hnew : InUnit newConfidence) {updates : List (Update F)}
    {current : F} (hcurrent : InUnit current)
    (hupdates : forall u, u ∈ updates ->
      u ∈ updatesOf config g (popsFrom config g changedId newConfidence)) :
    InUnit (updates.foldl (updated config) current) := by
  refine foldl_updated_of hcurrent ?_
  intro x u hu hx
  have hunit := inUnit_passed hweights hfactors hnew (hupdates u hu)
  exact hx.updated hfactors hunit.1 hunit.2

/-- In a graph with weights between zero and one a propagation ends, returns every node
up to the depth over the edges that carry belief, each once and no others, and all its
confidences lie between zero and one. -/
theorem propagateUpdateWithConfig_inRange (hstart : g.containsNode changedId = true)
    (hweights : forall id n, n ∈ g.outgoing id -> InUnit n.2.weight)
    (hfactors : config.UnitFactors) (hnew : InUnit newConfidence) :
    (forall rounds, g.nodeCount + 1 <= rounds ->
      (propagateLoop config g rounds (propagateStart changedId newConfidence)).queue = [] ∧
        (propagateLoop config g rounds
          (propagateStart changedId newConfidence)).confidences.entries =
            propagateUpdateWithConfig g changedId newConfidence config) ∧
    ((propagateUpdateWithConfig g changedId newConfidence config).map Prod.fst).Nodup ∧
    (forall p, p ∈ propagateUpdateWithConfig g changedId newConfidence config ->
      InUnit p.2) ∧
    forall id, id ∈ (propagateUpdateWithConfig g changedId newConfidence config).map Prod.fst <->
      exists n, n <= config.maxDepth ∧ ReachesOver g propagatingTypes changedId n id := by
  rw [propagateUpdateWithConfig_eq config g changedId newConfidence hstart]
  refine ⟨?_, Assoc.nodup _, ?_, ?_⟩
  · intro rounds hrounds
    rw [propagateLoop_eq_of_le config g changedId newConfidence hrounds]
    exact ⟨queue_propagateLoop_eq_nil config g changedId newConfidence, rfl⟩
  · intro p hp
    have hfinal := getD_final config g changedId newConfidence p.1
    rw [Assoc.find?_eq_some_iff.mpr hp, Option.getD_some] at hfinal
    rw [hfinal]
    exact inUnit_foldl_updated hweights hfactors hnew (inUnit_first changedId p.1 hnew)
      (fun u hu => List.mem_of_mem_filter hu)
  · intro id
    rw [← contains_final_iff config g changedId newConfidence id, Assoc.contains_iff_mem_keys]
    rfl

end Range

omit [Scalar F] in
/-- Only registered nodes have edges to look at. -/
theorem forall_outgoing {g : CsrGraph F} {P : MemoryId -> MemoryId × StoredEdge F -> Prop}
    (h : forall id, id ∈ g.idToIdx.keys -> forall n, n ∈ g.outgoing id -> P id n)
    (id : MemoryId) (n : MemoryId × StoredEdge F) (hn : n ∈ g.outgoing id) : P id n := by
  by_cases hid : id ∈ g.idToIdx.keys
  · exact h id hid n hn
  · rw [outgoing_of_not_mem_keys hid] at hn
    cases hn

section Examples

/-- Every type of edge that carries belief, on a cycle and off it. -/
def beliefCycle : CsrGraph Rat :=
  GraphOp.run CsrGraph.new
    [linkOf 1 2 EdgeType.caused, linkOf 2 3 EdgeType.supports,
      linkOf 3 1 EdgeType.contradicts, linkOf 3 4 EdgeType.supersedes]

theorem weight_beliefCycle (id : MemoryId) (n : MemoryId × StoredEdge Rat)
    (hn : n ∈ beliefCycle.outgoing id) : n.2.weight = 1 :=
  forall_outgoing (P := fun _ n => n.2.weight = 1) (by decide) id n hn

end Examples

theorem propagateUpdateWithConfig_inRange_beliefCycle :
    beliefCycle.containsNode ⟨1⟩ = true ∧
      (PropagationConfig.default : PropagationConfig Rat).UnitFactors ∧
      InUnit (1 / 2 : Rat) ∧
      propagateUpdateWithConfig beliefCycle ⟨1⟩ (1 / 2) PropagationConfig.default =
        [(⟨1⟩, 0), (⟨2⟩, 9 / 20), (⟨3⟩, 29 / 40), (⟨4⟩, 29 / 400)] ∧
      forall p, p ∈ propagateUpdateWithConfig beliefCycle ⟨1⟩ (1 / 2)
        PropagationConfig.default -> InUnit p.2 := by
  have hstart : beliefCycle.containsNode ⟨1⟩ = true := by decide
  have hnew : InUnit (1 / 2 : Rat) := by
    unfold InUnit
    decide +kernel
  have hweights : forall id n, n ∈ beliefCycle.outgoing id -> InUnit n.2.weight := by
    intro id n hn
    rw [weight_beliefCycle id n hn]
    exact InUnit.one
  refine ⟨hstart, unitFactors_default, hnew, by decide +kernel, ?_⟩
  exact (propagateUpdateWithConfig_inRange hstart hweights unitFactors_default hnew).2.2.1

/-!
## The changed node
-/

/-- No edge that carries belief leads back to the node from where a propagation gets. -/
def NoReturn (g : CsrGraph F) (changedId : MemoryId) (maxDepth : Nat) : Prop :=
  forall n id, n < maxDepth -> ReachesOver g propagatingTypes changedId n id ->
    changedId ∉ successors g propagates id

/-- Positive weights up to one pass on confidences strictly inside the range. -/
def InOpenUnit (x : F) : Prop := 0 < x ∧ x < 1

section Changed

variable {g : CsrGraph F} {changedId : MemoryId}

theorem updates_changed_eq_nil_iff (config : PropagationConfig F) (newConfidence : F) :
    (updatesOf config g (popsFrom config g changedId newConfidence)).filter
        (fun u => decide (u.1 = changedId)) = [] <->
      NoReturn g changedId config.maxDepth := by
  have hexact := popsFrom_byDistance config g changedId newConfidence
  rw [List.filter_eq_nil_iff]
  simp only [decide_eq_true_eq]
  constructor
  · intro hnone n id hn hreach hback
    rcases (popsFrom_complete config g changedId newConfidence).depth_le hreach
      (Nat.le_of_lt hn) with ⟨d, hd, hmem⟩
    rcases List.mem_map.mp hmem with ⟨entry, hentry, heq⟩
    cases heq
    rw [← map_fst_updatesFrom g entry] at hback
    rcases List.mem_map.mp hback with ⟨u, hu, htarget⟩
    exact hnone u (mem_updatesOf.mpr ⟨entry, hentry, Nat.lt_of_le_of_lt hd hn, hu⟩) htarget
  · intro hno u hu htarget
    rcases mem_updatesOf.mp hu with ⟨entry, hentry, hdepth, hfrom⟩
    have hreach := ((hexact.mem_iff entry.1 entry.2.2).mp (List.mem_map_of_mem hentry)).1.1
    refine hno entry.2.2 entry.1 hdepth hreach ?_
    rw [← map_fst_updatesFrom g entry, ← htarget]
    exact List.mem_map_of_mem hfrom

theorem kept_iff_foldl (hstart : g.containsNode changedId = true) (newConfidence : F) :
    (changedId, newConfidence) ∈ propagateUpdate g changedId newConfidence <->
      ((updatesOf PropagationConfig.default g
        (popsFrom PropagationConfig.default g changedId newConfidence)).filter
          (fun u => decide (u.1 = changedId))).foldl (updated PropagationConfig.default)
            newConfidence = newConfidence := by
  have hfinal := getD_final PropagationConfig.default g changedId newConfidence changedId
  rw [if_pos rfl] at hfinal
  have hcontains := (contains_final_iff PropagationConfig.default g changedId newConfidence
    changedId).mpr ⟨0, Nat.zero_le _, Bfs.Reaches.refl⟩
  rcases Assoc.contains_iff_exists.mp hcontains with ⟨x, hx⟩
  rw [hx, Option.getD_some] at hfinal
  rw [propagateUpdate_eq, propagateUpdateWithConfig_eq _ _ _ _ hstart,
    ← Assoc.find?_eq_some_iff, hx, ← hfinal, Option.some.injEq]

theorem clampUnit_lt {x c : F} (hx : x < c) (hc : 0 < c) : clampUnit x < c :=
  max_lt hc ((min_le_left x 1).trans_lt hx)

theorem clampUnit_pos {x : F} (hx : 0 < x) : 0 < clampUnit x :=
  (lt_min hx zero_lt_one).trans_le (le_max_right 0 _)

theorem InOpenUnit.mul_weight {x weight : F} (hx : InOpenUnit x)
    (hweight : 0 < weight ∧ weight <= 1) : InOpenUnit (x * weight) := by
  refine ⟨mul_pos hx.1 hweight.1, ?_⟩
  calc x * weight <= x * 1 := mul_le_mul_of_nonneg_left hweight.2 hx.1.le
    _ = x := mul_one x
    _ < 1 := hx.2

/-- What is missing to full belief shrinks with the weight, and does not vanish. -/
theorem InOpenUnit.deficit {x weight : F} (hx : InOpenUnit x)
    (hweight : 0 < weight ∧ weight <= 1) : InOpenUnit ((1 - x) * weight) :=
  InOpenUnit.mul_weight ⟨sub_pos.mpr hx.2, sub_lt_self 1 hx.1⟩ hweight

theorem InOpenUnit.first {u : Update F} (hkept : propagates u.2.2.edgeType = true)
    (hpassed : InOpenUnit u.2.1) (hweight : 0 < u.2.2.weight ∧ u.2.2.weight <= 1) :
    InOpenUnit (updated PropagationConfig.default 1 u) := by
  have hproduct := hpassed.mul_weight hweight
  have hdeficit := hpassed.deficit hweight
  unfold updated InOpenUnit
  unfold InOpenUnit at hproduct hdeficit hpassed
  rcases propagates_cases hkept with htype | htype | htype | htype <;> rw [htype]
  · simp only [neighborConfidence, PropagationConfig.default, ratio, Option.getD_some]
    norm_num
    constructor <;> linarith
  · simp only [neighborConfidence, PropagationConfig.default, ratio, Option.getD_some]
    norm_num
    refine ⟨clampUnit_pos ?_, clampUnit_lt ?_ zero_lt_one⟩ <;> linarith
  · simp only [neighborConfidence, PropagationConfig.default, ratio, Option.getD_some]
    norm_num
    refine ⟨clampUnit_pos ?_, clampUnit_lt ?_ zero_lt_one⟩ <;> linarith
  · simp only [neighborConfidence, PropagationConfig.default, ratio, Option.getD_some]
    norm_num
    constructor
    · linarith
    · linarith

/-- From nine tenths on, every update of the changed node takes confidence away from it. -/
theorem updated_lt {u : Update F} (hkept : propagates u.2.2.edgeType = true)
    (hpassed : InOpenUnit u.2.1) (hweight : 0 < u.2.2.weight ∧ u.2.2.weight <= 1)
    {current c : F} (hcurrent : current <= c) (hc : ratio 9 10 <= c) :
    updated PropagationConfig.default current u < c := by
  have hproduct := hpassed.mul_weight hweight
  have hdeficit := hpassed.deficit hweight
  unfold updated
  unfold InOpenUnit at hproduct hdeficit hpassed
  unfold ratio at hc
  have hpos : 0 < c := lt_of_lt_of_le (by norm_num) hc
  rcases propagates_cases hkept with htype | htype | htype | htype <;> rw [htype]
  · simp only [neighborConfidence, PropagationConfig.default, ratio, Option.getD_some]
    refine lt_of_lt_of_le ?_ hc
    norm_num
    linarith
  · simp only [neighborConfidence, PropagationConfig.default, ratio, Option.getD_some]
    refine clampUnit_lt ?_ hpos
    norm_num
    linarith
  · simp only [neighborConfidence, PropagationConfig.default, ratio, Option.getD_some]
    refine clampUnit_lt ?_ hpos
    norm_num
    linarith
  · simp only [neighborConfidence, PropagationConfig.default, ratio, Option.getD_some]
    refine (min_le_right _ _).trans_lt ?_
    norm_num at hc ⊢
    linarith

theorem foldl_updated_lt {updates : List (Update F)} {c : F} (hne : updates ≠ [])
    (hupdated : forall x u, u ∈ updates -> x <= c -> updated PropagationConfig.default x u < c) :
    updates.foldl (updated PropagationConfig.default) c < c := by
  cases updates with
  | nil => exact absurd rfl hne
  | cons u rest =>
      rw [List.foldl_cons]
      refine foldl_updated_of (P := fun x => x < c)
        (hupdated c u List.mem_cons_self (le_refl c)) ?_
      intro x u' hu' hx
      exact hupdated x u' (List.mem_cons_of_mem u hu') hx.le

/-- Where no edge that carries belief leads back to it, the changed node keeps the new
confidence.  With positive weights that is the only way to keep one from nine tenths up
to one. -/
theorem changed_kept_iff_noReturn (hstart : g.containsNode changedId = true) :
    (NoReturn g changedId 5 -> forall c, (changedId, c) ∈ propagateUpdate g changedId c) ∧
      ((forall id n, n ∈ g.outgoing id -> 0 < n.2.weight ∧ n.2.weight <= 1) ->
        forall c, ratio 9 10 <= c -> c < 1 ->
          ((changedId, c) ∈ propagateUpdate g changedId c <-> NoReturn g changedId 5)) := by
  have hkept : NoReturn g changedId 5 ->
      forall c, (changedId, c) ∈ propagateUpdate g changedId c := by
    intro hno c
    rw [kept_iff_foldl hstart, (updates_changed_eq_nil_iff PropagationConfig.default c).mpr hno]
    rfl
  refine ⟨hkept, ?_⟩
  intro hweights c hlow hhigh
  refine ⟨?_, fun hno => hkept hno c⟩
  intro hsame
  rw [kept_iff_foldl hstart] at hsame
  refine (updates_changed_eq_nil_iff PropagationConfig.default c).mp ?_
  by_contra hne
  have hpos : 0 < c := lt_of_lt_of_le (by norm_num [ratio]) hlow
  have hpops : forall entry, entry ∈ popsFrom PropagationConfig.default g changedId c ->
      InOpenUnit entry.2.1 := by
    intro entry hentry
    refine passed_of_first ⟨hpos, hhigh⟩ ?_ hentry
    intro source u hu hpassed
    have hfrom := mem_updatesFrom.mp hu
    exact InOpenUnit.first hfrom.2.1 hpassed (hweights _ _ hfrom.1)
  have hless := foldl_updated_lt hne (fun x u hu hx => by
    have hmem := List.mem_of_mem_filter hu
    rcases mem_updatesOf.mp hmem with ⟨entry, _, _, hu⟩
    have hfrom := mem_updatesFrom.mp hu
    exact updated_lt hfrom.2.1 (passed_of_mem_updatesOf hpops hmem) (hweights _ _ hfrom.1) hx
      hlow)
  exact absurd hsame hless.ne

end Changed

section Examples

/-- An edge from a node to itself. -/
def selfCaused : CsrGraph Rat := GraphOp.run CsrGraph.new [linkOf 1 1 EdgeType.caused]

theorem weight_detourGraph (id : MemoryId) (n : MemoryId × StoredEdge Rat)
    (hn : n ∈ detourGraph.outgoing id) : n.2.weight = 1 :=
  forall_outgoing (P := fun _ n => n.2.weight = 1) (by decide) id n hn

theorem noReturn_detourGraph : NoReturn detourGraph ⟨1⟩ 5 := by
  intro n id _ _ hback
  rcases mem_successors.mp hback with ⟨e, hmem, _⟩
  exact forall_outgoing (P := fun _ n => n.1 ≠ (⟨1⟩ : MemoryId)) (by decide) id _ hmem rfl

end Examples

theorem changed_kept_iff_noReturn_detourGraph :
    detourGraph.containsNode ⟨1⟩ = true ∧ NoReturn detourGraph ⟨1⟩ 5 ∧
      (⟨1⟩, (1 / 2 : Rat)) ∈ propagateUpdate detourGraph ⟨1⟩ (1 / 2) ∧
      ((⟨1⟩, (9 / 10 : Rat)) ∈ propagateUpdate detourGraph ⟨1⟩ (9 / 10) <->
        NoReturn detourGraph ⟨1⟩ 5) := by
  have hstart : detourGraph.containsNode ⟨1⟩ = true := by decide
  have hkept := changed_kept_iff_noReturn hstart
  have hweights : forall id n, n ∈ detourGraph.outgoing id ->
      0 < n.2.weight ∧ n.2.weight <= 1 := by
    intro id n hn
    rw [weight_detourGraph id n hn]
    decide +kernel
  exact ⟨hstart, noReturn_detourGraph, hkept.1 noReturn_detourGraph _,
    hkept.2 hweights (9 / 10) (by decide +kernel) (by decide +kernel)⟩

/-- The edge back takes a tenth of the new confidence away. -/
theorem changed_overwritten :
    selfCaused.containsNode ⟨1⟩ = true ∧
      propagateUpdate selfCaused ⟨1⟩ (1 / 2) = [(⟨1⟩, 9 / 20)] ∧
      (⟨1⟩, (1 / 2 : Rat)) ∉ propagateUpdate selfCaused ⟨1⟩ (1 / 2) := by
  refine ⟨by decide, by decide +kernel, by decide +kernel⟩

end Graph
end MenteDb
