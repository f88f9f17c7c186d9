import MenteDb.Foundation.CycleSearch
import MenteDb.Graph.Distances

/-!
# Cycles

Cycles over edges of given types.  What the search returns are cycles, no two of the same
nodes.  It can miss all cycles there are: a node that a search has pushed is not pushed again
below another one, although it is not on the path that leads there.
-/

namespace MenteDb
namespace Graph

open Foundation

variable {F : Type}

def detectCyclesWithin (g : CsrGraph F) (edgeTypes : List EdgeType) (rounds : Nat) :
    Option (List (List MemoryId)) :=
  (CycleSearch.searchAll (successors g (fun t => decide (t ∈ edgeTypes))) rounds g.nodeIds
    CycleSearch.State.empty).map CycleSearch.State.cycles

def detectCycles (g : CsrGraph F) (edgeTypes : List EdgeType) : List (List MemoryId) :=
  (detectCyclesWithin g edgeTypes (g.nodeCount + 1)).getD []

/-- An edge of one of the types leads from the first node to the second. -/
def LinksOver (g : CsrGraph F) (edgeTypes : List EdgeType) (a b : MemoryId) : Prop :=
  exists e, (b, e) ∈ g.outgoing a ∧ e.edgeType ∈ edgeTypes

/-- Different nodes, with an edge of one of the types from each to the next and from the last
to the first. -/
structure DirectedCycle (g : CsrGraph F) (edgeTypes : List EdgeType) (cycle : List MemoryId) :
    Prop where
  nonempty : cycle ≠ []
  nodup : cycle.Nodup
  steps : cycle.IsChain (LinksOver g edgeTypes)
  closes : forall first last, cycle.head? = some first -> cycle.getLast? = some last ->
    LinksOver g edgeTypes last first

section Search

variable {g : CsrGraph F} {edgeTypes : List EdgeType}

theorem mem_successors_over {a b : MemoryId} :
    b ∈ successors g (fun t => decide (t ∈ edgeTypes)) a <-> LinksOver g edgeTypes a b := by
  rw [mem_successors]
  simp only [decide_eq_true_eq]
  rfl

theorem isCycle_iff_directedCycle {cycle : List MemoryId} :
    CycleSearch.IsCycle (successors g (fun t => decide (t ∈ edgeTypes))) cycle <->
      DirectedCycle g edgeTypes cycle := by
  constructor
  · intro h
    exact
      { nonempty := h.nonempty
        nodup := h.nodup
        steps := h.steps.imp (fun _ _ hstep => mem_successors_over.mp hstep)
        closes := fun x y hx hy => mem_successors_over.mp (h.closes x y hx hy) }
  · intro h
    exact
      { nonempty := h.nonempty
        nodup := h.nodup
        steps := h.steps.imp (fun _ _ hstep => mem_successors_over.mpr hstep)
        closes := fun x y hx hy => mem_successors_over.mpr (h.closes x y hx hy) }

/-- The rounds suffice on every graph. -/
theorem detectCycles_searched (g : CsrGraph F) (edgeTypes : List EdgeType) :
    exists s, detectCycles g edgeTypes = s.cycles ∧ forall rounds, g.nodeCount + 1 <= rounds ->
      CycleSearch.searchAll (successors g (fun t => decide (t ∈ edgeTypes))) rounds g.nodeIds
        CycleSearch.State.empty = some s := by
  have hrounds : g.nodeIds.length < g.nodeCount + 1 := Nat.lt_succ_self _
  rcases CycleSearch.searchAll_isSome (successors_subset_nodeIds g _) hrounds
    (List.Subset.refl g.nodeIds) CycleSearch.State.empty with ⟨s, hs⟩
  refine ⟨s, ?_, fun rounds hle => CycleSearch.searchAll_mono hle hs⟩
  unfold detectCycles detectCyclesWithin
  rw [hs]
  rfl

end Search

/-- The search ends on every graph and returns cycles, no two of the same nodes. -/
theorem detectCycles_sound (g : CsrGraph F) (edgeTypes : List EdgeType) :
    (forall rounds, g.nodeCount + 1 <= rounds ->
      detectCyclesWithin g edgeTypes rounds = some (detectCycles g edgeTypes)) ∧
    (forall cycle, cycle ∈ detectCycles g edgeTypes -> DirectedCycle g edgeTypes cycle) ∧
    (detectCycles g edgeTypes).Pairwise (fun c d => ¬ CycleSearch.SameNodes c d) := by
  rcases detectCycles_searched g edgeTypes with ⟨s, hcycles, hsearch⟩
  have hsound := CycleSearch.searchAll_sound (hsearch _ (Nat.le_refl _))
  rw [hcycles]
  refine ⟨?_, ?_, hsound.distinct⟩
  · intro rounds hrounds
    unfold detectCyclesWithin
    rw [hsearch rounds hrounds]
    rfl
  · intro cycle hcycle
    exact isCycle_iff_directedCycle.mp (hsound.cycle cycle hcycle)

/-- The graph has a cycle over edges of the types. -/
def HasCycle (g : CsrGraph F) (edgeTypes : List EdgeType) : Prop :=
  exists cycle, DirectedCycle g edgeTypes cycle

theorem detectCycles_ne_nil_iff (g : CsrGraph F) (edgeTypes : List EdgeType) :
    detectCycles g edgeTypes ≠ [] <-> CycleSearch.SomeMeetsFresh
      (successors g (fun t => decide (t ∈ edgeTypes))) [] g.nodeIds := by
  rcases detectCycles_searched g edgeTypes with ⟨s, hcycles, hsearch⟩
  have hnone : forall y, y ∈ (CycleSearch.State.empty : CycleSearch.State MemoryId).expanded <->
      exists z, z ∈ ([] : List MemoryId) ∧ Relation.ReflTransGen (CycleSearch.Next
        (successors g (fun t => decide (t ∈ edgeTypes)))) z y := by
    intro y
    constructor
    · intro hy
      cases hy
    · rintro ⟨z, hz, _⟩
      cases hz
  rw [hcycles, CycleSearch.searchAll_cycles_iff hnone (hsearch _ (Nat.le_refl _))]
  constructor
  · rintro (hempty | hfresh)
    · exact absurd rfl hempty
    · exact hfresh
  · exact Or.inr

/-- Where there is a cycle, one is returned exactly when some node that no node registered
before it leads to starts a search that comes to expand a node of a cycle before it has marked
any other node of that cycle. -/
theorem detectCycles_complete_iff (g : CsrGraph F) (edgeTypes : List EdgeType) :
    (HasCycle g edgeTypes -> detectCycles g edgeTypes ≠ []) <->
      (HasCycle g edgeTypes -> CycleSearch.SomeMeetsFresh
        (successors g (fun t => decide (t ∈ edgeTypes))) [] g.nodeIds) :=
  imp_congr_right (fun _ => detectCycles_ne_nil_iff g edgeTypes)

/-- In particular one is returned when a node on a cycle is reached from no node registered
before it. -/
theorem detectCycles_of_unreached {g : CsrGraph F} {edgeTypes : List EdgeType}
    {pre post cycle : List MemoryId} {x : MemoryId} (hsplit : g.nodeIds = pre ++ x :: post)
    (hfirst : forall y, y ∈ pre -> ¬ Relation.ReflTransGen (LinksOver g edgeTypes) y x)
    (hcycle : DirectedCycle g edgeTypes (x :: cycle)) : detectCycles g edgeTypes ≠ [] := by
  rw [detectCycles_ne_nil_iff]
  refine ⟨pre, x, post, hsplit, ?_, _, CycleSearch.Reached.start,
    (x, [x]), [], cycle, rfl, isCycle_iff_directedCycle.mpr hcycle, ?_⟩
  · intro y hy hreach
    refine hfirst y hy (hreach.lift id ?_)
    intro _ _ hstep
    exact mem_successors_over.mp hstep
  · intro y hy hmem
    rw [List.mem_singleton.mp hmem] at hy
    exact (List.nodup_cons.mp hcycle.nodup).1 hy

/-- Two nodes on a cycle, both reached from the node registered first. -/
def enteredTwice : CsrGraph Rat :=
  GraphOp.run CsrGraph.new
    [linkOf 1 2 EdgeType.caused, linkOf 1 3 EdgeType.caused, linkOf 2 3 EdgeType.caused,
      linkOf 3 2 EdgeType.caused]

theorem detectCycles_misses_cycle :
    DirectedCycle enteredTwice [EdgeType.caused] [⟨2⟩, ⟨3⟩] ∧
      detectCycles enteredTwice [EdgeType.caused] = [] := by
  refine ⟨isCycle_iff_directedCycle.mp ⟨by decide, by decide, ?_, ?_⟩, by decide⟩
  · rw [List.isChain_pair]
    decide
  · intro first last hfirst hlast
    cases hfirst
    cases hlast
    decide

end Graph
end MenteDb
