import MenteDb.Graph.Distances

/-!
# Strengthening an edge

Strengthening appends a copy of the edge with a larger weight and leaves the edge itself
where it is.  Compaction keeps both, in their order, so that the next call finds the
original edge again: repeated calls add copies and never a larger weight.
-/

namespace MenteDb
namespace Graph

open Foundation

variable {F : Type}

/-- The edges from one node to another, first to last. -/
def edgesBetween (g : CsrGraph F) (source target : MemoryId) : List (StoredEdge F) :=
  ((g.outgoing source).filter (fun n => decide (n.1 = target))).map Prod.snd

def strengthened [Scalar F] (e : StoredEdge F) (delta : F) : StoredEdge F :=
  { e with weight := min (e.weight + delta) 1 }

/-!
## One call
-/

theorem outgoing_pushDelta {g : CsrGraph F} {source target : MemoryId} {i j : Nat}
    (data : StoredEdge F) (hi : g.idToIdx.find? source = some i)
    (hj : g.idxToId[j]? = some target) :
    ({ g with deltaEdges := g.deltaEdges ++
        [{ sourceIdx := i, targetIdx := j, data := data }] } : CsrGraph F).outgoing source =
      g.outgoing source ++ [(target, data)] := by
  unfold CsrGraph.outgoing
  simp only [hi]
  unfold CsrGraph.outgoingByIdx
  rw [List.filterMap_append, ← List.append_assoc]
  simp only [List.filterMap_cons, List.filterMap_nil, if_true, hj, Option.map_some]
  rfl

theorem find?_of_edgesBetween {g : CsrGraph F} {source target : MemoryId} {e : StoredEdge F}
    {rest : List (StoredEdge F)} (h : edgesBetween g source target = e :: rest) :
    (g.outgoing source).find? (fun n => decide (n.1 = target)) = some (target, e) := by
  unfold edgesBetween at h
  rw [← List.head?_filter]
  cases hfilter : (g.outgoing source).filter (fun n => decide (n.1 = target)) with
  | nil =>
      rw [hfilter] at h
      cases h
  | cons n more =>
      rw [hfilter, List.map_cons] at h
      have hn : n ∈ (g.outgoing source).filter (fun n => decide (n.1 = target)) := by
        rw [hfilter]
        exact List.mem_cons_self
      have htarget : n.1 = target := decide_eq_true_iff.mp (List.mem_filter.mp hn).2
      rw [List.head?_cons, ← htarget, ← (List.cons.inj h).1]

/-- A call with an edge to strengthen is one more edge, at the end. -/
theorem strengthenEdge_adds [Scalar F] {g : CsrGraph F}
    {G : Multigraph MemoryId (StoredEdge F)} (h : g.Represents G) {source target : MemoryId}
    {e : StoredEdge F} {rest : List (StoredEdge F)}
    (hedges : edgesBetween g source target = e :: rest) (delta : F) :
    (g.strengthenEdge source target delta).Represents
        { G with edges := (source, target, strengthened e delta) ::ₘ G.edges } ∧
      edgesBetween (g.strengthenEdge source target delta) source target =
        e :: rest ++ [strengthened e delta] := by
  have hfind := find?_of_edgesBetween hedges
  have hmem : (source, target, e) ∈ G.edges :=
    (mem_outgoing_iff h).mp (List.mem_of_find?_eq_some hfind)
  rcases h with ⟨base, hpictures⟩
  rcases hpictures.endpoints_registered hmem with ⟨⟨i, hi⟩, ⟨j, hj⟩⟩
  have hstrengthen : g.strengthenEdge source target delta =
      { g with deltaEdges := g.deltaEdges ++
          [{ sourceIdx := i, targetIdx := j, data := strengthened e delta }] } := by
    unfold CsrGraph.strengthenEdge
    simp only [hfind, CsrGraph.addNode_of_find?_some hi, CsrGraph.addNode_of_find?_some hj]
    rfl
  rw [hstrengthen]
  refine ⟨⟨base, hpictures.pushDelta (strengthened e delta) hi hj⟩, ?_⟩
  unfold edgesBetween at hedges ⊢
  rw [outgoing_pushDelta _ hi (hpictures.layout.registered target j hj), List.filter_append,
    List.map_append, hedges]
  simp

/-!
## Many calls
-/

inductive StrengthenStep where
  | strengthen
  | compact
  deriving DecidableEq

def strengthenStep [Scalar F] (source target : MemoryId) (delta : F) (g : CsrGraph F) :
    StrengthenStep -> CsrGraph F
  | StrengthenStep.strengthen => g.strengthenEdge source target delta
  | StrengthenStep.compact => g.compact

def strengthenRun [Scalar F] (source target : MemoryId) (delta : F) (g : CsrGraph F)
    (steps : List StrengthenStep) : CsrGraph F :=
  steps.foldl (strengthenStep source target delta) g

theorem edgesBetween_compact [Scalar F] {g : CsrGraph F}
    {G : Multigraph MemoryId (StoredEdge F)} (h : g.Represents G)
    (hbound : G.edges.card < u32Size) (source target : MemoryId) :
    edgesBetween g.compact source target = edgesBetween g source target := by
  rcases h with ⟨base, hpictures⟩
  unfold edgesBetween
  rw [hpictures.compact_outgoing hbound]

/-- Every call strengthens the first edge, so the copies are all alike. -/
theorem edgesBetween_strengthenRun [Scalar F] {g : CsrGraph F}
    {G : Multigraph MemoryId (StoredEdge F)} (h : g.Represents G) {source target : MemoryId}
    {e : StoredEdge F} {rest : List (StoredEdge F)}
    (hedges : edgesBetween g source target = e :: rest) (delta : F)
    (steps : List StrengthenStep)
    (hbound : G.edges.card + steps.count StrengthenStep.strengthen < u32Size) :
    edgesBetween (strengthenRun source target delta g steps) source target =
      e :: rest ++ List.replicate (steps.count StrengthenStep.strengthen)
        (strengthened e delta) := by
  induction steps generalizing g G rest with
  | nil => simpa [strengthenRun] using hedges
  | cons step steps ih =>
      show edgesBetween (strengthenRun source target delta
        (strengthenStep source target delta g step) steps) source target = _
      cases step with
      | strengthen =>
          rw [List.count_cons_self] at hbound ⊢
          have hstep := strengthenEdge_adds h hedges delta
          have hcard : ({ G with edges := (source, target, strengthened e delta) ::ₘ G.edges } :
              Multigraph MemoryId (StoredEdge F)).edges.card +
                steps.count StrengthenStep.strengthen < u32Size := by
            rw [Multiset.card_cons]
            omega
          rw [strengthenStep, ih hstep.1 hstep.2 hcard, List.replicate_succ]
          simp
      | compact =>
          have hother : (StrengthenStep.compact :: steps).count StrengthenStep.strengthen =
              steps.count StrengthenStep.strengthen := by simp
          rw [hother] at hbound ⊢
          have hsame := edgesBetween_compact h (by omega) source target
          rcases h with ⟨base, hpictures⟩
          have hcompact : g.compact.Represents G :=
            ⟨g.allEdges, hpictures.compact (by omega)⟩
          exact ih hcompact (hsame.trans hedges) hbound

/-- However often the only edge between two nodes is strengthened, it stays as it is, next
to one copy for every call; so it is at no time updated in place. -/
theorem strengthen_never_inPlace [Scalar F] {g : CsrGraph F}
    {G : Multigraph MemoryId (StoredEdge F)} (h : g.Represents G) {source target : MemoryId}
    {e : StoredEdge F} (hone : edgesBetween g source target = [e]) (delta : F)
    (steps : List StrengthenStep) (hcalls : 1 <= steps.count StrengthenStep.strengthen)
    (hbound : G.edges.card + steps.count StrengthenStep.strengthen < u32Size) :
    edgesBetween (strengthenRun source target delta g steps) source target =
        e :: List.replicate (steps.count StrengthenStep.strengthen) (strengthened e delta) ∧
      edgesBetween (strengthenRun source target delta g steps) source target ≠
        [strengthened e ((steps.count StrengthenStep.strengthen : F) * delta)] := by
  have hedges := edgesBetween_strengthenRun h hone delta steps hbound
  refine ⟨hedges, ?_⟩
  intro hinPlace
  have hlength := congrArg List.length (hinPlace.symm.trans hedges)
  simp only [List.length_append, List.length_cons, List.length_nil,
    List.length_replicate] at hlength
  omega

section Examples

def weakLink : StoredEdge Rat where
  edgeType := EdgeType.related
  weight := 1 / 2
  createdAt := 1000
  validFrom := none
  validUntil := none
  label := none

def weakLinkOps : List (GraphOp Rat) :=
  [GraphOp.addEdge (weakLink.toMemoryEdge ⟨1⟩ ⟨2⟩)]

theorem represents_weakLinkOps :
    (GraphOp.run CsrGraph.new weakLinkOps).Represents
      (GraphOp.runSpec Multigraph.empty weakLinkOps) :=
  GraphOp.run_represents CsrGraph.represents_new weakLinkOps (by decide) (by decide)

end Examples

theorem strengthen_never_inPlace_weakLinkOps :
    edgesBetween (GraphOp.run CsrGraph.new weakLinkOps) ⟨1⟩ ⟨2⟩ = [weakLink] ∧
      edgesBetween (strengthenRun ⟨1⟩ ⟨2⟩ (1 / 10) (GraphOp.run CsrGraph.new weakLinkOps)
          [StrengthenStep.strengthen, StrengthenStep.compact, StrengthenStep.strengthen])
          ⟨1⟩ ⟨2⟩ =
        [weakLink, strengthened weakLink (1 / 10), strengthened weakLink (1 / 10)] := by
  have hone : edgesBetween (GraphOp.run CsrGraph.new weakLinkOps) ⟨1⟩ ⟨2⟩ = [weakLink] := by
    decide +kernel
  have hrun := strengthen_never_inPlace represents_weakLinkOps hone (1 / 10)
    [StrengthenStep.strengthen, StrengthenStep.compact, StrengthenStep.strengthen]
    (by decide) (by decide)
  exact ⟨hone, hrun.1⟩

/-- One call and a compaction: the weaker edge is still there. -/
theorem strengthenEdge_duplicates :
    (edgesBetween (GraphOp.run CsrGraph.new weakLinkOps) ⟨1⟩ ⟨2⟩).map (·.weight) = [1 / 2] ∧
      (edgesBetween (strengthenRun ⟨1⟩ ⟨2⟩ (1 / 10) (GraphOp.run CsrGraph.new weakLinkOps)
        [StrengthenStep.strengthen, StrengthenStep.compact]) ⟨1⟩ ⟨2⟩).map (·.weight) =
          [1 / 2, 3 / 5] ∧
      edgesBetween (strengthenRun ⟨1⟩ ⟨2⟩ (1 / 10) (GraphOp.run CsrGraph.new weakLinkOps)
        [StrengthenStep.strengthen, StrengthenStep.compact]) ⟨1⟩ ⟨2⟩ ≠
          [strengthened weakLink (1 * (1 / 10))] := by
  exact ⟨by decide +kernel, by decide +kernel, by decide +kernel⟩

end Graph
end MenteDb
