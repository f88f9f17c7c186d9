import MenteDb.Foundation.Closure
import MenteDb.Graph.Distances

/-!
# Superseded and contradicting memories

What a memory supersedes, directly or through others, is found by a work list.  The search
for contradictions has a work list too, but nothing is ever put on it: it looks at the
memories joined to the first one by a single supporting edge and no further.
-/

namespace MenteDb
namespace Graph

open Foundation
open Relation

variable {F : Type}

/-- An edge of the type leads from the first memory to the second. -/
def LinksTo (g : CsrGraph F) (edgeType : EdgeType) (a b : MemoryId) : Prop :=
  exists e, (b, e) ∈ g.outgoing a ∧ e.edgeType = edgeType

/-- An edge of the type joins the two memories, in either direction. -/
def Joins (g : CsrGraph F) (edgeType : EdgeType) (a b : MemoryId) : Prop :=
  LinksTo g edgeType a b ∨ LinksTo g edgeType b a

/-!
## Superseded memories
-/

def findSupersededWithin (g : CsrGraph F) (id : MemoryId) (rounds : Nat) :
    Option (List MemoryId) :=
  Closure.loop (successors g (fun t => decide (t = EdgeType.supersedes))) rounds
    (Closure.start id)

def findSuperseded (g : CsrGraph F) (id : MemoryId) : List MemoryId :=
  (findSupersededWithin g id (g.nodeCount + 2)).getD []

theorem mem_successors_of_type {g : CsrGraph F} {edgeType : EdgeType} {a b : MemoryId} :
    b ∈ successors g (fun t => decide (t = edgeType)) a <-> LinksTo g edgeType a b := by
  rw [mem_successors]
  simp only [decide_eq_true_eq]
  rfl

instance (g : CsrGraph F) (edgeType : EdgeType) (a b : MemoryId) :
    Decidable (LinksTo g edgeType a b) :=
  decidable_of_iff _ mem_successors_of_type

instance (g : CsrGraph F) (edgeType : EdgeType) (a b : MemoryId) :
    Decidable (Joins g edgeType a b) := inferInstanceAs (Decidable (_ ∨ _))

/-- The search ends on every graph, and lists once each memory, but the first, that a chain
of superseding edges leads to. -/
theorem findSuperseded_closure (g : CsrGraph F) (id : MemoryId) :
    (forall rounds, g.nodeCount + 2 <= rounds ->
      findSupersededWithin g id rounds = some (findSuperseded g id)) ∧
    (findSuperseded g id).Nodup ∧
    forall node, node ∈ findSuperseded g id <->
      node ≠ id ∧ TransGen (LinksTo g EdgeType.supersedes) id node := by
  have hnext : Closure.Next (successors g (fun t => decide (t = EdgeType.supersedes))) =
      LinksTo g EdgeType.supersedes := by
    funext a b
    exact propext mem_successors_of_type
  have hnodes : forall y, ReflTransGen (Closure.Next (successors g
      (fun t => decide (t = EdgeType.supersedes)))) id y -> y ∈ id :: g.nodeIds := by
    intro y hy
    rcases hy.cases_tail with heq | ⟨z, _, hz⟩
    · rw [heq]
      exact List.mem_cons_self
    · exact List.mem_cons_of_mem id (successors_subset_nodeIds g _ z hz)
  have hcount : (id :: g.nodeIds).length < g.nodeCount + 2 := Nat.lt_succ_self _
  rcases Closure.search_eq_some hnodes hcount with ⟨found, hsearch, hnodup, hfound⟩
  have hresult : findSuperseded g id = found := by
    unfold findSuperseded findSupersededWithin
    rw [hsearch]
    rfl
  rw [hresult]
  refine ⟨?_, hnodup, ?_⟩
  · intro rounds hrounds
    exact Closure.loop_mono hrounds hsearch
  · intro node
    rw [hfound, hnext, reflTransGen_iff_eq_or_transGen]
    constructor
    · rintro ⟨hne, heq | hchain⟩
      · exact absurd heq hne
      · exact ⟨hne, hchain⟩
    · rintro ⟨hne, hchain⟩
      exact ⟨hne, Or.inr hchain⟩

/-!
## Contradictions
-/

structure ContradictionState where
  contradictions : List MemoryId
  visited : List MemoryId

def recordContradiction (s : ContradictionState) (n : MemoryId × StoredEdge F) :
    ContradictionState :=
  if n.2.edgeType = EdgeType.contradicts then
    { contradictions := s.contradictions.insert n.1
      visited := s.visited.insert n.1 }
  else s

/-- What a memory contradicts, if it supports or is supported and is met for the first
time. -/
def examineSupport (g : CsrGraph F) (counts : MemoryId -> Bool) (s : ContradictionState)
    (n : MemoryId × StoredEdge F) : ContradictionState :=
  if n.2.edgeType = EdgeType.supports ∧ n.1 ∉ s.visited then
    { contradictions := (g.outgoing n.1).foldl (fun found e2 =>
        if e2.2.edgeType = EdgeType.contradicts ∧ counts e2.1 then found.insert e2.1
        else found) s.contradictions
      visited := s.visited.insert n.1 }
  else s

/-- The loop over the queue, onto which its body puts nothing. -/
def supportLoop (g : CsrGraph F) (id : MemoryId) :
    List MemoryId -> ContradictionState -> ContradictionState
  | [], s => s
  | node :: queue, s =>
      let s := (g.incoming node).foldl
        (examineSupport g (fun target => decide (target ≠ id))) s
      -- what a supported memory contradicts is not compared with the first one
      let s := (g.outgoing node).foldl (examineSupport g (fun _ => true)) s
      supportLoop g id queue s

def findContradictions (g : CsrGraph F) (id : MemoryId) : List MemoryId :=
  let s := (g.outgoing id).foldl recordContradiction { contradictions := [], visited := [id] }
  let s := (g.incoming id).foldl recordContradiction s
  (supportLoop g id [id] s).contradictions

/-- A listed edge of the type leads to the memory. -/
def Lists (neighbors : List (MemoryId × StoredEdge F)) (edgeType : EdgeType) (id : MemoryId) :
    Prop :=
  exists e, (id, e) ∈ neighbors ∧ e.edgeType = edgeType

theorem lists_cons {n : MemoryId × StoredEdge F} {rest : List (MemoryId × StoredEdge F)}
    {edgeType : EdgeType} {id : MemoryId} :
    Lists (n :: rest) edgeType id <->
      (n.1 = id ∧ n.2.edgeType = edgeType) ∨ Lists rest edgeType id := by
  unfold Lists
  constructor
  · rintro ⟨e, hmem, htype⟩
    rcases List.mem_cons.mp hmem with heq | hrest
    · rw [← heq]
      exact Or.inl ⟨rfl, htype⟩
    · exact Or.inr ⟨e, hrest, htype⟩
  · rintro (⟨hid, htype⟩ | ⟨e, hmem, htype⟩)
    · rw [← hid]
      exact ⟨n.2, List.mem_cons_self, htype⟩
    · exact ⟨e, List.mem_cons_of_mem n hmem, htype⟩

theorem mem_foldl_recordContradiction {neighbors : List (MemoryId × StoredEdge F)}
    {s : ContradictionState} {id : MemoryId} :
    (id ∈ (neighbors.foldl recordContradiction s).contradictions <->
      id ∈ s.contradictions ∨ Lists neighbors EdgeType.contradicts id) ∧
    (id ∈ (neighbors.foldl recordContradiction s).visited <->
      id ∈ s.visited ∨ Lists neighbors EdgeType.contradicts id) := by
  induction neighbors generalizing s with
  | nil => simp [Lists]
  | cons n rest ih =>
      rw [List.foldl_cons, ih.1, ih.2, lists_cons]
      by_cases htype : n.2.edgeType = EdgeType.contradicts
      · have hrecord : recordContradiction s n =
            { contradictions := s.contradictions.insert n.1
              visited := s.visited.insert n.1 } := if_pos htype
        rw [hrecord, List.mem_insert_iff, List.mem_insert_iff]
        simp only [htype, and_true, eq_comm, or_assoc, or_left_comm]
      · have hskip : recordContradiction s n = s := if_neg htype
        rw [hskip]
        simp only [htype, and_false, false_or, and_self]

theorem mem_foldl_contradicted {neighbors : List (MemoryId × StoredEdge F)}
    {counts : MemoryId -> Bool} {found : List MemoryId} {id : MemoryId} :
    id ∈ neighbors.foldl (fun found e2 =>
        if e2.2.edgeType = EdgeType.contradicts ∧ counts e2.1 then found.insert e2.1
        else found) found <->
      id ∈ found ∨ (Lists neighbors EdgeType.contradicts id ∧ counts id = true) := by
  induction neighbors generalizing found with
  | nil => simp [Lists]
  | cons n rest ih =>
      rw [List.foldl_cons, ih, lists_cons]
      by_cases hcounts : n.2.edgeType = EdgeType.contradicts ∧ counts n.1 = true
      · rw [if_pos hcounts, List.mem_insert_iff]
        constructor
        · rintro ((heq | hfound) | ⟨hrest, hid⟩)
          · rw [heq]
            exact Or.inr ⟨Or.inl ⟨rfl, hcounts.1⟩, hcounts.2⟩
          · exact Or.inl hfound
          · exact Or.inr ⟨Or.inr hrest, hid⟩
        · rintro (hfound | ⟨⟨heq, _⟩ | hrest, hid⟩)
          · exact Or.inl (Or.inr hfound)
          · exact Or.inl (Or.inl heq.symm)
          · exact Or.inr ⟨hrest, hid⟩
      · rw [if_neg hcounts]
        constructor
        · rintro (hfound | ⟨hrest, hid⟩)
          · exact Or.inl hfound
          · exact Or.inr ⟨Or.inr hrest, hid⟩
        · rintro (hfound | ⟨⟨heq, htype⟩ | hrest, hid⟩)
          · exact Or.inl hfound
          · rw [← heq] at hid
            exact absurd ⟨htype, hid⟩ hcounts
          · exact Or.inr ⟨hrest, hid⟩

/-- The first look at a memory counts, whichever of its edges leads to it. -/
theorem mem_foldl_examineSupport {g : CsrGraph F} {counts : MemoryId -> Bool}
    {neighbors : List (MemoryId × StoredEdge F)} {s : ContradictionState} {id : MemoryId} :
    (id ∈ (neighbors.foldl (examineSupport g counts) s).contradictions <->
      id ∈ s.contradictions ∨ (counts id = true ∧ exists m, Lists neighbors EdgeType.supports m ∧
        m ∉ s.visited ∧ LinksTo g EdgeType.contradicts m id)) ∧
    (id ∈ (neighbors.foldl (examineSupport g counts) s).visited <->
      id ∈ s.visited ∨ Lists neighbors EdgeType.supports id) := by
  induction neighbors generalizing s with
  | nil => simp [Lists]
  | cons n rest ih =>
      rw [List.foldl_cons, ih.1, ih.2, lists_cons]
      simp only [lists_cons]
      by_cases hexamined : n.2.edgeType = EdgeType.supports ∧ n.1 ∉ s.visited
      · have hexamine : examineSupport g counts s n =
            { contradictions := (g.outgoing n.1).foldl (fun found e2 =>
                if e2.2.edgeType = EdgeType.contradicts ∧ counts e2.1 then found.insert e2.1
                else found) s.contradictions
              visited := s.visited.insert n.1 } := if_pos hexamined
        rw [hexamine, mem_foldl_contradicted, List.mem_insert_iff]
        constructor
        · constructor
          · rintro ((hold | ⟨hlinks, hcounts⟩) | ⟨hcounts, m, hm, hnew, hlinks⟩)
            · exact Or.inl hold
            · exact Or.inr ⟨hcounts, n.1, Or.inl ⟨rfl, hexamined.1⟩, hexamined.2, hlinks⟩
            · exact Or.inr ⟨hcounts, m, Or.inr hm,
                fun hseen => hnew (List.mem_insert_of_mem hseen), hlinks⟩
          · rintro (hold | ⟨hcounts, m, ⟨heq, _⟩ | hm, hnew, hlinks⟩)
            · exact Or.inl (Or.inl hold)
            · rw [← heq] at hlinks
              exact Or.inl (Or.inr ⟨hlinks, hcounts⟩)
            · by_cases hsame : m = n.1
              · rw [hsame] at hlinks
                exact Or.inl (Or.inr ⟨hlinks, hcounts⟩)
              · refine Or.inr ⟨hcounts, m, hm, ?_, hlinks⟩
                rw [List.mem_insert_iff]
                rintro (heq | hseen)
                · exact hsame heq
                · exact hnew hseen
        · simp only [hexamined.1, and_true, eq_comm, or_assoc, or_left_comm]
      · have hskip : examineSupport g counts s n = s := if_neg hexamined
        rw [hskip]
        have hseen : n.2.edgeType = EdgeType.supports -> n.1 ∈ s.visited := by
          intro htype
          by_contra hnew
          exact hexamined ⟨htype, hnew⟩
        constructor
        · constructor
          · rintro (hold | ⟨hcounts, m, hm, hnew, hlinks⟩)
            · exact Or.inl hold
            · exact Or.inr ⟨hcounts, m, Or.inr hm, hnew, hlinks⟩
          · rintro (hold | ⟨hcounts, m, ⟨heq, htype⟩ | hm, hnew, hlinks⟩)
            · exact Or.inl hold
            · exact absurd (heq ▸ hseen htype) hnew
            · exact Or.inr ⟨hcounts, m, hm, hnew, hlinks⟩
        · constructor
          · rintro (hold | hrest)
            · exact Or.inl hold
            · exact Or.inr (Or.inr hrest)
          · rintro (hold | ⟨heq, htype⟩ | hrest)
            · exact Or.inl hold
            · exact Or.inl (heq ▸ hseen htype)
            · exact Or.inr hrest

section Joined

variable {g : CsrGraph F} {G : Multigraph MemoryId (StoredEdge F)} {id : MemoryId}

theorem lists_outgoing {edgeType : EdgeType} {m : MemoryId} :
    Lists (g.outgoing id) edgeType m <-> LinksTo g edgeType id m := Iff.rfl

/-- An incoming edge of a memory is an outgoing edge of its source. -/
theorem lists_incoming (hG : g.Represents G) {edgeType : EdgeType} {m : MemoryId} :
    Lists (g.incoming id) edgeType m <-> LinksTo g edgeType m id := by
  unfold Lists LinksTo
  simp only [mem_incoming_iff hG, mem_outgoing_iff hG]

/-- The search finds what contradicts the memory or is contradicted by it, and what is
contradicted by a memory one supporting edge away that does neither. -/
theorem mem_findContradictions (hG : g.Represents G) {t : MemoryId} :
    t ∈ findContradictions g id <->
      Joins g EdgeType.contradicts id t ∨
        exists m, Joins g EdgeType.supports id m ∧ m ≠ id ∧
          ¬ Joins g EdgeType.contradicts id m ∧ LinksTo g EdgeType.contradicts m t := by
  have hdirect : forall m, (m ∈ ((g.incoming id).foldl recordContradiction
      ((g.outgoing id).foldl recordContradiction
        { contradictions := [], visited := [id] })).visited <->
        m = id ∨ Joins g EdgeType.contradicts id m) := by
    intro m
    rw [mem_foldl_recordContradiction.2, mem_foldl_recordContradiction.2, lists_outgoing,
      lists_incoming hG, List.mem_singleton, or_assoc]
    rfl
  unfold findContradictions
  simp only [supportLoop]
  rw [mem_foldl_examineSupport.1, mem_foldl_examineSupport.1, mem_foldl_recordContradiction.1,
    mem_foldl_recordContradiction.1]
  simp only [mem_foldl_examineSupport.2, hdirect, lists_outgoing, lists_incoming hG,
    List.not_mem_nil, false_or, not_or, decide_eq_true_eq, true_and, ne_eq]
  constructor
  · rintro ((hjoins | ⟨_, m, hm, ⟨hne, hfree⟩, hlinks⟩) | ⟨m, hm, ⟨⟨hne, hfree⟩, _⟩, hlinks⟩)
    · exact Or.inl hjoins
    · exact Or.inr ⟨m, Or.inr hm, hne, hfree, hlinks⟩
    · exact Or.inr ⟨m, Or.inl hm, hne, hfree, hlinks⟩
  · rintro (hjoins | ⟨m, hm, hne, hfree, hlinks⟩)
    · exact Or.inl (Or.inl hjoins)
    · -- a memory that contradicts the first one has been visited as such
      have ht : t ≠ id := by
        intro heq
        rw [heq] at hlinks
        exact hfree (Or.inr hlinks)
      by_cases hin : LinksTo g EdgeType.supports m id
      · exact Or.inl (Or.inr ⟨ht, m, hin, ⟨hne, hfree⟩, hlinks⟩)
      · exact Or.inr ⟨m, hm.resolve_right hin, ⟨⟨hne, hfree⟩, hin⟩, hlinks⟩

end Joined

/-- What is contradicted along chains of supporting edges is found, and never the memory
itself. -/
structure FollowsSupport (g : CsrGraph F) (id : MemoryId) : Prop where
  direct : forall t, Joins g EdgeType.contradicts id t -> t ∈ findContradictions g id
  chains : forall m t, ReflTransGen (Joins g EdgeType.supports) id m ->
    LinksTo g EdgeType.contradicts m t -> t ≠ id -> t ∈ findContradictions g id
  itself : id ∉ findContradictions g id

/-- The memory does not contradict itself, and whatever a chain of supporting edges leads to
a contradiction with is also met next to the memory: it contradicts it or is contradicted by
it, or by a memory one supporting edge away that is in no contradiction with the first. -/
structure MetNearby (g : CsrGraph F) (id : MemoryId) : Prop where
  consistent : ¬ LinksTo g EdgeType.contradicts id id
  nearby : forall m t, ReflTransGen (Joins g EdgeType.supports) id m ->
    LinksTo g EdgeType.contradicts m t -> t ≠ id ->
      Joins g EdgeType.contradicts id t ∨
        exists m', Joins g EdgeType.supports id m' ∧ ¬ Joins g EdgeType.contradicts id m' ∧
          LinksTo g EdgeType.contradicts m' t

theorem followsSupport_iff_metNearby {g : CsrGraph F} {G : Multigraph MemoryId (StoredEdge F)}
    (hG : g.Represents G) (id : MemoryId) : FollowsSupport g id <-> MetNearby g id := by
  constructor
  · intro h
    refine ⟨?_, ?_⟩
    · intro hself
      exact h.itself (h.direct id (Or.inl hself))
    · intro m t hm hlinks hne
      rcases (mem_findContradictions hG).mp (h.chains m t hm hlinks hne) with
        hjoins | ⟨m', hm', _, hfree, hlinks'⟩
      · exact Or.inl hjoins
      · exact Or.inr ⟨m', hm', hfree, hlinks'⟩
  · intro h
    refine ⟨?_, ?_, ?_⟩
    · intro t hjoins
      exact (mem_findContradictions hG).mpr (Or.inl hjoins)
    · intro m t hm hlinks hne
      rw [mem_findContradictions hG]
      rcases h.nearby m t hm hlinks hne with hjoins | ⟨m', hm', hfree, hlinks'⟩
      · exact Or.inl hjoins
      · by_cases hself : m' = id
        · rw [hself] at hlinks'
          exact Or.inl (Or.inl hlinks')
        · exact Or.inr ⟨m', hm', hself, hfree, hlinks'⟩
    · intro hfound
      rcases (mem_findContradictions hG).mp hfound with hjoins | ⟨m, _, _, hfree, hlinks⟩
      · rcases hjoins with hself | hself
        · exact h.consistent hself
        · exact h.consistent hself
      · exact hfree (Or.inr hlinks)

/-- The second memory supports the first one and contradicts the third. -/
def supportedRun : List (GraphOp Rat) :=
  [linkOf 2 1 EdgeType.supports, linkOf 2 3 EdgeType.contradicts]

theorem followsSupport_iff_metNearby_supportedRun :
    FollowsSupport (GraphOp.run CsrGraph.new supportedRun) ⟨1⟩ ∧
      (⟨3⟩ : MemoryId) ∈ findContradictions (GraphOp.run CsrGraph.new supportedRun) ⟨1⟩ := by
  have hG : (GraphOp.run CsrGraph.new supportedRun).Represents _ :=
    GraphOp.run_represents CsrGraph.represents_new supportedRun (by decide) (by decide)
  have hchain : forall m, ReflTransGen
      (Joins (GraphOp.run CsrGraph.new supportedRun) EdgeType.supports) ⟨1⟩ m ->
      m = ⟨1⟩ ∨ m = ⟨2⟩ := by
    intro m hm
    have hjoined : forall x y, x ∈ [(⟨1⟩ : MemoryId), ⟨2⟩] ->
        Joins (GraphOp.run CsrGraph.new supportedRun) EdgeType.supports x y ->
        y ∈ [(⟨1⟩ : MemoryId), ⟨2⟩] := by
      rintro x y hx (hout | hin)
      · rw [← mem_successors_of_type] at hout
        have hall : forall x, x ∈ [(⟨1⟩ : MemoryId), ⟨2⟩] -> successors
            (GraphOp.run CsrGraph.new supportedRun) (fun t => decide (t = EdgeType.supports)) x ⊆
            [(⟨1⟩ : MemoryId), ⟨2⟩] := by decide
        exact hall x hx hout
      · rcases (lists_incoming hG).mpr hin with ⟨e, he, _⟩
        have hall : forall x, x ∈ [(⟨1⟩ : MemoryId), ⟨2⟩] ->
            ((GraphOp.run CsrGraph.new supportedRun).incoming x).map Prod.fst ⊆
            [(⟨1⟩ : MemoryId), ⟨2⟩] := by decide
        exact hall x hx (List.mem_map_of_mem he)
    have hmem : m ∈ [(⟨1⟩ : MemoryId), ⟨2⟩] := by
      induction hm with
      | refl => exact List.mem_cons_self
      | tail _ hstep ih => exact hjoined _ _ ih hstep
    simpa using hmem
  refine ⟨(followsSupport_iff_metNearby hG ⟨1⟩).mpr ⟨by decide, ?_⟩, by decide⟩
  intro m t hm hlinks _
  rcases hchain m hm with heq | heq
  · rw [heq] at hlinks
    exact Or.inl (Or.inl hlinks)
  · rw [heq] at hlinks
    exact Or.inr ⟨⟨2⟩, by decide, by decide, hlinks⟩

/-- The third memory supports the first through the second, and contradicts the fourth. -/
def supportChain : CsrGraph Rat :=
  GraphOp.run CsrGraph.new [linkOf 2 1 EdgeType.supports, linkOf 3 2 EdgeType.supports,
    linkOf 3 4 EdgeType.contradicts]

theorem findContradictions_misses_chain :
    findContradictions supportChain ⟨1⟩ = [] ∧ ¬ FollowsSupport supportChain ⟨1⟩ := by
  have hnone : findContradictions supportChain ⟨1⟩ = [] := by decide
  have hfirst : Joins supportChain EdgeType.supports ⟨1⟩ ⟨2⟩ := by decide
  have hsecond : Joins supportChain EdgeType.supports ⟨2⟩ ⟨3⟩ := by decide
  refine ⟨hnone, ?_⟩
  intro h
  have hfound := h.chains ⟨3⟩ ⟨4⟩ ((ReflTransGen.single hfirst).tail hsecond) (by decide)
    (by decide)
  rw [hnone] at hfound
  cases hfound

end Graph
end MenteDb
