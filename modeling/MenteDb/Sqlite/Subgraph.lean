import MenteDb.Sqlite.Memory
import MenteDb.Foundation.Bfs
import Mathlib.Data.List.Dedup

/-!
# Traversal inside the database

The neighbours of a memory are read edge by edge.  A subgraph is one recursive query:
its base holds the roots at depth zero, and each round joins the rows of the round before
with the edges.  The query repeats rows, never marks them, and ends at the depth bound.
-/

namespace MenteDb
namespace Sqlite

open Foundation

variable {F : Type}

inductive Direction where
  | outgoing
  | incoming
  | both
deriving DecidableEq, Repr

namespace Tables

def touches (id : MemoryId) (row : EdgeRow F) : Direction -> Bool
  | Direction.outgoing => decide (row.source = id)
  | Direction.incoming => decide (row.target = id)
  | Direction.both => decide (row.source = id) || decide (row.target = id)

def edgesFor (t : Tables F) (id : MemoryId) (dir : Direction) : List (MemoryEdge F) :=
  (t.edges.filter (fun row => touches id row dir)).map edgeOfRow

def typeOk (edgeTypes : Option (List EdgeType)) (edge : MemoryEdge F) : Bool :=
  match edgeTypes with
  | none => true
  | some ts => decide (edge.edgeType ∈ ts)

def otherEnd (id : MemoryId) (edge : MemoryEdge F) : MemoryId :=
  if edge.source = id then edge.target else edge.source

/-- The other end of an edge, unless it is listed already. -/
def pushNeighbor (id : MemoryId) (out : List MemoryId) (edge : MemoryEdge F) : List MemoryId :=
  if otherEnd id edge ∈ out then out else out ++ [otherEnd id edge]

def neighbors (t : Tables F) (id : MemoryId) (edgeTypes : Option (List EdgeType))
    (dir : Direction) : List MemoryId :=
  ((t.edgesFor id dir).filter (typeOk edgeTypes)).foldl (pushNeighbor id) []

/-- The condition of the recursive arm on the type: none for an empty list. -/
def typeFilter (edgeTypes : Option (List EdgeType)) (row : EdgeRow F) : Bool :=
  match edgeTypes with
  | some ts => ts.isEmpty || decide (row.edgeType ∈ ts.map edgeTypeStr)
  | none => true

/-- The targets the recursive arm joins. -/
def joined (t : Tables F) (edgeTypes : Option (List EdgeType)) (id : MemoryId) : List MemoryId :=
  (t.edges.filter (fun e => decide (e.source = id) && typeFilter edgeTypes e)).map EdgeRow.target

/-- Rows of this depth are expanded.  The bound is bound as a signed integer. -/
def expandsDepth (maxDepth : UInt64) (depth : Nat) : Bool :=
  decide ((depth : Int) < maxDepth.toInt64.toInt)

/-- The labels bound after the roots and the depth. -/
def boundLabels : Option (List EdgeType) -> List String
  | none => []
  | some ts => ts.map edgeTypeStr

/-- One term per root and one for the recursive arm, one variable per root, label and for
the depth. -/
def Prepares (limits : Limits) (roots : List MemoryId) (edgeTypes : Option (List EdgeType)) :
    Prop :=
  roots.length + 1 <= limits.compoundSelect ∧
    roots.length + 1 + (boundLabels edgeTypes).length <= limits.variableNumber

instance (limits : Limits) (roots : List MemoryId) (edgeTypes : Option (List EdgeType)) :
    Decidable (Prepares limits roots edgeTypes) :=
  inferInstanceAs (Decidable (_ ∧ _))

def subgraph (limits : Limits) (t : Tables F) (roots : List MemoryId) (maxDepth : UInt64)
    (edgeTypes : Option (List EdgeType)) : Except MenteError (List MemoryId) :=
  if roots.isEmpty then Except.ok []
  else if Prepares limits roots edgeTypes then
    Except.ok ((Bfs.levels (t.joined edgeTypes) (expandsDepth maxDepth) roots
      (maxDepth.toNat + 1)).map Prod.fst).dedup
  else Except.error (MenteError.storage limits.refusal)

/-!
## Neighbours
-/

theorem mem_foldl_pushNeighbor {id x : MemoryId} {edges : List (MemoryEdge F)}
    {out : List MemoryId} :
    x ∈ edges.foldl (pushNeighbor id) out <->
      x ∈ out ∨ exists e, e ∈ edges ∧ x = otherEnd id e := by
  induction edges generalizing out with
  | nil => simp
  | cons e rest ih =>
      have hpush : x ∈ pushNeighbor id out e <->
          x ∈ out ∨ x = otherEnd id e := by
        unfold pushNeighbor
        split
        · rename_i hlisted
          constructor
          · exact Or.inl
          · rintro (hx | hx)
            · exact hx
            · rw [hx]
              exact hlisted
        · rw [List.mem_append, List.mem_singleton]
      rw [List.foldl_cons, ih, hpush]
      simp only [List.mem_cons, exists_eq_or_imp, or_assoc]

theorem mem_neighbors_outgoing {t : Tables F} {id x : MemoryId}
    {edgeTypes : Option (List EdgeType)} :
    x ∈ t.neighbors id edgeTypes Direction.outgoing <->
      exists row, row ∈ t.edges ∧ row.source = id ∧ typeOk edgeTypes (edgeOfRow row) = true ∧
        row.target = x := by
  unfold neighbors edgesFor
  rw [mem_foldl_pushNeighbor]
  constructor
  · rintro (hnil | ⟨e, he, hx⟩)
    · cases hnil
    · rcases List.mem_filter.mp he with ⟨hmem, htype⟩
      rcases List.mem_map.mp hmem with ⟨row, hrow, heq⟩
      rcases List.mem_filter.mp hrow with ⟨hedge, hsource⟩
      have hfrom : row.source = id := of_decide_eq_true hsource
      subst heq
      rw [otherEnd, if_pos (show (edgeOfRow row).source = id from hfrom)] at hx
      exact ⟨row, hedge, hfrom, htype, hx.symm⟩
  · rintro ⟨row, hedge, hfrom, htype, hx⟩
    refine Or.inr ⟨edgeOfRow row, List.mem_filter.mpr ⟨List.mem_map.mpr ⟨row, ?_, rfl⟩, htype⟩, ?_⟩
    · exact List.mem_filter.mpr ⟨hedge, decide_eq_true hfrom⟩
    · rw [otherEnd, if_pos (show (edgeOfRow row).source = id from hfrom)]
      exact hx.symm

theorem mem_joined {t : Tables F} {id x : MemoryId} {edgeTypes : Option (List EdgeType)} :
    x ∈ t.joined edgeTypes id <->
      exists row, row ∈ t.edges ∧ row.source = id ∧ typeFilter edgeTypes row = true ∧
        row.target = x := by
  simp only [joined, List.mem_map, List.mem_filter, Bool.and_eq_true, decide_eq_true_eq, and_assoc]

/-!
## The filter as text and as types
-/

/-- Every edge was written with the label of its type. -/
def EdgesWritten (t : Tables F) : Prop :=
  forall row, row ∈ t.edges -> exists edge, row = rowOfEdge edge

theorem edgeTypeStr_injective {a b : EdgeType} (h : edgeTypeStr a = edgeTypeStr b) : a = b := by
  rw [← parseEdgeType_edgeTypeStr a, h, parseEdgeType_edgeTypeStr]

theorem typeFilter_eq_typeOk {edgeTypes : Option (List EdgeType)}
    (hfilter : edgeTypes ≠ some []) (edge : MemoryEdge F) :
    typeFilter edgeTypes (rowOfEdge edge) = typeOk edgeTypes (edgeOfRow (rowOfEdge edge)) := by
  rw [edgeOfRow_rowOfEdge]
  cases edgeTypes with
  | none => rfl
  | some ts =>
      cases ts with
      | nil => exact absurd rfl hfilter
      | cons first rest =>
          show (false || decide (edgeTypeStr edge.edgeType ∈ (first :: rest).map edgeTypeStr)) =
            decide (edge.edgeType ∈ first :: rest)
          rw [Bool.false_or]
          apply decide_eq_decide.mpr
          constructor
          · intro h
            rcases List.mem_map.mp h with ⟨ty, hty, heq⟩
            rw [← edgeTypeStr_injective heq]
            exact hty
          · intro h
            exact List.mem_map.mpr ⟨edge.edgeType, h, rfl⟩

/-- Apart from an empty list of types, the join and the neighbours agree. -/
theorem mem_joined_iff_mem_neighbors {t : Tables F} (hwritten : t.EdgesWritten)
    {edgeTypes : Option (List EdgeType)} (hfilter : edgeTypes ≠ some []) {id x : MemoryId} :
    x ∈ t.joined edgeTypes id <-> x ∈ t.neighbors id edgeTypes Direction.outgoing := by
  rw [mem_joined, mem_neighbors_outgoing]
  constructor
  · rintro ⟨row, hrow, hsource, htype, hx⟩
    rcases hwritten row hrow with ⟨edge, hedge⟩
    rw [hedge, typeFilter_eq_typeOk hfilter, ← hedge] at htype
    exact ⟨row, hrow, hsource, htype, hx⟩
  · rintro ⟨row, hrow, hsource, htype, hx⟩
    rcases hwritten row hrow with ⟨edge, hedge⟩
    rw [hedge, ← typeFilter_eq_typeOk hfilter, ← hedge] at htype
    exact ⟨row, hrow, hsource, htype, hx⟩

/-!
## The recursive query
-/

theorem expandsDepth_eq {maxDepth : UInt64} (hdepth : maxDepth.toNat < 2 ^ 63) (k : Nat) :
    expandsDepth maxDepth k = decide (k < maxDepth.toNat) := by
  have hsigned : maxDepth.toInt64.toInt = (maxDepth.toNat : Int) := by
    have hsmall : 2 * maxDepth.toBitVec.toNat < 2 ^ 64 := by
      show 2 * maxDepth.toNat < 2 ^ 64
      omega
    exact BitVec.toInt_eq_toNat_of_lt hsmall
  unfold expandsDepth
  rw [hsigned]
  apply decide_eq_decide.mpr
  exact Int.ofNat_lt

/-- The memories a walk of so many steps along the edges leads to from a root. -/
def InReach (next : MemoryId -> List MemoryId) (roots : List MemoryId) (maxDepth : UInt64)
    (x : MemoryId) : Prop :=
  exists r, r ∈ roots ∧ exists n, n <= maxDepth.toNat ∧ Bfs.Reaches next r n x

theorem subgraph_spec (limits : Limits) (t : Tables F) {roots : List MemoryId}
    (hroots : roots ≠ []) {maxDepth : UInt64} (hdepth : maxDepth.toNat < 2 ^ 63)
    (edgeTypes : Option (List EdgeType)) :
    (Prepares limits roots edgeTypes -> exists ids,
      t.subgraph limits roots maxDepth edgeTypes = Except.ok ids ∧
        forall x, x ∈ ids <-> InReach (t.joined edgeTypes) roots maxDepth x) ∧
    (¬ Prepares limits roots edgeTypes ->
      t.subgraph limits roots maxDepth edgeTypes =
        Except.error (MenteError.storage limits.refusal)) := by
  have hsome : ¬ roots.isEmpty = true := fun h => hroots (List.isEmpty_iff.mp h)
  unfold subgraph
  rw [if_neg hsome]
  constructor
  · intro hprepares
    rw [if_pos hprepares]
    refine ⟨_, rfl, ?_⟩
    intro x
    rw [List.mem_dedup]
    apply Bfs.mem_map_levels
    intro k hk
    rw [expandsDepth_eq hdepth]
    exact decide_eq_true hk
  · intro hrefused
    rw [if_neg hrefused]

/-- The query and the walks along the neighbours end in the same memories. -/
def AgreesWithNeighbors (limits : Limits) (t : Tables F) (roots : List MemoryId)
    (maxDepth : UInt64) (edgeTypes : Option (List EdgeType)) : Prop :=
  exists ids, t.subgraph limits roots maxDepth edgeTypes = Except.ok ids ∧
    forall x, x ∈ ids <->
      InReach (fun y => t.neighbors y edgeTypes Direction.outgoing) roots maxDepth x

/-- No edge leads out of the list. -/
def Closed (t : Tables F) (roots : List MemoryId) : Prop :=
  forall row, row ∈ t.edges -> row.source ∈ roots -> row.target ∈ roots

theorem inReach_congr {next next' : MemoryId -> List MemoryId}
    (h : forall y x, x ∈ next y <-> x ∈ next' y) {roots : List MemoryId} {maxDepth : UInt64}
    {x : MemoryId} : InReach next roots maxDepth x <-> InReach next' roots maxDepth x := by
  constructor
  · rintro ⟨r, hr, n, hn, hreach⟩
    exact ⟨r, hr, n, hn, hreach.mono (fun y _ hz => (h y _).mp hz)⟩
  · rintro ⟨r, hr, n, hn, hreach⟩
    exact ⟨r, hr, n, hn, hreach.mono (fun y _ hz => (h y _).mpr hz)⟩

/-- Along no edge a walk stays at its root. -/
theorem inReach_none {next : MemoryId -> List MemoryId} (h : forall y, next y = [])
    {roots : List MemoryId} {maxDepth : UInt64} {x : MemoryId} :
    InReach next roots maxDepth x <-> x ∈ roots := by
  constructor
  · rintro ⟨r, hr, n, _, hreach⟩
    cases hreach with
    | refl => exact hr
    | @step _ y _ _ hx =>
        rw [h y] at hx
        cases hx
  · intro hx
    exact ⟨x, hx, 0, Nat.zero_le _, Bfs.Reaches.refl⟩

theorem neighbors_some_nil (t : Tables F) (id : MemoryId) :
    t.neighbors id (some []) Direction.outgoing = [] := by
  apply List.eq_nil_iff_forall_not_mem.mpr
  intro x hx
  rcases mem_neighbors_outgoing.mp hx with ⟨row, _, _, htype, _⟩
  have hmem : (edgeOfRow row).edgeType ∈ ([] : List EdgeType) := of_decide_eq_true htype
  cases hmem

/-- Without a condition on the type the query stays among the roots when it takes no step
or no edge leads out of them. -/
theorem inReach_roots_iff {t : Tables F} {roots : List MemoryId} {maxDepth : UInt64} :
    (forall x, InReach (t.joined (some [])) roots maxDepth x <-> x ∈ roots) <->
      maxDepth.toNat = 0 ∨ Closed t roots := by
  constructor
  · intro h
    by_cases hzero : maxDepth.toNat = 0
    · exact Or.inl hzero
    · refine Or.inr ?_
      intro row hrow hsource
      apply (h row.target).mp
      refine ⟨row.source, hsource, 1, Nat.one_le_iff_ne_zero.mpr hzero, ?_⟩
      exact Bfs.Reaches.step Bfs.Reaches.refl (mem_joined.mpr ⟨row, hrow, rfl, rfl, rfl⟩)
  · intro h x
    constructor
    · rintro ⟨r, hr, n, hn, hreach⟩
      induction hreach with
      | refl => exact hr
      | step _ hz ih =>
          rcases h with hzero | hclosed
          · omega
          · rcases mem_joined.mp hz with ⟨row, hrow, hsource, _, htarget⟩
            rw [← htarget]
            apply hclosed row hrow
            rw [hsource]
            exact ih (Nat.le_of_succ_le hn)
    · intro hx
      exact ⟨x, hx, 0, Nat.zero_le _, Bfs.Reaches.refl⟩

/-- The query agrees with the neighbours when it can be prepared and, for an empty list of
types, when it takes no step or no edge leads out of the roots. -/
theorem subgraph_agrees_iff {limits : Limits} {t : Tables F} (hwritten : t.EdgesWritten)
    {roots : List MemoryId} (hroots : roots ≠ []) {maxDepth : UInt64}
    (hdepth : maxDepth.toNat < 2 ^ 63) {edgeTypes : Option (List EdgeType)} :
    AgreesWithNeighbors limits t roots maxDepth edgeTypes <->
      Prepares limits roots edgeTypes ∧
        (edgeTypes = some [] -> maxDepth.toNat = 0 ∨ Closed t roots) := by
  have hspec := subgraph_spec limits t hroots hdepth edgeTypes
  by_cases hprepares : Prepares limits roots edgeTypes
  · rcases hspec.1 hprepares with ⟨ids, hrun, hids⟩
    have hagrees : AgreesWithNeighbors limits t roots maxDepth edgeTypes <->
        forall x, InReach (t.joined edgeTypes) roots maxDepth x <->
          InReach (fun y => t.neighbors y edgeTypes Direction.outgoing) roots maxDepth x := by
      constructor
      · rintro ⟨ids', hrun', hids'⟩ x
        rw [hrun] at hrun'
        cases hrun'
        rw [← hids, hids']
      · intro h
        exact ⟨ids, hrun, fun x => (hids x).trans (h x)⟩
    rw [hagrees]
    by_cases hfilter : edgeTypes = some []
    · subst hfilter
      have hnone : forall x, InReach (fun y => t.neighbors y (some []) Direction.outgoing)
          roots maxDepth x <-> x ∈ roots :=
        fun x => inReach_none (fun y => neighbors_some_nil t y)
      simp only [hnone, inReach_roots_iff, hprepares, true_and, forall_const]
    · have hsame : forall x, InReach (t.joined edgeTypes) roots maxDepth x <->
          InReach (fun y => t.neighbors y edgeTypes Direction.outgoing) roots maxDepth x :=
        fun x => inReach_congr (fun y z => mem_joined_iff_mem_neighbors hwritten hfilter)
      exact ⟨fun _ => ⟨hprepares, fun h => absurd h hfilter⟩, fun _ => hsame⟩
  · constructor
    · rintro ⟨ids, hrun, _⟩
      rw [hspec.2 hprepares] at hrun
      cases hrun
    · intro h
      exact absurd h.1 hprepares

section Examples

def plainEdge (source target : MemoryId) (edgeType : EdgeType) : MemoryEdge Rat where
  source := source
  target := target
  edgeType := edgeType
  weight := 1
  createdAt := 0
  validFrom := none
  validUntil := none
  label := none

/-- Two memories that cause each other and a third related to the first. -/
def cycleTables : Tables Rat :=
  { (Tables.empty : Tables Rat) with
    edges := [plainEdge ⟨1⟩ ⟨2⟩ EdgeType.caused, plainEdge ⟨2⟩ ⟨1⟩ EdgeType.caused,
      plainEdge ⟨1⟩ ⟨3⟩ EdgeType.related].map rowOfEdge }

theorem edgesWritten_cycleTables : cycleTables.EdgesWritten := by
  intro row hrow
  rcases List.mem_map.mp hrow with ⟨edge, _, heq⟩
  exact ⟨edge, heq.symm⟩

theorem subgraph_agrees_iff_cycle :
    cycleTables.EdgesWritten ∧
      AgreesWithNeighbors Limits.default cycleTables [⟨1⟩] 5 (some [EdgeType.caused]) := by
  have hroots : ([⟨1⟩] : List MemoryId) ≠ [] := List.cons_ne_nil _ _
  have hprepares : Prepares Limits.default [⟨1⟩] (some [EdgeType.caused]) := by decide
  have hfilter : some [EdgeType.caused] = some [] ->
      (5 : UInt64).toNat = 0 ∨ Closed cycleTables [⟨1⟩] := by
    intro h
    cases h
  exact ⟨edgesWritten_cycleTables,
    (subgraph_agrees_iff edgesWritten_cycleTables hroots (by decide)).mpr ⟨hprepares, hfilter⟩⟩

/-- An empty list of types follows every edge, and five hundred roots are refused. -/
theorem subgraph_disagrees :
    ¬ AgreesWithNeighbors Limits.default cycleTables [⟨1⟩] 1 (some []) ∧
      ¬ AgreesWithNeighbors Limits.default cycleTables (List.replicate 500 ⟨1⟩) 1 none := by
  constructor
  · rintro ⟨ids, hrun, hids⟩
    have hfound : cycleTables.subgraph Limits.default [⟨1⟩] 1 (some []) =
        Except.ok [⟨1⟩, ⟨2⟩, ⟨3⟩] := by decide +kernel
    rw [hfound] at hrun
    cases hrun
    have hreach := (hids ⟨3⟩).mp (by decide)
    rw [inReach_none (fun y => neighbors_some_nil cycleTables y)] at hreach
    cases List.mem_singleton.mp hreach
  · rintro ⟨ids, hrun, _⟩
    have hroots : List.replicate 500 (⟨1⟩ : MemoryId) ≠ [] := List.cons_ne_nil _ _
    have hrefused : ¬ Prepares Limits.default (List.replicate 500 ⟨1⟩) none := by
      rintro ⟨hterms, _⟩
      rw [List.length_replicate] at hterms
      exact absurd hterms (by decide)
    rw [(subgraph_spec _ _ hroots (by decide) _).2 hrefused] at hrun
    cases hrun

end Examples

end Tables
end Sqlite
end MenteDb
