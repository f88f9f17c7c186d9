import MenteDb.Graph.Csr
import MenteDb.Foundation.Multigraph

/-!
# The graph represents a directed multigraph

The compressed rows of both directions describe one list of base edges.  A base
edge is visible while it is not masked, and every visible edge joins two
registered nodes.  This layout invariant is kept by every operation and relates
the graph to an abstract multigraph.
-/

namespace MenteDb
namespace Graph

open Foundation

variable {F : Type}

/-!
## Compressed rows
-/

/-- The storage lists the base edges row by row. -/
def CompressedStorage.Lists (c : CompressedStorage F) (transpose : Bool)
    (base : List (CsrGraph.IdxEdge F)) : Prop :=
  forall r,
    c.neighbors r =
        (base.filter (fun e => CsrGraph.rowOf transpose e == r)).map
          (CsrGraph.colOf transpose) ∧
      c.edgeDataFor r =
        (base.filter (fun e => CsrGraph.rowOf transpose e == r)).map (fun e => e.2.2)

namespace CompressedStorage

theorem lists_empty (transpose : Bool) :
    (empty : CompressedStorage F).Lists transpose [] := by
  intro r
  constructor
  · rfl
  · rfl

theorem Lists.row_eq {c : CompressedStorage F} {transpose : Bool}
    {base : List (CsrGraph.IdxEdge F)} (h : c.Lists transpose base) (r : Nat) :
    c.row r =
      (base.filter (fun e => CsrGraph.rowOf transpose e == r)).map
        (fun e => (CsrGraph.colOf transpose e, e.2.2)) := by
  rw [row, (h r).1, (h r).2, List.zip_map']

theorem slice_map {α β : Type} (c : CompressedStorage F) (f : α -> β)
    (array : List α) (r : Nat) :
    c.slice (array.map f) r = (c.slice array r).map f := by
  unfold slice
  split
  · rfl
  · simp [List.map_drop, List.map_take]

end CompressedStorage

namespace CsrGraph

/-- Building compressed rows lists exactly the given edges. -/
theorem buildCompressed_lists [Zero F] {edges : List (IdxEdge F)} {numNodes : Nat}
    {transpose : Bool} (hlen : edges.length < u32Size)
    (hrows : forall e, e ∈ edges -> rowOf transpose e < numNodes) :
    (buildCompressed edges numNodes transpose).Lists transpose edges := by
  intro r
  have hkeys : (edges.map (rowOf transpose)).length < u32Size := by simpa using hlen
  have hoff : forall q, q <= numNodes ->
      (buildCompressed edges numNodes transpose).rowOffsets.getD q 0 =
        Bucket.before (rowOf transpose) q edges := by
    intro q hq
    have hget := Bucket.offsets_getElem? hq hkeys
    rw [Bucket.before_map] at hget
    simp [buildCompressed, List.getD_eq_getElem?_getD, hget]
  have hlength :
      (buildCompressed edges numNodes transpose).rowOffsets.length = numNodes + 1 := by
    simp [buildCompressed, Bucket.offsets_length, Bucket.counts_length]
  have hslice :
      (buildCompressed edges numNodes transpose).slice
          (Bucket.layout u32Size numNodes (rowOf transpose)
            (fun e => (colOf transpose e, e.2.2)) (0, blankEdge) edges) r =
        (edges.filter (fun e => rowOf transpose e == r)).map
          (fun e => (colOf transpose e, e.2.2)) := by
    unfold CompressedStorage.slice
    rw [hlength]
    by_cases hr : r < numNodes
    · have hsize : Bucket.before (rowOf transpose) (r + 1) edges -
          Bucket.before (rowOf transpose) r edges =
            Bucket.inBucket (rowOf transpose) r edges := by
        have hsucc := Bucket.before_succ (rowOf transpose) r edges
        omega
      rw [if_neg (by omega)]
      simp only [hoff r (by omega), hoff (r + 1) (by omega), hsize]
      exact Bucket.layout_slice hlen hr
    · rw [if_pos (by omega)]
      have hnil : edges.filter (fun e => rowOf transpose e == r) = [] := by
        rw [List.filter_eq_nil_iff]
        intro e he
        have hrow := hrows e he
        simp
        omega
      rw [hnil]
      rfl
  constructor
  · show (buildCompressed edges numNodes transpose).slice
      ((Bucket.layout u32Size numNodes (rowOf transpose)
        (fun e => (colOf transpose e, e.2.2)) (0, blankEdge) edges).map Prod.fst) r = _
    rw [CompressedStorage.slice_map, hslice, List.map_map]
    rfl
  · show (buildCompressed edges numNodes transpose).slice
      ((Bucket.layout u32Size numNodes (rowOf transpose)
        (fun e => (colOf transpose e, e.2.2)) (0, blankEdge) edges).map Prod.snd) r = _
    rw [CompressedStorage.slice_map, hslice, List.map_map]
    rfl

/-!
## Layout invariant
-/

/-- An index that some registered node owns. -/
def LiveIdx (g : CsrGraph F) (idx : Nat) : Prop :=
  exists id, g.idToIdx.find? id = some idx

/-- The visible edges: base edges that are not masked, then the delta log. -/
def visible (g : CsrGraph F) (base : List (IdxEdge F)) : List (IdxEdge F) :=
  base.filter (fun e => !g.isRemoved e.1 e.2.1) ++
    g.deltaEdges.map (fun d => (d.sourceIdx, d.targetIdx, d.data))

structure Layout (g : CsrGraph F) (base : List (IdxEdge F)) : Prop where
  registered : forall id idx,
    g.idToIdx.find? id = some idx -> g.idxToId[idx]? = some id
  csr : g.csr.Lists false base
  csc : g.csc.Lists true base
  live : forall e, e ∈ g.visible base -> g.LiveIdx e.1 ∧ g.LiveIdx e.2.1

def idAt (g : CsrGraph F) (idx : Nat) : MemoryId :=
  g.idxToId.getD idx MemoryId.nil

/-- An index edge with its end points resolved. -/
def named (g : CsrGraph F) (e : IdxEdge F) : MemoryId × MemoryId × StoredEdge F :=
  (g.idAt e.1, g.idAt e.2.1, e.2.2)

namespace Layout

variable {g : CsrGraph F} {base : List (IdxEdge F)}

theorem getElem?_of_live (h : Layout g base) {idx : Nat} (hlive : g.LiveIdx idx) :
    g.idxToId[idx]? = some (g.idAt idx) := by
  rcases hlive with ⟨id, hid⟩
  have hget := h.registered id idx hid
  rw [hget, idAt, List.getD_eq_getElem?_getD, hget]
  rfl

theorem idAt_eq_iff (h : Layout g base) {id : MemoryId} {idx i : Nat}
    (hid : g.idToIdx.find? id = some idx) (hlive : g.LiveIdx i) :
    g.idAt i = id <-> i = idx := by
  rcases hlive with ⟨owner, howner⟩
  have hgeti := h.registered owner i howner
  have hati : g.idAt i = owner := by
    rw [idAt, List.getD_eq_getElem?_getD, hgeti]
    rfl
  constructor
  · intro heq
    rw [hati] at heq
    rw [heq, hid] at howner
    injection howner with hidx
    exact hidx.symm
  · intro heq
    subst heq
    have hget := h.registered id i hid
    rw [idAt, List.getD_eq_getElem?_getD, hget]
    rfl

theorem live_lt_length (h : Layout g base) {idx : Nat} (hlive : g.LiveIdx idx) :
    idx < g.idxToId.length := by
  have hget := h.getElem?_of_live hlive
  rcases List.getElem?_eq_some_iff.mp hget with ⟨hlt, _⟩
  exact hlt

theorem mem_visible_of_base {e : IdxEdge F} (hmem : e ∈ base)
    (hkeep : g.isRemoved e.1 e.2.1 = false) : e ∈ g.visible base := by
  rw [visible, List.mem_append]
  left
  simp [hmem, hkeep]

theorem mem_visible_of_delta {d : DeltaEdge F} (hmem : d ∈ g.deltaEdges) :
    (d.sourceIdx, d.targetIdx, d.data) ∈ g.visible base := by
  rw [visible, List.mem_append]
  right
  exact List.mem_map_of_mem hmem

/-!
### Reading the neighbours of a node

Both directions read the visible edges at the node's index.
-/

theorem filterMap_row {F' : Type} (edges : List (IdxEdge F)) (p : IdxEdge F -> Bool)
    (q : IdxEdge F -> Bool) (f : IdxEdge F -> F') (look : IdxEdge F -> Option F')
    (hlook : forall e, e ∈ edges -> p e = true -> q e = true -> look e = some (f e)) :
    (edges.filter q).filterMap (fun e => if p e = true then look e else none) =
      ((edges.filter p).filter q).map f := by
  induction edges with
  | nil => rfl
  | cons e rest ih =>
      have hrest := ih (fun x hx => hlook x (List.mem_cons_of_mem e hx))
      have hhead := hlook e List.mem_cons_self
      cases hp : p e with
      | false => cases hq : q e <;> simp [hp, hq, hrest]
      | true =>
          cases hq : q e with
          | false => simp [hp, hq, hrest]
          | true => simp [hp, hq, hhead hp hq, hrest]

theorem live_colOf (h : Layout g base) (transpose : Bool) {e : IdxEdge F}
    (he : e ∈ g.visible base) : g.LiveIdx (colOf transpose e) := by
  cases transpose with
  | false => exact (h.live e he).2
  | true => exact (h.live e he).1

/-- The compressed part of a read in either direction. -/
theorem compressed_read (h : Layout g base) (transpose : Bool)
    {c : CompressedStorage F} (hc : c.Lists transpose base) (idx : Nat)
    (masked : Nat -> Bool)
    (hmasked : forall e : IdxEdge F,
      rowOf transpose e = idx -> masked (colOf transpose e) = g.isRemoved e.1 e.2.1) :
    (c.row idx).filterMap (fun (neighbor, e) =>
        if masked neighbor then none
        else g.idxToId[neighbor]?.map (fun id => (id, e))) =
      ((base.filter (fun e => !g.isRemoved e.1 e.2.1)).filter
        (fun e => rowOf transpose e == idx)).map
          (fun e => (g.idAt (colOf transpose e), e.2.2)) := by
  have hrow := filterMap_row base (fun e => !g.isRemoved e.1 e.2.1)
    (fun e => rowOf transpose e == idx)
    (fun e => (g.idAt (colOf transpose e), e.2.2))
    (fun e => g.idxToId[colOf transpose e]?.map (fun id => (id, e.2.2))) (by
      intro e he hp _
      have hvisible := mem_visible_of_base he (by simpa using hp)
      rw [h.getElem?_of_live (h.live_colOf transpose hvisible)]
      rfl)
  rw [← hrow, hc.row_eq, List.filterMap_map]
  apply List.filterMap_congr
  intro e he
  have hidx : rowOf transpose e = idx := by
    simpa using (List.mem_filter.mp he).2
  simp only [Function.comp_apply, hmasked e hidx]
  cases g.isRemoved e.1 e.2.1 <;> rfl

/-- The delta part of a read in either direction. -/
theorem delta_read (h : Layout g base) (transpose : Bool) (idx : Nat) :
    g.deltaEdges.filterMap (fun d =>
        if rowOf transpose (d.sourceIdx, d.targetIdx, d.data) = idx then
          g.idxToId[colOf transpose (d.sourceIdx, d.targetIdx, d.data)]?.map
            (fun id => (id, d.data))
        else none) =
      ((g.deltaEdges.map (fun d => (d.sourceIdx, d.targetIdx, d.data))).filter
        (fun e => rowOf transpose e == idx)).map
          (fun e => (g.idAt (colOf transpose e), e.2.2)) := by
  have hrow := filterMap_row
    (g.deltaEdges.map (fun d => (d.sourceIdx, d.targetIdx, d.data)))
    (fun e => rowOf transpose e == idx) (fun _ => true)
    (fun e => (g.idAt (colOf transpose e), e.2.2))
    (fun e => g.idxToId[colOf transpose e]?.map (fun id => (id, e.2.2))) (by
      intro e he _ _
      rcases List.mem_map.mp he with ⟨d, hd, heq⟩
      subst heq
      rw [h.getElem?_of_live (h.live_colOf transpose (mem_visible_of_delta hd))]
      rfl)
  rw [List.filter_true, List.filter_true, List.filterMap_map] at hrow
  rw [← hrow]
  apply List.filterMap_congr
  intro d _
  simp

theorem outgoingByIdx_eq (h : Layout g base) (idx : Nat) :
    g.outgoingByIdx idx =
      ((g.visible base).filter (fun e => e.1 == idx)).map
        (fun e => (g.idAt e.2.1, e.2.2)) := by
  unfold outgoingByIdx visible
  rw [List.filter_append, List.map_append]
  congr 1
  · exact h.compressed_read false h.csr idx (fun n => g.isRemoved idx n) (by
      intro e he
      rw [← he]
      rfl)
  · exact h.delta_read false idx

theorem incomingByIdx_eq (h : Layout g base) (idx : Nat) :
    g.incomingByIdx idx =
      ((g.visible base).filter (fun e => e.2.1 == idx)).map
        (fun e => (g.idAt e.1, e.2.2)) := by
  unfold incomingByIdx visible
  rw [List.filter_append, List.map_append]
  congr 1
  · exact h.compressed_read true h.csc idx (fun n => g.isRemoved n idx) (by
      intro e he
      rw [← he]
      rfl)
  · exact h.delta_read true idx

end Layout

/-!
## Representation

The graph represents a multigraph when the registered ids are its vertices and
the visible edges, with their end points resolved, are its edges.
-/

structure Pictures (g : CsrGraph F) (base : List (IdxEdge F))
    (G : Multigraph MemoryId (StoredEdge F)) : Prop where
  layout : Layout g base
  nodes : forall id, id ∈ G.nodes <-> g.containsNode id = true
  edges : G.edges = ((g.visible base).map g.named : List _)

def Represents (g : CsrGraph F) (G : Multigraph MemoryId (StoredEdge F)) : Prop :=
  exists base, Pictures g base G

theorem represents_new : Represents (new : CsrGraph F) Multigraph.empty := by
  refine ⟨[], ?_, ?_, ?_⟩
  · refine ⟨?_, CompressedStorage.lists_empty false,
      CompressedStorage.lists_empty true, ?_⟩
    · intro id idx h
      cases h
    · intro e he
      cases he
  · intro id
    simp [Multigraph.empty, containsNode, new]
  · rfl

namespace Pictures

variable {g : CsrGraph F} {base : List (IdxEdge F)}
  {G : Multigraph MemoryId (StoredEdge F)}

/-- Edges of the represented multigraph join registered nodes. -/
theorem endpoints_registered (h : Pictures g base G)
    {e : MemoryId × MemoryId × StoredEdge F} (he : e ∈ G.edges) :
    (exists i, g.idToIdx.find? e.1 = some i) ∧
      (exists j, g.idToIdx.find? e.2.1 = some j) := by
  rw [h.edges, Multiset.mem_coe, List.mem_map] at he
  rcases he with ⟨x, hx, hxe⟩
  subst hxe
  rcases h.layout.live x hx with ⟨⟨s, hs⟩, ⟨t, ht⟩⟩
  have hsid : g.idAt x.1 = s := (h.layout.idAt_eq_iff hs ⟨s, hs⟩).mpr rfl
  have htid : g.idAt x.2.1 = t := (h.layout.idAt_eq_iff ht ⟨t, ht⟩).mpr rfl
  constructor
  · exact ⟨x.1, by simpa [named, hsid] using hs⟩
  · exact ⟨x.2.1, by simpa [named, htid] using ht⟩

/-- Filtering the visible edges filters the represented edges. -/
theorem edges_filter (h : Pictures g base G) {g' : CsrGraph F} (p : IdxEdge F -> Bool)
    (P : MemoryId × MemoryId × StoredEdge F -> Prop) [DecidablePred P]
    (hvisible : g'.visible base = (g.visible base).filter p)
    (hids : g'.idxToId = g.idxToId)
    (hp : forall e, e ∈ g.visible base -> (p e = true <-> P (g.named e))) :
    G.edges.filter P = ((g'.visible base).map g'.named : List _) := by
  have hnamed : g'.named = g.named := by
    funext e
    simp [named, idAt, hids]
  rw [h.edges, hvisible, hnamed, Multiset.filter_coe, List.filter_map]
  congr 2
  apply List.filter_congr
  intro e he
  have hiff := hp e he
  rw [Bool.eq_iff_iff, hiff]
  simp

theorem outgoing_eq (h : Pictures g base G) (id : MemoryId) :
    (g.outgoing id : Multiset _) = G.outEdges id := by
  unfold outgoing Multigraph.outEdges
  cases hid : g.idToIdx.find? id with
  | none =>
      have hempty : G.edges.filter (fun e => e.1 = id) = 0 := by
        rw [Multiset.filter_eq_nil]
        intro e he heq
        rcases (h.endpoints_registered he).1 with ⟨i, hi⟩
        rw [heq, hid] at hi
        cases hi
      rw [hempty]
      rfl
  | some idx =>
      simp only
      rw [h.layout.outgoingByIdx_eq, h.edges, Multiset.filter_coe, List.filter_map,
        Multiset.map_coe, List.map_map]
      congr 2
      apply List.filter_congr
      intro e he
      have hiff := h.layout.idAt_eq_iff hid (h.layout.live e he).1
      rw [Bool.eq_iff_iff]
      simp [named, hiff]

theorem incoming_eq (h : Pictures g base G) (id : MemoryId) :
    (g.incoming id : Multiset _) = G.inEdges id := by
  unfold incoming Multigraph.inEdges
  cases hid : g.idToIdx.find? id with
  | none =>
      have hempty : G.edges.filter (fun e => e.2.1 = id) = 0 := by
        rw [Multiset.filter_eq_nil]
        intro e he heq
        rcases (h.endpoints_registered he).2 with ⟨i, hi⟩
        rw [heq, hid] at hi
        cases hi
      rw [hempty]
      rfl
  | some idx =>
      simp only
      rw [h.layout.incomingByIdx_eq, h.edges, Multiset.filter_coe, List.filter_map,
        Multiset.map_coe, List.map_map]
      congr 2
      apply List.filter_congr
      intro e he
      have hiff := h.layout.idAt_eq_iff hid (h.layout.live e he).2
      rw [Bool.eq_iff_iff]
      simp [named, hiff]

end Pictures

/-!
## Registering nodes
-/

theorem addNode_of_find?_some {g : CsrGraph F} {id : MemoryId} {idx : Nat}
    (h : g.idToIdx.find? id = some idx) : g.addNode id = (idx, g) := by
  simp [addNode, h]

theorem addNode_of_find?_none {g : CsrGraph F} {id : MemoryId}
    (h : g.idToIdx.find? id = none) (hbound : g.idxToId.length < u32Size) :
    g.addNode id =
      (g.idxToId.length,
        { g with
          idToIdx := g.idToIdx.insert id g.idxToId.length
          idxToId := g.idxToId ++ [id] }) := by
  simp [addNode, h, Nat.mod_eq_of_lt hbound]

theorem addNode_length_le (g : CsrGraph F) (id : MemoryId) :
    g.idxToId.length <= (g.addNode id).2.idxToId.length := by
  unfold addNode
  split <;> simp

theorem addNode_find?_self {g : CsrGraph F} {id : MemoryId} :
    (g.addNode id).2.idToIdx.find? id = some (g.addNode id).1 := by
  unfold addNode
  cases h : g.idToIdx.find? id with
  | some idx => simpa using h
  | none => simp [Assoc.find?_insert]

theorem addNode_find?_of_some {g : CsrGraph F} {id other : MemoryId} {idx : Nat}
    (hother : g.idToIdx.find? other = some idx) :
    (g.addNode id).2.idToIdx.find? other = some idx := by
  unfold addNode
  cases h : g.idToIdx.find? id with
  | some i => simpa using hother
  | none =>
      have hne : other ≠ id := by
        intro heq
        rw [heq, h] at hother
        cases hother
      simp [Assoc.find?_insert, hne, hother]

theorem addNode_visible (g : CsrGraph F) (id : MemoryId) (base : List (IdxEdge F)) :
    (g.addNode id).2.visible base = g.visible base := by
  unfold addNode
  split <;> rfl

theorem containsNode_addNode (g : CsrGraph F) (id other : MemoryId) :
    (g.addNode id).2.containsNode other =
      (decide (other = id) || g.containsNode other) := by
  unfold addNode containsNode
  cases h : g.idToIdx.find? id with
  | some idx =>
      cases hdec : decide (other = id) with
      | false => rfl
      | true =>
          have heq : other = id := by simpa using hdec
          simp [heq, Assoc.contains, h]
  | none => simp [Assoc.insert, Assoc.contains_upsert]

theorem Pictures.addNode {g : CsrGraph F} {base : List (IdxEdge F)}
    {G : Multigraph MemoryId (StoredEdge F)} (h : Pictures g base G)
    (hbound : g.idxToId.length < u32Size) (id : MemoryId) :
    Pictures (g.addNode id).2 base (G.addNode id) := by
  have hnodes : forall other,
      other ∈ (G.addNode id).nodes <-> (g.addNode id).2.containsNode other = true := by
    intro other
    rw [containsNode_addNode]
    simp [Multigraph.addNode, h.nodes]
  cases hid : g.idToIdx.find? id with
  | some idx =>
      rw [addNode_of_find?_some hid] at hnodes ⊢
      exact ⟨h.layout, hnodes, h.edges⟩
  | none =>
      have hnew := addNode_of_find?_none hid hbound
      have hget : forall (i : Nat) (x : MemoryId), g.idxToId[i]? = some x ->
          (g.addNode id).2.idxToId[i]? = some x := by
        intro i x hx
        rw [hnew]
        rcases List.getElem?_eq_some_iff.mp hx with ⟨hlt, _⟩
        rw [List.getElem?_append_left hlt]
        exact hx
      refine ⟨⟨?_, ?_, ?_, ?_⟩, hnodes, ?_⟩
      · intro other idx hother
        rw [hnew] at hother ⊢
        rw [Assoc.find?_insert] at hother
        by_cases heq : other = id
        · rw [if_pos heq] at hother
          injection hother with hidx
          simp [← hidx, heq]
        · rw [if_neg heq] at hother
          have hold := hget idx other (h.layout.registered other idx hother)
          rwa [hnew] at hold
      · rw [hnew]
        exact h.layout.csr
      · rw [hnew]
        exact h.layout.csc
      · intro e he
        rw [addNode_visible] at he
        rcases h.layout.live e he with ⟨⟨s, hs⟩, ⟨t, ht⟩⟩
        exact ⟨⟨s, addNode_find?_of_some hs⟩, ⟨t, addNode_find?_of_some ht⟩⟩
      · rw [addNode_visible]
        show G.edges = _
        rw [h.edges]
        congr 1
        apply List.map_congr_left
        intro e he
        rcases h.layout.live e he with ⟨hs, ht⟩
        have hsid := hget _ _ (h.layout.getElem?_of_live hs)
        have htid := hget _ _ (h.layout.getElem?_of_live ht)
        simp only [named, Prod.mk.injEq, and_true]
        constructor
        · simp [idAt, List.getD_eq_getElem?_getD] at hsid ⊢
          rw [hsid]
          rfl
        · simp [idAt, List.getD_eq_getElem?_getD] at htid ⊢
          rw [htid]
          rfl

/-!
## Adding edges
-/

theorem Pictures.pushDelta {g : CsrGraph F} {base : List (IdxEdge F)}
    {G : Multigraph MemoryId (StoredEdge F)} (h : Pictures g base G)
    {source target : MemoryId} {i j : Nat} (data : StoredEdge F)
    (hi : g.idToIdx.find? source = some i) (hj : g.idToIdx.find? target = some j) :
    Pictures
      { g with deltaEdges := g.deltaEdges ++
          [{ sourceIdx := i, targetIdx := j, data := data }] }
      base { G with edges := (source, target, data) ::ₘ G.edges } := by
  have hvisible :
      ({ g with deltaEdges := g.deltaEdges ++
          [{ sourceIdx := i, targetIdx := j, data := data }] } : CsrGraph F).visible base =
        g.visible base ++ [(i, j, data)] := by
    simp [visible, isRemoved]
  refine ⟨⟨h.layout.registered, h.layout.csr, h.layout.csc, ?_⟩, h.nodes, ?_⟩
  · intro e he
    rw [hvisible, List.mem_append] at he
    cases he with
    | inl hold => exact h.layout.live e hold
    | inr hnew =>
        have heq : e = (i, j, data) := by simpa using hnew
        subst heq
        exact ⟨⟨source, hi⟩, ⟨target, hj⟩⟩
  · rw [hvisible, List.map_append, ← Multiset.coe_add, add_comm]
    have hs : g.idAt i = source := (h.layout.idAt_eq_iff hi ⟨source, hi⟩).mpr rfl
    have ht : g.idAt j = target := (h.layout.idAt_eq_iff hj ⟨target, hj⟩).mpr rfl
    show _ ::ₘ G.edges = _
    rw [h.edges]
    simp only [List.map_cons, List.map_nil, Multiset.coe_singleton,
      Multiset.singleton_add]
    congr 1
    show _ = (g.idAt i, g.idAt j, data)
    rw [hs, ht]

theorem Pictures.addEdge {g : CsrGraph F} {base : List (IdxEdge F)}
    {G : Multigraph MemoryId (StoredEdge F)} (h : Pictures g base G)
    (edge : MemoryEdge F) (hbound : (g.addEdge edge).idxToId.length < u32Size) :
    Pictures (g.addEdge edge) base
      (G.addEdge edge.source edge.target (StoredEdge.fromMemoryEdge edge)) := by
  have hlen : ((g.addNode edge.source).2.addNode edge.target).2.idxToId.length <
      u32Size := hbound
  have hlen1 := addNode_length_le (g.addNode edge.source).2 edge.target
  have hlen0 := addNode_length_le g edge.source
  have h1 := h.addNode (by omega) edge.source
  have h2 := h1.addNode (by omega) edge.target
  exact h2.pushDelta (StoredEdge.fromMemoryEdge edge)
    (addNode_find?_of_some addNode_find?_self) addNode_find?_self

/-!
## Removing edges and nodes

Removal masks compressed edges and drops delta edges; both amount to filtering
the visible edges.
-/

theorem isRemoved_iff {g : CsrGraph F} {s t : Nat} :
    g.isRemoved s t = true <-> (s, t) ∈ g.removedEdges := by
  simp [isRemoved, List.any_eq_true]

theorem removeEdge_idxToId (g : CsrGraph F) (source target : MemoryId) :
    (g.removeEdge source target).idxToId = g.idxToId := by
  unfold CsrGraph.removeEdge
  split <;> rfl

theorem removeNode_idxToId (g : CsrGraph F) (id : MemoryId) :
    (g.removeNode id).idxToId = g.idxToId := by
  unfold CsrGraph.removeNode
  split <;> rfl

/-- A removal that masks what it drops from the log filters the visible edges. -/
theorem visible_of_masked {g g' : CsrGraph F} {base : List (IdxEdge F)} {p : IdxEdge F -> Bool}
    (hlog : g'.deltaEdges = g.deltaEdges.filter (fun d => p (d.sourceIdx, d.targetIdx, d.data)))
    (hmasked : forall e, e ∈ base ->
      ((e.1, e.2.1) ∈ g'.removedEdges <-> (e.1, e.2.1) ∈ g.removedEdges ∨ p e = false)) :
    g'.visible base = (g.visible base).filter p := by
  unfold visible
  rw [List.filter_append, List.filter_map, List.filter_filter, hlog]
  refine congrArg (fun kept => kept ++ _) (List.filter_congr fun e he => ?_)
  rw [Bool.eq_iff_iff, Bool.and_eq_true, Bool.not_eq_true', Bool.not_eq_true', Bool.eq_false_iff,
    Bool.eq_false_iff, ne_eq, ne_eq, isRemoved_iff, isRemoved_iff, hmasked e he, not_or,
    Bool.not_eq_false, and_comm]

/-- What a removed node leaves masked: what was masked, and the base edges at the node. -/
theorem mem_maskedAt_iff {g : CsrGraph F} {base : List (IdxEdge F)} (h : Layout g base)
    (idx : Nat) {e : IdxEdge F} (he : e ∈ base) :
    (e.1, e.2.1) ∈ g.removedEdges
        ++ (g.csr.neighbors idx).map (fun neighbor => (idx, neighbor))
        ++ (g.csc.neighbors idx).map (fun neighbor => (neighbor, idx)) <->
      (e.1, e.2.1) ∈ g.removedEdges ∨ e.1 = idx ∨ e.2.1 = idx := by
  have hout : e.1 = idx -> e.2.1 ∈ g.csr.neighbors idx := by
    intro heq
    rw [(h.csr idx).1, List.mem_map]
    exact ⟨e, by simp [he, rowOf, heq], rfl⟩
  have hin : e.2.1 = idx -> e.1 ∈ g.csc.neighbors idx := by
    intro heq
    rw [(h.csc idx).1, List.mem_map]
    exact ⟨e, by simp [he, rowOf, heq], rfl⟩
  simp only [List.mem_append, List.mem_map, Prod.mk.injEq]
  constructor
  · rintro ((hold | ⟨n, _, heq, _⟩) | ⟨n, _, _, heq⟩)
    · exact Or.inl hold
    · exact Or.inr (Or.inl heq.symm)
    · exact Or.inr (Or.inr heq.symm)
  · rintro (hold | hsrc | htgt)
    · exact Or.inl (Or.inl hold)
    · exact Or.inl (Or.inr ⟨e.2.1, hout hsrc, hsrc.symm, rfl⟩)
    · exact Or.inr ⟨e.1, hin htgt, rfl, htgt.symm⟩

section Removal

variable {g : CsrGraph F} {base : List (IdxEdge F)} {G : Multigraph MemoryId (StoredEdge F)}

/-- An end point that is not registered has no edges to remove. -/
theorem Pictures.edges_removeEdge_of_unregistered (h : Pictures g base G)
    {source target : MemoryId}
    (hnone : g.idToIdx.find? source = none ∨ g.idToIdx.find? target = none) :
    (G.removeEdge source target).edges = G.edges := by
  unfold Multigraph.removeEdge
  rw [Multiset.filter_eq_self]
  intro e he hends
  rcases h.endpoints_registered he with ⟨⟨i, hi⟩, ⟨j, hj⟩⟩
  cases hnone with
  | inl hs =>
      rw [hends.1, hs] at hi
      cases hi
  | inr ht =>
      rw [hends.2, ht] at hj
      cases hj

theorem Pictures.edges_removeNode_of_unregistered (h : Pictures g base G) {id : MemoryId}
    (hnone : g.idToIdx.find? id = none) : (G.removeNode id).edges = G.edges := by
  unfold Multigraph.removeNode
  rw [Multiset.filter_eq_self]
  intro e he
  rcases h.endpoints_registered he with ⟨⟨i, hi⟩, ⟨j, hj⟩⟩
  constructor
  · intro heq
    rw [heq, hnone] at hi
    cases hi
  · intro heq
    rw [heq, hnone] at hj
    cases hj

theorem Pictures.removeEdge (h : Pictures g base G) (source target : MemoryId) :
    Pictures (g.removeEdge source target) base (G.removeEdge source target) := by
  have hmissing :
      (g.idToIdx.find? source = none ∨ g.idToIdx.find? target = none) ->
        Pictures g base (G.removeEdge source target) := by
    intro hnone
    refine ⟨h.layout, h.nodes, ?_⟩
    rw [h.edges_removeEdge_of_unregistered hnone]
    exact h.edges
  unfold CsrGraph.removeEdge
  cases hs : g.idToIdx.find? source with
  | none => exact hmissing (Or.inl hs)
  | some i =>
      cases ht : g.idToIdx.find? target with
      | none => exact hmissing (Or.inr ht)
      | some j =>
          let g' : CsrGraph F :=
            { g with
              removedEdges := g.removedEdges ++ [(i, j)]
              deltaEdges := g.deltaEdges.filter
                (fun e => !(decide (e.sourceIdx = i) && decide (e.targetIdx = j))) }
          have hvisible :
              g'.visible base =
                (g.visible base).filter
                  (fun e => !(decide (e.1 = i) && decide (e.2.1 = j))) := by
            apply visible_of_masked rfl
            intro e _
            simp [g']
          refine ⟨⟨h.layout.registered, h.layout.csr, h.layout.csc, ?_⟩, h.nodes, ?_⟩
          · intro e he
            rw [hvisible] at he
            exact h.layout.live e (List.mem_of_mem_filter he)
          · apply h.edges_filter _ _ hvisible rfl
            intro e he
            rcases h.layout.live e he with ⟨hlive1, hlive2⟩
            have hiff1 := h.layout.idAt_eq_iff hs hlive1
            have hiff2 := h.layout.idAt_eq_iff ht hlive2
            simp only [named, hiff1, hiff2]
            simp
            exact imp_iff_not_or.symm

theorem Pictures.removeNode (h : Pictures g base G) (id : MemoryId) :
    Pictures (g.removeNode id) base (G.removeNode id) := by
  unfold CsrGraph.removeNode
  cases hid : g.idToIdx.find? id with
  | none =>
      have hfresh : g.containsNode id = false := by
        simp [containsNode, Assoc.contains, hid]
      refine ⟨h.layout, ?_, ?_⟩
      · intro other
        simp only [Multigraph.removeNode, Finset.mem_erase, h.nodes]
        constructor
        · intro hother
          exact hother.2
        · intro hother
          refine ⟨?_, hother⟩
          intro heq
          rw [heq, hfresh] at hother
          cases hother
      · rw [h.edges_removeNode_of_unregistered hid]
        exact h.edges
  | some idx =>
      let g' : CsrGraph F :=
        { g with
          removedEdges := g.removedEdges
            ++ (g.csr.neighbors idx).map (fun neighbor => (idx, neighbor))
            ++ (g.csc.neighbors idx).map (fun neighbor => (neighbor, idx))
          deltaEdges := g.deltaEdges.filter
            (fun e => decide (e.sourceIdx ≠ idx) && decide (e.targetIdx ≠ idx))
          idToIdx := g.idToIdx.erase id }
      have hvisible :
          g'.visible base =
            (g.visible base).filter
              (fun e => decide (e.1 ≠ idx) && decide (e.2.1 ≠ idx)) := by
        apply visible_of_masked rfl
        intro e he
        refine (mem_maskedAt_iff h.layout idx he).trans (or_congr Iff.rfl ?_)
        rw [Bool.and_eq_false_iff, decide_eq_false_iff_not, decide_eq_false_iff_not, not_not,
          not_not]
      have hlive : forall i, g.LiveIdx i -> i ≠ idx -> g'.LiveIdx i := by
        intro i hi hne
        rcases hi with ⟨owner, howner⟩
        refine ⟨owner, ?_⟩
        show (g.idToIdx.erase id).find? owner = some i
        rw [Assoc.find?_erase]
        have howner_ne : owner ≠ id := by
          intro heq
          rw [heq, hid] at howner
          injection howner with hidx
          exact hne hidx.symm
        rw [if_neg howner_ne]
        exact howner
      refine ⟨⟨?_, h.layout.csr, h.layout.csc, ?_⟩, ?_, ?_⟩
      · intro other i hother
        have hfind : (g.idToIdx.erase id).find? other = some i := hother
        rw [Assoc.find?_erase] at hfind
        split at hfind
        · cases hfind
        · exact h.layout.registered other i hfind
      · intro e he
        have hmem : e ∈ g'.visible base := he
        rw [hvisible, List.mem_filter] at hmem
        have hends : e.1 ≠ idx ∧ e.2.1 ≠ idx := by simpa using hmem.2
        rcases h.layout.live e hmem.1 with ⟨hlive1, hlive2⟩
        exact ⟨hlive _ hlive1 hends.1, hlive _ hlive2 hends.2⟩
      · intro other
        show other ∈ G.nodes.erase id <-> (g.idToIdx.erase id).contains other = true
        rw [Finset.mem_erase, h.nodes, Assoc.contains, Assoc.find?_erase]
        by_cases heq : other = id
        · simp [heq]
        · simp [heq, containsNode, Assoc.contains]
      · apply h.edges_filter _ _ hvisible rfl
        intro e he
        rcases h.layout.live e he with ⟨hlive1, hlive2⟩
        have hiff1 := h.layout.idAt_eq_iff hid hlive1
        have hiff2 := h.layout.idAt_eq_iff hid hlive2
        simp [named, hiff1, hiff2]

end Removal

/-!
## Compaction

Compaction lists the visible edges row by row.  This permutes them globally but
keeps the order inside each row.
-/

theorem allEdges_eq {g : CsrGraph F} {base : List (IdxEdge F)} (h : Layout g base) :
    g.allEdges =
      (List.range g.idxToId.length).flatMap (fun r =>
          (base.filter (fun e => !g.isRemoved e.1 e.2.1)).filter (fun e => e.1 == r)) ++
        g.deltaEdges.map (fun d => (d.sourceIdx, d.targetIdx, d.data)) := by
  unfold allEdges
  congr 1
  apply List.flatMap_congr
  intro r _
  have hrow := Layout.filterMap_row base (fun e => !g.isRemoved e.1 e.2.1)
    (fun e => e.1 == r) id some (fun _ _ _ _ => rfl)
  rw [List.map_id] at hrow
  rw [← hrow, h.csr.row_eq, List.filterMap_map]
  apply List.filterMap_congr
  intro e he
  have hsrc : e.1 = r := by
    simpa [rowOf] using (List.mem_filter.mp he).2
  rcases e with ⟨s, t, data⟩
  subst hsrc
  show (if g.isRemoved s t then none else some (s, t, data)) = _
  cases g.isRemoved s t <;> simp

theorem allEdges_perm {g : CsrGraph F} {base : List (IdxEdge F)} (h : Layout g base) :
    List.Perm g.allEdges (g.visible base) := by
  rw [allEdges_eq h, visible]
  apply List.Perm.append_right
  apply Bucket.flatMap_buckets_perm
  intro e he
  have hparts := List.mem_filter.mp he
  have hvisible := Layout.mem_visible_of_base hparts.1 (by simpa using hparts.2)
  exact h.live_lt_length (h.live e hvisible).1

theorem allEdges_filter_row {g : CsrGraph F} {base : List (IdxEdge F)}
    (h : Layout g base) {idx : Nat} (hidx : idx < g.idxToId.length) :
    g.allEdges.filter (fun e => e.1 == idx) =
      (g.visible base).filter (fun e => e.1 == idx) := by
  rw [allEdges_eq h, visible, List.filter_append, List.filter_append]
  have hrow := Bucket.filter_flatMap_buckets (fun e : IdxEdge F => e.1)
    g.idxToId.length idx (base.filter (fun e => !g.isRemoved e.1 e.2.1))
  rw [if_pos hidx] at hrow
  rw [hrow]

theorem visible_compact [Zero F] (g : CsrGraph F) :
    g.compact.visible g.allEdges = g.allEdges := by
  simp [visible, compact, isRemoved]

theorem Pictures.compact [Zero F] {g : CsrGraph F} {base : List (IdxEdge F)}
    {G : Multigraph MemoryId (StoredEdge F)} (h : Pictures g base G)
    (hbound : G.edges.card < u32Size) :
    Pictures g.compact g.allEdges G := by
  have hperm := allEdges_perm h.layout
  have hlen : g.allEdges.length < u32Size := by
    rw [h.edges, Multiset.coe_card, List.length_map] at hbound
    rw [hperm.length_eq]
    exact hbound
  have hlive : forall e, e ∈ g.allEdges -> g.LiveIdx e.1 ∧ g.LiveIdx e.2.1 := by
    intro e he
    exact h.layout.live e (hperm.mem_iff.mp he)
  refine ⟨⟨h.layout.registered, ?_, ?_, ?_⟩, h.nodes, ?_⟩
  · apply buildCompressed_lists hlen
    intro e he
    exact h.layout.live_lt_length (hlive e he).1
  · apply buildCompressed_lists hlen
    intro e he
    exact h.layout.live_lt_length (hlive e he).2
  · intro e he
    rw [visible_compact] at he
    exact hlive e he
  · rw [visible_compact, h.edges]
    exact (Multiset.coe_eq_coe.mpr (hperm.map g.named)).symm

/-- Compaction leaves every outgoing list as it was, order included. -/
theorem Pictures.compact_outgoing [Zero F] {g : CsrGraph F} {base : List (IdxEdge F)}
    {G : Multigraph MemoryId (StoredEdge F)} (h : Pictures g base G)
    (hbound : G.edges.card < u32Size) (id : MemoryId) :
    g.compact.outgoing id = g.outgoing id := by
  have hcompact := h.compact hbound
  have hsame : g.compact.idToIdx = g.idToIdx := rfl
  unfold outgoing
  rw [hsame]
  cases hid : g.idToIdx.find? id with
  | none => rfl
  | some idx =>
      simp only
      have hidx := h.layout.live_lt_length ⟨id, hid⟩
      rw [hcompact.layout.outgoingByIdx_eq, h.layout.outgoingByIdx_eq,
        visible_compact, allEdges_filter_row h.layout hidx]
      rfl

end CsrGraph

/-!
## Runs

A run applies a list of operations.  The same list acts on the abstract
multigraph, where compaction does nothing.
-/

inductive GraphOp (F : Type) where
  | addNode (id : MemoryId)
  | addEdge (edge : MemoryEdge F)
  | removeEdge (source target : MemoryId)
  | removeNode (id : MemoryId)
  | compact

namespace GraphOp

def apply [Zero F] (g : CsrGraph F) : GraphOp F -> CsrGraph F
  | addNode id => (g.addNode id).2
  | addEdge edge => g.addEdge edge
  | removeEdge source target => g.removeEdge source target
  | removeNode id => g.removeNode id
  | compact => g.compact

def applySpec (G : Multigraph MemoryId (StoredEdge F)) :
    GraphOp F -> Multigraph MemoryId (StoredEdge F)
  | addNode id => G.addNode id
  | addEdge edge =>
      G.addEdge edge.source edge.target (StoredEdge.fromMemoryEdge edge)
  | removeEdge source target => G.removeEdge source target
  | removeNode id => G.removeNode id
  | compact => G

def run [Zero F] (g : CsrGraph F) (ops : List (GraphOp F)) : CsrGraph F :=
  ops.foldl apply g

def runSpec (G : Multigraph MemoryId (StoredEdge F)) (ops : List (GraphOp F)) :
    Multigraph MemoryId (StoredEdge F) :=
  ops.foldl applySpec G

def isAddEdge : GraphOp F -> Bool
  | addEdge _ => true
  | _ => false

/-- Number of edges a run adds. -/
def edgeAdditions (ops : List (GraphOp F)) : Nat := ops.countP isAddEdge

theorem apply_length_le [Zero F] (g : CsrGraph F) (op : GraphOp F) :
    g.idxToId.length <= (apply g op).idxToId.length := by
  cases op with
  | addNode id => exact CsrGraph.addNode_length_le g id
  | addEdge edge =>
      have hsource := CsrGraph.addNode_length_le g edge.source
      have htarget :=
        CsrGraph.addNode_length_le (g.addNode edge.source).2 edge.target
      exact Nat.le_trans hsource htarget
  | removeEdge source target =>
      exact Nat.le_of_eq (by rw [apply, CsrGraph.removeEdge_idxToId])
  | removeNode id =>
      exact Nat.le_of_eq (by rw [apply, CsrGraph.removeNode_idxToId])
  | compact => exact Nat.le_refl _

theorem run_length_le [Zero F] (g : CsrGraph F) (ops : List (GraphOp F)) :
    g.idxToId.length <= (run g ops).idxToId.length := by
  induction ops generalizing g with
  | nil => exact Nat.le_refl _
  | cons op rest ih => exact Nat.le_trans (apply_length_le g op) (ih (apply g op))

theorem applySpec_card_le (G : Multigraph MemoryId (StoredEdge F)) (op : GraphOp F) :
    (applySpec G op).edges.card <=
      G.edges.card + if op.isAddEdge then 1 else 0 := by
  cases op with
  | addNode id => exact Nat.le_refl _
  | addEdge edge => simp [applySpec, Multigraph.addEdge, isAddEdge]
  | removeEdge source target =>
      exact Multiset.card_le_card (Multiset.filter_le _ _)
  | removeNode id => exact Multiset.card_le_card (Multiset.filter_le _ _)
  | compact => exact Nat.le_refl _

theorem runSpec_card_le (G : Multigraph MemoryId (StoredEdge F))
    (ops : List (GraphOp F)) :
    (runSpec G ops).edges.card <= G.edges.card + edgeAdditions ops := by
  induction ops generalizing G with
  | nil => exact Nat.le_refl _
  | cons op rest ih =>
      have hstep := applySpec_card_le G op
      have hrest := ih (applySpec G op)
      have hcount : edgeAdditions (op :: rest) =
          edgeAdditions rest + if op.isAddEdge then 1 else 0 := List.countP_cons
      show (runSpec (applySpec G op) rest).edges.card <= _
      omega

/-- One operation keeps the representation. -/
theorem apply_represents [Zero F] {g : CsrGraph F}
    {G : Multigraph MemoryId (StoredEdge F)} (h : g.Represents G) (op : GraphOp F)
    (hnodes : (apply g op).idxToId.length < u32Size)
    (hedges : G.edges.card < u32Size) :
    (apply g op).Represents (applySpec G op) := by
  rcases h with ⟨base, hpic⟩
  have hlen := apply_length_le g op
  cases op with
  | addNode id => exact ⟨base, hpic.addNode (by omega) id⟩
  | addEdge edge => exact ⟨base, hpic.addEdge edge hnodes⟩
  | removeEdge source target => exact ⟨base, hpic.removeEdge source target⟩
  | removeNode id => exact ⟨base, hpic.removeNode id⟩
  | compact => exact ⟨g.allEdges, hpic.compact hedges⟩

/-- A whole run keeps the representation. -/
theorem run_represents [Zero F] {g : CsrGraph F}
    {G : Multigraph MemoryId (StoredEdge F)} (h : g.Represents G)
    (ops : List (GraphOp F)) (hnodes : (run g ops).idxToId.length < u32Size)
    (hedges : G.edges.card + edgeAdditions ops < u32Size) :
    (run g ops).Represents (runSpec G ops) := by
  induction ops generalizing g G with
  | nil => exact h
  | cons op rest ih =>
      have hrun : run g (op :: rest) = run (apply g op) rest := rfl
      have hlen := run_length_le (apply g op) rest
      rw [hrun] at hnodes
      have hcard := applySpec_card_le G op
      have hcount : edgeAdditions (op :: rest) =
          edgeAdditions rest + if op.isAddEdge then 1 else 0 := List.countP_cons
      have hstep := apply_represents h op (by omega) (by omega)
      exact ih hstep hnodes (by omega)

/-- Runs of the compressed graph are runs of the multigraph, in both directions,
and compaction preserves every outgoing list. -/
theorem run_refines_multigraph [Scalar F] (ops : List (GraphOp F))
    (hnodes : (run CsrGraph.new ops).nodeCount < u32Size)
    (hedges : edgeAdditions ops < u32Size) :
    (forall id,
      ((run CsrGraph.new ops).outgoing id : Multiset _) =
          (runSpec Multigraph.empty ops).outEdges id ∧
        ((run CsrGraph.new ops).incoming id : Multiset _) =
          (runSpec Multigraph.empty ops).inEdges id) ∧
      (forall s t e,
        ((run CsrGraph.new ops).outgoing s).count (t, e) =
          ((run CsrGraph.new ops).incoming t).count (s, e)) ∧
      (forall id,
        (run CsrGraph.new ops).compact.outgoing id =
          (run CsrGraph.new ops).outgoing id) := by
  have hempty : (Multigraph.empty : Multigraph MemoryId (StoredEdge F)).edges.card = 0 :=
    rfl
  have hcard := runSpec_card_le (Multigraph.empty : Multigraph _ (StoredEdge F)) ops
  rcases run_represents CsrGraph.represents_new ops hnodes (by omega) with ⟨base, hpic⟩
  have hviews : forall id,
      ((run CsrGraph.new ops).outgoing id : Multiset _) =
          (runSpec Multigraph.empty ops).outEdges id ∧
        ((run CsrGraph.new ops).incoming id : Multiset _) =
          (runSpec Multigraph.empty ops).inEdges id := by
    intro id
    exact ⟨hpic.outgoing_eq id, hpic.incoming_eq id⟩
  refine ⟨hviews, ?_, ?_⟩
  · intro s t e
    have hshake := Multigraph.handshake (runSpec Multigraph.empty ops) s t e
    rw [← (hviews s).1, ← (hviews t).2, Multiset.coe_count, Multiset.coe_count]
      at hshake
    convert hshake using 2
    · exact lawful_beq_subsingleton _ _
    · exact lawful_beq_subsingleton _ _
  · intro id
    exact hpic.compact_outgoing (by omega) id

/-- A run that removes a node and registers its id again. -/
def readdRun : List (GraphOp Rat) :=
  [addEdge
      { source := ⟨1⟩, target := ⟨2⟩, edgeType := EdgeType.caused, weight := 1,
        createdAt := 1000, validFrom := none, validUntil := none, label := none },
    compact, removeNode ⟨1⟩, addNode ⟨1⟩, removeEdge ⟨1⟩ ⟨2⟩]

theorem run_refines_multigraph_readdRun :
    ((run CsrGraph.new readdRun).outgoing ⟨1⟩ : Multiset _) =
      (runSpec Multigraph.empty readdRun).outEdges ⟨1⟩ :=
  ((run_refines_multigraph readdRun (by decide) (by decide)).1 ⟨1⟩).1

end GraphOp
end Graph
end MenteDb
