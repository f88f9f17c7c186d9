import MenteDb.Facade.Enrichment
import MenteDb.Facade.EntityNames
import MenteDb.Facade.EntityResolver
import MenteDb.Graph.Distances

/-!
# Links between the memories of an entity

Two calls relate memories whose names stand for one entity: one asks the resolver which
names these are, the other is given groups of names.  Both go through the pairs of a group
from lower to higher identifiers and pass over a pair that the graph shows as linked.
-/

namespace MenteDb
namespace Facade

open Foundation
open Sqlite
open MenteDb.Graph
open Graph.CsrGraph
open Cognitive
open Consolidation

variable {F : Type}

/-!
## Entity links
-/

def IsEntityLink (e : StoredEdge F) : Prop :=
  e.edgeType = EdgeType.related ∧
    e.label.any (fun label => "entity_link:".toList.isPrefixOf label.toList) = true

instance (e : StoredEdge F) : Decidable (IsEntityLink e) :=
  inferInstanceAs (Decidable (_ ∧ _))

/-- An edge of two memories, in either direction. -/
def Between (a b : MemoryId) (e : MemoryId × MemoryId × StoredEdge F) : Prop :=
  (e.1 = a ∧ e.2.1 = b) ∨ (e.1 = b ∧ e.2.1 = a)

instance (a b : MemoryId) (e : MemoryId × MemoryId × StoredEdge F) : Decidable (Between a b e) :=
  inferInstanceAs (Decidable (_ ∨ _))

/-- The order in which the pairs of a group are linked. -/
def idLt (a b : MemoryId) : Prop := a.uuid.toNat < b.uuid.toNat

def entityLinks (edges : Multiset (MemoryId × MemoryId × StoredEdge F)) :
    Multiset (MemoryId × MemoryId × StoredEdge F) :=
  edges.filter (fun e => IsEntityLink e.2.2)

/-- No two memories are linked twice. -/
def OncePerPair (edges : Multiset (MemoryId × MemoryId × StoredEdge F)) : Prop :=
  forall a b, (entityLinks edges).countP (Between a b) <= 1

/-- Links lead upward, and there is one at most for two memories. -/
structure LinkedOnce (edges : Multiset (MemoryId × MemoryId × StoredEdge F)) : Prop where
  upward : forall e, e ∈ entityLinks edges -> idLt e.1 e.2.1
  once : OncePerPair edges

section Edges

variable {edges : Multiset (MemoryId × MemoryId × StoredEdge F)}
  {e : MemoryId × MemoryId × StoredEdge F}

theorem mem_entityLinks : e ∈ entityLinks edges <-> e ∈ edges ∧ IsEntityLink e.2.2 :=
  Multiset.mem_filter

theorem entityLinks_cons_other (h : ¬ IsEntityLink e.2.2) :
    entityLinks (e ::ₘ edges) = entityLinks edges :=
  Multiset.filter_cons_of_neg edges h

theorem entityLinks_cons_link (h : IsEntityLink e.2.2) :
    entityLinks (e ::ₘ edges) = e ::ₘ entityLinks edges :=
  Multiset.filter_cons_of_pos edges h

theorem LinkedOnce.congr {edges' : Multiset (MemoryId × MemoryId × StoredEdge F)}
    (h : LinkedOnce edges) (heq : entityLinks edges' = entityLinks edges) : LinkedOnce edges' := by
  constructor
  · rw [heq]
    exact h.upward
  · unfold OncePerPair
    rw [heq]
    exact h.once

/-- Another upward link, of two memories that are not linked. -/
theorem LinkedOnce.cons (h : LinkedOnce edges) (hlink : IsEntityLink e.2.2)
    (hup : idLt e.1 e.2.1) (hnew : forall l, IsEntityLink l -> (e.1, e.2.1, l) ∉ edges) :
    LinkedOnce (e ::ₘ edges) := by
  constructor
  · rw [entityLinks_cons_link hlink]
    intro e' he'
    rcases Multiset.mem_cons.mp he' with heq | hold
    · rw [heq]
      exact hup
    · exact h.upward e' hold
  · intro a b
    rw [entityLinks_cons_link hlink, Multiset.countP_cons]
    split
    · rename_i hbetween
      -- a link of the same two memories would lead from the lower to the higher, as this one
      have hnone : (entityLinks edges).countP (Between a b) = 0 := by
        rw [Multiset.countP_eq_zero]
        intro e' he' hbetween'
        have hup' := h.upward e' he'
        have hold := mem_entityLinks.mp he'
        have hsame : e'.1 = e.1 ∧ e'.2.1 = e.2.1 := by
          unfold idLt at hup hup'
          rcases hbetween with ⟨h1, h2⟩ | ⟨h1, h2⟩
          · rcases hbetween' with ⟨h1', h2'⟩ | ⟨h1', h2'⟩
            · exact ⟨h1'.trans h1.symm, h2'.trans h2.symm⟩
            · rw [h1, h2] at hup
              rw [h1', h2'] at hup'
              omega
          · rcases hbetween' with ⟨h1', h2'⟩ | ⟨h1', h2'⟩
            · rw [h1, h2] at hup
              rw [h1', h2'] at hup'
              omega
            · exact ⟨h1'.trans h1.symm, h2'.trans h2.symm⟩
        apply hnew e'.2.2 hold.2
        rw [← hsame.1, ← hsame.2]
        exact hold.1
      rw [hnone]
    · exact h.once a b

end Edges

theorem alreadyLinked_iff {g : CsrGraph F} {G : Multigraph MemoryId (StoredEdge F)}
    (h : g.Represents G) {a b : MemoryId} :
    alreadyLinked g a b = true <-> exists l, IsEntityLink l ∧ (a, b, l) ∈ G.edges := by
  unfold alreadyLinked
  rw [List.any_eq_true]
  constructor
  · intro hany
    rcases hany with ⟨p, hp, htest⟩
    rw [Bool.and_eq_true, Bool.and_eq_true, decide_eq_true_eq, decide_eq_true_eq] at htest
    rcases htest with ⟨⟨hb, htype⟩, hlabel⟩
    refine ⟨p.2, ⟨htype, hlabel⟩, ?_⟩
    rw [← hb]
    exact (mem_outgoing_iff h).mp hp
  · intro hedge
    rcases hedge with ⟨l, hlink, hmem⟩
    refine ⟨(b, l), (mem_outgoing_iff h).mpr hmem, ?_⟩
    rw [Bool.and_eq_true, Bool.and_eq_true, decide_eq_true_eq, decide_eq_true_eq]
    exact ⟨⟨rfl, hlink.1⟩, hlink.2⟩

/-!
## Linking pairs
-/

/-- What both calls do with a pair. -/
def linkUnlessLinked (env : Env F) (edge : MemoryEdge F) : Op F Unit := do
  let linked ← Prog.gets (fun w => alreadyLinked w.graph edge.source edge.target)
  if linked then pure ()
  else do
    let _ ← Prog.attempt (relate env edge)
    pure ()

/-- Every stored memory is a node of the graph. -/
def AllRegistered (w : World F) : Prop :=
  forall id, w.tables.memories.contains id = true -> w.graph.containsNode id = true

/-- The graph has the entity links of the tables, upward and once for two memories. -/
structure LinksSettled (w : World F) (G : Multigraph MemoryId (StoredEdge F)) : Prop where
  represents : w.graph.Represents G
  linked : LinkedOnce G.edges
  stored : entityLinks (storedGraph w.tables).edges = entityLinks G.edges

/-- A link that can be asked for: upward, between stored memories. -/
structure Linkable (w : World F) (edge : MemoryEdge F) : Prop where
  link : IsEntityLink (StoredEdge.fromMemoryEdge edge)
  upward : idLt edge.source edge.target
  source : w.tables.memories.contains edge.source = true
  target : w.tables.memories.contains edge.target = true

def Joined (G : Multigraph MemoryId (StoredEdge F)) (edge : MemoryEdge F) : Prop :=
  exists l, IsEntityLink l ∧ (edge.source, edge.target, l) ∈ G.edges

section Pairs

variable {env : Env F} {w : World F} {G : Multigraph MemoryId (StoredEdge F)}

theorem mem_nodes_iff {g : CsrGraph F} (hG : g.Represents G) {id : MemoryId} :
    id ∈ G.nodes <-> g.containsNode id = true := by
  rcases hG with ⟨base, hpic⟩
  exact hpic.nodes id

theorem AllRegistered.mem_nodes (hreg : AllRegistered w) (hG : w.graph.Represents G) {id : MemoryId}
    (hid : w.tables.memories.contains id = true) : id ∈ G.nodes :=
  (mem_nodes_iff hG).mpr (hreg id hid)

/-- A pair is linked already, or its link cannot be written, or it is linked now. -/
theorem linkUnlessLinked_cases (env : Env F) (hG : LinksSettled w G) (hreg : AllRegistered w)
    {edge : MemoryEdge F} (h : Linkable w edge) :
    (Joined G edge ∧ linkUnlessLinked env edge w = (Except.ok (), w)) ∨
      ((exists e, env.fault w.ticks = some e) ∧
        linkUnlessLinked env edge w = (Except.ok (), { w with ticks := w.ticks + 1 })) ∨
      (¬ Joined G edge ∧ exists g,
        g.Represents { G with edges := labelled edge ::ₘ G.edges } ∧
          linkUnlessLinked env edge w =
            (Except.ok (),
              { w with
                tables := { w.tables with
                  edges := w.tables.edges ++ [Tables.rowOfEdge edge] }
                graph := g
                ticks := w.ticks + 1 })) := by
  have hrun : linkUnlessLinked env edge w =
      if alreadyLinked w.graph edge.source edge.target then (Except.ok (), w)
      else (Except.ok (), (relate env edge w).2) := by
    show (if alreadyLinked w.graph edge.source edge.target then (pure () : Op F Unit)
      else do
        let _ ← Prog.attempt (relate env edge)
        pure ()) w = _
    split
    · rfl
    · rfl
  rw [hrun]
  by_cases hlinked : alreadyLinked w.graph edge.source edge.target = true
  · rw [if_pos hlinked]
    exact Or.inl ⟨(alreadyLinked_iff hG.represents).mp hlinked, rfl⟩
  · rw [if_neg hlinked]
    have hnew : ¬ Joined G edge :=
      fun hjoined => hlinked ((alreadyLinked_iff hG.represents).mpr hjoined)
    cases hfault : env.fault w.ticks with
    | some e =>
        refine Or.inr (Or.inl ⟨⟨e, rfl⟩, ?_⟩)
        have hfailed : transact env (Tables.addEdgeOn edge) w =
            (Except.error e, { w with ticks := w.ticks + 1 }) := by
          unfold transact
          rw [hfault]
        unfold relate
        rw [Prog.bind_of_error hfailed]
    | none =>
        refine Or.inr (Or.inr ⟨hnew, ?_⟩)
        have hcommitted : transact env (Tables.addEdgeOn edge) w =
            (Except.ok (),
              { w with
                tables := { w.tables with edges := w.tables.edges ++ [Tables.rowOfEdge edge] }
                ticks := w.ticks + 1 }) := by
          unfold transact
          rw [hfault]
          rfl
        rcases hG.represents.addRelationship_ok (hreg.mem_nodes hG.represents h.source)
          (hreg.mem_nodes hG.represents h.target) with ⟨g, hok, _, hrep⟩
        refine ⟨g, hrep, ?_⟩
        unfold relate
        rw [Prog.bind_of_ok hcommitted]
        unfold onGraph
        simp only [hok]

/-- A new link keeps links settled. -/
theorem LinksSettled.cons (hG : LinksSettled w G) {edge : MemoryEdge F} (h : Linkable w edge)
    (hnew : ¬ Joined G edge) {g : CsrGraph F}
    (hrep : g.Represents { G with edges := labelled edge ::ₘ G.edges }) (ticks : Nat) :
    LinksSettled
      { w with
        tables := { w.tables with edges := w.tables.edges ++ [Tables.rowOfEdge edge] }
        graph := g
        ticks := ticks }
      { G with edges := labelled edge ::ₘ G.edges } where
  represents := hrep
  linked := by
    apply hG.linked.cons h.link h.upward
    intro l hl hmem
    exact hnew ⟨l, hl, hmem⟩
  stored := by
    have hadded : storedGraph { w.tables with
        edges := w.tables.edges ++ [Tables.rowOfEdge edge] } =
        { storedGraph w.tables with
          edges := labelled edge ::ₘ (storedGraph w.tables).edges } :=
      storedGraph_addEdgeOn rfl
    show entityLinks (storedGraph { w.tables with
      edges := w.tables.edges ++ [Tables.rowOfEdge edge] }).edges = _
    rw [hadded]
    show entityLinks (labelled edge ::ₘ (storedGraph w.tables).edges) = _
    rw [entityLinks_cons_link h.link, entityLinks_cons_link h.link, hG.stored]

/-- What linking some pairs, one after the other, comes to. -/
structure LinkOutcome (env : Env F) (requests : List (MemoryEdge F)) (w : World F)
    (G : Multigraph MemoryId (StoredEdge F)) (w' : World F)
    (G' : Multigraph MemoryId (StoredEdge F)) : Prop where
  settled : LinksSettled w' G'
  registered : AllRegistered w'
  tables : exists rows, w'.tables = { w.tables with edges := w.tables.edges ++ rows }
  ticks : w.ticks <= w'.ticks
  kept : forall e, e ∈ G.edges -> e ∈ G'.edges
  joined : (forall n, w.ticks <= n -> n < w'.ticks -> env.fault n = none) ->
    forall edge, edge ∈ requests -> Joined G' edge

theorem Joined.mono {G' : Multigraph MemoryId (StoredEdge F)} {edge : MemoryEdge F}
    (h : Joined G edge) (hkept : forall e, e ∈ G.edges -> e ∈ G'.edges) : Joined G' edge := by
  rcases h with ⟨l, hl, hmem⟩
  exact ⟨l, hl, hkept _ hmem⟩

theorem Linkable.congr {w' : World F} {edge : MemoryEdge F} (h : Linkable w edge)
    (hmemories : w'.tables.memories = w.tables.memories) : Linkable w' edge where
  link := h.link
  upward := h.upward
  source := by
    rw [hmemories]
    exact h.source
  target := by
    rw [hmemories]
    exact h.target

theorem linkAll_outcome (env : Env F) (requests : List (MemoryEdge F)) (hG : LinksSettled w G)
    (hreg : AllRegistered w) (h : forall edge, edge ∈ requests -> Linkable w edge) :
    exists w' G', Prog.forEach requests (linkUnlessLinked env) w = (Except.ok (), w') ∧
      LinkOutcome env requests w G w' G' := by
  induction requests generalizing w G with
  | nil =>
      refine ⟨w, G, rfl, hG, hreg, ⟨[], by rw [List.append_nil]⟩, Nat.le_refl _,
        fun _ he => he, ?_⟩
      intro _ edge hedge
      cases hedge
  | cons edge rest ih =>
      have hhead := h edge List.mem_cons_self
      have htail : forall e, e ∈ rest -> Linkable w e :=
        fun e he => h e (List.mem_cons_of_mem edge he)
      rcases linkUnlessLinked_cases env hG hreg hhead with
        ⟨hjoined, hrun⟩ | ⟨⟨e, hfault⟩, hrun⟩ | ⟨hnew, g, hrep, hrun⟩
      · rcases ih hG hreg htail with ⟨w', G', hloop, hout⟩
        refine ⟨w', G', ?_, hout.settled, hout.registered, hout.tables, hout.ticks, hout.kept, ?_⟩
        · rw [Prog.forEach_cons_of_ok hrun, hloop]
        · intro hcalm edge' hedge'
          rcases List.mem_cons.mp hedge' with heq | hmem
          · rw [heq]
            exact hjoined.mono hout.kept
          · exact hout.joined hcalm edge' hmem
      · have hsame : LinksSettled { w with ticks := w.ticks + 1 } G :=
          ⟨hG.represents, hG.linked, hG.stored⟩
        rcases ih hsame hreg (fun e he => (htail e he).congr rfl) with ⟨w', G', hloop, hout⟩
        have hticks : w.ticks < w'.ticks := hout.ticks
        refine ⟨w', G', ?_, hout.settled, hout.registered, hout.tables, Nat.le_of_lt hticks,
          hout.kept, ?_⟩
        · rw [Prog.forEach_cons_of_ok hrun, hloop]
        · intro hcalm
          have hnone := hcalm w.ticks (Nat.le_refl _) hticks
          rw [hfault] at hnone
          cases hnone
      · have hsettled := hG.cons hhead hnew hrep (w.ticks + 1)
        have hreg' : AllRegistered
            { w with
              tables := { w.tables with
                edges := w.tables.edges ++ [Tables.rowOfEdge edge] }
              graph := g
              ticks := w.ticks + 1 } := by
          intro id hid
          exact (mem_nodes_iff hrep).mp (hreg.mem_nodes hG.represents hid)
        rcases ih hsettled hreg' (fun e he => (htail e he).congr rfl) with
          ⟨w', G', hloop, hout⟩
        have hticks : w.ticks < w'.ticks := hout.ticks
        refine ⟨w', G', ?_, hout.settled, hout.registered, ?_, Nat.le_of_lt hticks, ?_, ?_⟩
        · rw [Prog.forEach_cons_of_ok hrun, hloop]
        · rcases hout.tables with ⟨rows, hrows⟩
          refine ⟨Tables.rowOfEdge edge :: rows, ?_⟩
          rw [hrows]
          simp only [List.append_assoc, List.singleton_append]
        · intro e he
          exact hout.kept e (Multiset.mem_cons_of_mem he)
        · intro hcalm edge' hedge'
          rcases List.mem_cons.mp hedge' with heq | hmem
          · rw [heq]
            exact ⟨_, hhead.link, hout.kept _ (Multiset.mem_cons_self _ _)⟩
          · exact hout.joined (fun n hn hlt => hcalm n (Nat.le_of_lt hn) hlt) edge' hmem

/-- Pairs that are linked are passed over. -/
theorem linkAll_linked (env : Env F) (requests : List (MemoryEdge F)) (hG : w.graph.Represents G)
    (h : forall edge, edge ∈ requests -> Joined G edge) :
    Prog.forEach requests (linkUnlessLinked env) w = (Except.ok (), w) := by
  induction requests with
  | nil => rfl
  | cons edge rest ih =>
      have hlinked := (alreadyLinked_iff hG).mpr (h edge List.mem_cons_self)
      have hrun : linkUnlessLinked env edge w = (Except.ok (), w) := by
        show (if alreadyLinked w.graph edge.source edge.target then (pure () : Op F Unit)
          else do
            let _ ← Prog.attempt (relate env edge)
            pure ()) w = _
        rw [if_pos hlinked]
        rfl
      rw [Prog.forEach_cons_of_ok hrun]
      exact ih (fun e he => h e (List.mem_cons_of_mem edge he))

end Pairs

/-!
## The pairs of a group
-/

section Groups

theorem mem_laterPairs {α : Type} {R : α -> α -> Prop} (hR : forall a b, R a b -> ¬ R b a)
    {xs : List α} (h : xs.Pairwise R) {p : α × α} :
    p ∈ laterPairs xs <-> R p.1 p.2 ∧ p.1 ∈ xs ∧ p.2 ∈ xs := by
  induction xs with
  | nil => simp [laterPairs]
  | cons x rest ih =>
      rcases List.pairwise_cons.mp h with ⟨hx, hrest⟩
      rw [laterPairs, List.mem_append, ih hrest, List.mem_map]
      constructor
      · intro hp
        rcases hp with ⟨y, hy, heq⟩ | ⟨hR', h1, h2⟩
        · rw [← heq]
          exact ⟨hx y hy, List.mem_cons_self, List.mem_cons_of_mem x hy⟩
        · exact ⟨hR', List.mem_cons_of_mem x h1, List.mem_cons_of_mem x h2⟩
      · intro hp
        rcases hp with ⟨hR', h1, h2⟩
        rcases List.mem_cons.mp h1 with h1 | h1
        · rcases List.mem_cons.mp h2 with h2 | h2
          · rw [h1, h2] at hR'
            exact absurd hR' (hR x x hR')
          · exact Or.inl ⟨p.2, h2, by rw [← h1]⟩
        · rcases List.mem_cons.mp h2 with h2 | h2
          · rw [h2] at hR'
            exact absurd (hx p.1 h1) (hR p.1 x hR')
          · exact Or.inr ⟨hR', h1, h2⟩

theorem pairwise_idLt (ids : List MemoryId) : (orderBy idLe ids.dedup).Pairwise idLt :=
  ordersBy_idLe.pairwise_lt ((List.nodup_dedup ids).map uuid_toNat_injective)

theorem mem_groupPairs {ids : List MemoryId} {p : MemoryId × MemoryId} :
    p ∈ laterPairs (orderBy idLe ids.dedup) <-> idLt p.1 p.2 ∧ p.1 ∈ ids ∧ p.2 ∈ ids := by
  rw [mem_laterPairs (R := idLt) (fun a b hab hba => Nat.lt_asymm hab hba) (pairwise_idLt ids)]
  simp only [mem_orderBy, List.mem_dedup]

/-- The links of a group of memories. -/
def groupEdges (now : Timestamp) (name : String) (weight : F) (ids : List MemoryId) :
    List (MemoryEdge F) :=
  (laterPairs ids).map (fun pair => inferredEdge now pair.1 pair.2 EdgeType.related weight
    (some ("entity_link:" ++ name)))

theorem isEntityLink_of_mem_groupEdges {now : Timestamp} {name : String} {weight : F}
    {ids : List MemoryId} {edge : MemoryEdge F} (h : edge ∈ groupEdges now name weight ids) :
    IsEntityLink (StoredEdge.fromMemoryEdge edge) := by
  rcases List.mem_map.mp h with ⟨pair, _, heq⟩
  rw [← heq]
  refine ⟨rfl, ?_⟩
  show "entity_link:".toList.isPrefixOf ("entity_link:" ++ name).toList = true
  rw [String.toList_append, List.isPrefixOf_iff_prefix]
  exact List.prefix_append _ _

theorem exists_mem_groupEdges {now : Timestamp} {name : String} {weight : F}
    {ids : List MemoryId} {a b : MemoryId} :
    (exists edge, edge ∈ groupEdges now name weight (orderBy idLe ids.dedup) ∧
        edge.source = a ∧ edge.target = b) <->
      idLt a b ∧ a ∈ ids ∧ b ∈ ids := by
  unfold groupEdges
  constructor
  · intro h
    rcases h with ⟨edge, hedge, hsource, htarget⟩
    rcases List.mem_map.mp hedge with ⟨pair, hpair, heq⟩
    rw [← heq] at hsource htarget
    rw [← hsource, ← htarget]
    exact mem_groupPairs.mp hpair
  · intro h
    exact ⟨_, List.mem_map.mpr ⟨(a, b), mem_groupPairs.mpr h, rfl⟩, rfl, rfl⟩

end Groups

/-!
## The two calls
-/

section Calls

variable [Scalar F] {env : Env F} {w : World F}

/-- The links that the resolver's names ask for. -/
def linkRequests (o : HashOrder) (resolve : String -> Option String)
    (map : Assoc String (List MemoryId)) (now : Timestamp) : List (MemoryEdge F) :=
  (o.order (canonicalGroups o resolve map).entries).flatMap (fun group =>
    groupEdges now group.1 1 (groupMemoryIds map group))

theorem linkEntities_eq (resolve : String -> Option String) :
    linkEntities env resolve w =
      Prog.forEach (linkRequests env.hashOrder resolve (buildEntityMemoryMap env.text w.tables)
        (env.clock w.ticks)) (linkUnlessLinked env) { w with ticks := w.ticks + 1 } := by
  unfold linkRequests
  rw [Prog.forEach_flatMap]
  have hgroup : forall group : String × List String,
      Prog.forEach (groupEdges (env.clock w.ticks) group.1 1
          (groupMemoryIds (buildEntityMemoryMap env.text w.tables) group)) (linkUnlessLinked env) =
        Prog.forEach (laterPairs (groupMemoryIds (buildEntityMemoryMap env.text w.tables) group))
          (linkPair env (env.clock w.ticks) group.1) := by
    intro group
    unfold groupEdges
    rw [Prog.forEach_map]
    rfl
  simp only [hgroup]
  rfl

/-- The links that groups of names ask for. -/
def resolutionRequests (text : TextOps F) (map : Assoc String (List MemoryId)) (now : Timestamp)
    (groups : List (EntityLinkResolution F)) : List (MemoryEdge F) :=
  groups.flatMap (fun group =>
    groupEdges now (text.toLowercase group.canonical) group.confidence
      (resolutionMemoryIds text map group))

omit [Scalar F] in
theorem applyEntityLinkResolutions_eq (groups : List (EntityLinkResolution F)) :
    applyEntityLinkResolutions env groups w =
      Prog.forEach (resolutionRequests env.text (buildEntityMemoryMap env.text w.tables)
        (env.clock w.ticks) groups) (linkUnlessLinked env) { w with ticks := w.ticks + 1 } := by
  unfold resolutionRequests
  rw [Prog.forEach_flatMap]
  have hgroup : forall group : EntityLinkResolution F,
      Prog.forEach (groupEdges (env.clock w.ticks) (env.text.toLowercase group.canonical)
          group.confidence
          (resolutionMemoryIds env.text (buildEntityMemoryMap env.text w.tables) group))
          (linkUnlessLinked env) =
        Prog.forEach (laterPairs
          (resolutionMemoryIds env.text (buildEntityMemoryMap env.text w.tables) group))
          (linkResolved env (env.clock w.ticks) group) := by
    intro group
    unfold groupEdges
    rw [Prog.forEach_map]
    rfl
  simp only [hgroup]
  rfl

/-- The memories of a canonical name: under a name that resolves to it, or under itself. -/
def GroupMember (resolve : String -> Option String) (map : Assoc String (List MemoryId))
    (c : String) (id : MemoryId) : Prop :=
  (exists name, resolve name = some c ∧ id ∈ (map.find? name).getD []) ∨
    id ∈ (map.find? c).getD []

/-- Two memories of one canonical name that the resolver knows some stored name by. -/
def SameGroup (resolve : String -> Option String) (map : Assoc String (List MemoryId))
    (a b : MemoryId) : Prop :=
  exists c, (exists name, map.contains name = true ∧ resolve name = some c) ∧
    GroupMember resolve map c a ∧ GroupMember resolve map c b

theorem canonicalGroups_eq (o : HashOrder) (resolve : String -> Option String)
    (map : Assoc String (List MemoryId)) :
    canonicalGroups o resolve map = Assoc.gather resolve (fun name => name) (o.order map.keys) := by
  unfold canonicalGroups Assoc.gather
  congr 1
  funext groups name
  cases resolve name with
  | none => rfl
  | some canonical => rfl

theorem mem_namesOf {o : HashOrder} {resolve : String -> Option String}
    {map : Assoc String (List MemoryId)} {c : String} {names : List String}
    (h : (c, names) ∈ (canonicalGroups o resolve map).entries) {name : String} :
    name ∈ names <-> map.contains name = true ∧ resolve name = some c := by
  rw [← Assoc.find?_eq_some_iff] at h
  have hnames := Assoc.getD_find?_gather resolve (fun name => name) (o.order map.keys) c
  rw [← canonicalGroups_eq, h, Option.getD_some] at hnames
  rw [hnames, List.map_id', List.mem_filter, HashOrder.mem_order, decide_eq_true_eq,
    Assoc.contains_iff_mem_keys]

theorem mem_memoriesOf {o : HashOrder} {resolve : String -> Option String}
    {map : Assoc String (List MemoryId)} {c : String} {names : List String}
    (h : (c, names) ∈ (canonicalGroups o resolve map).entries) {id : MemoryId} :
    id ∈ names.flatMap (fun name => (map.find? name).getD []) ++ (map.find? c).getD [] <->
      GroupMember resolve map c id := by
  unfold GroupMember
  rw [List.mem_append, List.mem_flatMap]
  constructor
  · intro hid
    rcases hid with ⟨name, hname, hid⟩ | hid
    · exact Or.inl ⟨name, ((mem_namesOf h).mp hname).2, hid⟩
    · exact Or.inr hid
  · intro hid
    rcases hid with ⟨name, hname, hid⟩ | hid
    · refine Or.inl ⟨name, (mem_namesOf h).mpr ⟨?_, hname⟩, hid⟩
      unfold Assoc.contains
      cases hfind : map.find? name with
      | none =>
          rw [hfind] at hid
          cases hid
      | some ids => rfl
    · exact Or.inr hid

/-- Whatever the order of the groups, the pairs are those of memories in one group. -/
theorem linkRequests_pairs (o : HashOrder) (resolve : String -> Option String)
    (map : Assoc String (List MemoryId)) (now : Timestamp) (a b : MemoryId) :
    (exists edge, edge ∈ linkRequests (F := F) o resolve map now ∧ edge.source = a ∧
        edge.target = b) <->
      idLt a b ∧ SameGroup resolve map a b := by
  unfold linkRequests SameGroup
  constructor
  · intro h
    rcases h with ⟨edge, hedge, hsource, htarget⟩
    rcases List.mem_flatMap.mp hedge with ⟨⟨c, names⟩, hgroup, hmem⟩
    rw [HashOrder.mem_order] at hgroup
    rcases exists_mem_groupEdges.mp ⟨edge, hmem, hsource, htarget⟩ with ⟨hlt, ha, hb⟩
    refine ⟨hlt, c, ?_, (mem_memoriesOf hgroup).mp ha, (mem_memoriesOf hgroup).mp hb⟩
    have hkey : (canonicalGroups o resolve map).contains c = true :=
      Assoc.contains_iff_exists.mpr ⟨names, Assoc.find?_eq_some_iff.mpr hgroup⟩
    rw [canonicalGroups_eq, Assoc.contains_gather_iff] at hkey
    rcases hkey with ⟨name, hname, hresolve⟩
    rw [HashOrder.mem_order, ← Assoc.contains_iff_mem_keys] at hname
    exact ⟨name, hname, hresolve⟩
  · intro h
    rcases h with ⟨hlt, c, ⟨name, hname, hresolve⟩, ha, hb⟩
    have hkey : (canonicalGroups o resolve map).contains c = true := by
      rw [canonicalGroups_eq, Assoc.contains_gather_iff]
      refine ⟨name, ?_, hresolve⟩
      rw [HashOrder.mem_order, ← Assoc.contains_iff_mem_keys]
      exact hname
    rcases Assoc.contains_iff_exists.mp hkey with ⟨names, hfind⟩
    have hgroup := Assoc.find?_eq_some_iff.mp hfind
    have hboth := And.intro hlt (And.intro ((mem_memoriesOf hgroup).mpr ha)
      ((mem_memoriesOf hgroup).mpr hb))
    have hedges : exists edge : MemoryEdge F,
        edge ∈ groupEdges now c 1 (groupMemoryIds map (c, names)) ∧
          edge.source = a ∧ edge.target = b := exists_mem_groupEdges.mpr hboth
    rcases hedges with ⟨edge, hedge, hends⟩
    refine ⟨edge, List.mem_flatMap.mpr ⟨(c, names), ?_, hedge⟩, hends⟩
    rw [HashOrder.mem_order]
    exact hgroup

end Calls

/-!
## Runs
-/

/-- A database with the resolver of its entity names. -/
structure EntityDatabase (F : Type) where
  world : World F
  resolver : EntityResolver F

inductive LinkingCall (F : Type) where
  | linkEntities
  | applyEntityLinkResolutions (groups : List (EntityLinkResolution F))
      (separations : List (String × String))
  | store (node : MemoryNode F)
  | resolver (call : ResolverCall F)

/-- What the resolver learns of a group: aliases other than the name itself. -/
def EntityLinkResolution.mergeGroup (text : TextOps F) (group : EntityLinkResolution F) :
    EntityMergeGroup F where
  canonical := group.canonical
  aliases := group.aliases.filter (fun aliasName =>
    decide (text.toLowercase aliasName ≠ text.toLowercase group.canonical))
  confidence := group.confidence

/-- The canonical name of a name that is not just itself. -/
def EntityResolver.known [Scalar F] (text : TextOps F) (r : EntityResolver F) (name : String) :
    Option String :=
  let resolved := r.resolve text name
  if resolved.source = ResolutionSource.identity then none else some resolved.canonical

namespace EntityDatabase

variable [Scalar F]

def linkEntities (env : Env F) (order : HashOrder) (db : EntityDatabase F) : EntityDatabase F :=
  { db with
    world := (Facade.linkEntities { env with hashOrder := order }
      (db.resolver.known env.text) db.world).2 }

def applyEntityLinkResolutions (env : Env F) (groups : List (EntityLinkResolution F))
    (separations : List (String × String)) (db : EntityDatabase F) : EntityDatabase F where
  world := (Facade.applyEntityLinkResolutions env groups db.world).2
  resolver :=
    let learned := groups.foldl (fun r group => r.learnGroup env.text (group.mergeGroup env.text))
      db.resolver
    separations.foldl (fun r pair => r.markDifferent env.text pair.1 pair.2) learned

/-- The hash tables of each call are iterated in an order of their own. -/
def step (env : Env F) (orders : Nat -> HashOrder) (db : EntityDatabase F) :
    LinkingCall F -> EntityDatabase F
  | LinkingCall.linkEntities => db.linkEntities env (orders db.world.ticks)
  | LinkingCall.applyEntityLinkResolutions groups separations =>
      db.applyEntityLinkResolutions env groups separations
  | LinkingCall.store node => { db with world := (Facade.store env node db.world).2 }
  | LinkingCall.resolver call => { db with resolver := db.resolver.after env.text call }

end EntityDatabase

/-- Every stored memory is a node, and a store finds an unused index for another one. -/
def Ready (db : EntityDatabase F) (call : LinkingCall F) : Prop :=
  AllRegistered db.world ∧
    forall node, call = LinkingCall.store node -> db.world.graph.idxToId.length < u32Size

def LinksInOrder (w : World F) : Prop := exists G, LinksSettled w G

section Stores

variable {env : Env F}

theorem viewsMemories_linksInOrder : ViewsMemories (LinksInOrder : World F -> Prop) := by
  intro w w' hgraph _ _ hedges _ h
  rcases h with ⟨G, hG⟩
  have hstored : (storedGraph w'.tables).edges = (storedGraph w.tables).edges := by
    unfold storedGraph Tables.allEdges
    rw [hedges]
  refine ⟨G, ?_, hG.linked, ?_⟩
  · rw [hgraph]
    exact hG.represents
  · rw [hstored]
    exact hG.stored

/-- An edge that is no entity link changes no links, also when the graph refuses it. -/
theorem keeps_relate_other {edge : MemoryEdge F}
    (h : edge.edgeType = EdgeType.related -> edge.label = none) :
    Prog.Keeps LinksInOrder (relate env edge) := by
  have hother : ¬ IsEntityLink (labelled edge).2.2 := by
    intro hlink
    have hlabel := hlink.2
    have hnone : (labelled edge).2.2.label = none := h hlink.1
    rw [hnone] at hlabel
    cases hlabel
  have hticks := (viewsMemories_linksInOrder (F := F)).ignoresTicks
  apply Prog.Keeps.bind
  · apply keeps_transact hticks
    intro w t hw hrun
    rcases hw with ⟨G, hG⟩
    refine ⟨G, hG.represents, hG.linked, ?_⟩
    rw [storedGraph_addEdgeOn hrun]
    exact (entityLinks_cons_other hother).trans hG.stored
  · intro _ w hw
    rcases hw with ⟨G, hG⟩
    unfold onGraph
    by_cases hends : edge.source ∈ G.nodes ∧ edge.target ∈ G.nodes
    · rcases hG.represents.addRelationship_ok hends.1 hends.2 with ⟨g, hok, _, hrep⟩
      simp only [hok]
      refine ⟨_, hrep, hG.linked.congr (entityLinks_cons_other hother), ?_⟩
      exact hG.stored.trans (entityLinks_cons_other hother).symm
    · rcases hG.represents.addRelationship_error (not_and_or.mp hends) with ⟨e, herr⟩
      simp only [herr]
      exact ⟨G, hG⟩

variable [Scalar F]

theorem storeClosed_linksInOrder : StoreClosed (LinksInOrder : World F -> Prop) where
  ignoresTicks := viewsMemories_linksInOrder.ignoresTicks
  storeOn := by
    intro w t node dim h hrun
    rcases h with ⟨G, hG⟩
    refine ⟨G, hG.represents, hG.linked, ?_⟩
    show entityLinks (storedGraph t).edges = entityLinks G.edges
    rw [storedGraph_storeMemoryOn hrun]
    exact hG.stored

/-- A store that finds an unused index adds no entity link. -/
theorem triple_store_linksInOrder (node : MemoryNode F) :
    Prog.Triple (fun w => LinksInOrder w ∧ w.graph.idxToId.length < u32Size) (store env node)
      (fun _ => LinksInOrder) LinksInOrder := by
  have hviews : ViewsMemories (fun w : World F =>
      LinksInOrder w ∧ w.graph.idxToId.length < u32Size) := by
    intro w w' hgraph hmemories htags hedges hle h
    refine ⟨viewsMemories_linksInOrder w w' hgraph hmemories htags hedges hle h.1, ?_⟩
    rw [hgraph]
    exact h.2
  have hstore : StoreClosed (fun w : World F =>
      LinksInOrder w ∧ w.graph.idxToId.length < u32Size) :=
    ⟨hviews.ignoresTicks, fun w t node dim h hrun =>
      ⟨storeClosed_linksInOrder.storeOn w t node dim h.1 hrun, h.2⟩⟩
  apply Prog.Triple.bind ((keeps_provision hviews [node]).triple (fun _ h => h.1))
  intro _
  apply Prog.Triple.bind ((hstore.keeps_dbStoreMemory node).triple (fun _ h => h.1))
  intro _
  apply Prog.Triple.bind (Q := fun _ => LinksInOrder)
  · apply Prog.triple_modify
    intro w h
    rcases h with ⟨⟨G, hG⟩, hroom⟩
    exact ⟨G.addNode node.id, hG.represents.addMemory hroom node.id, hG.linked, hG.stored⟩
  · intro _
    apply Prog.Triple.bind (Q := fun _ => LinksInOrder)
    · exact Prog.Triple.attempt (keeps_indexMemoryEntities viewsMemories_linksInOrder node)
    · intro _
      apply Prog.triple_ite
      · intro _
        apply storeClosed_linksInOrder.rewrites.keeps_runWriteInference
        intro edge hedge
        apply keeps_relate_other
        intro hrelated
        apply hedge
        rw [hrelated]
        exact EdgeType.noConfusion
      · intro _
        exact Prog.keeps_pure ()

end Stores

section Linking

variable {env : Env F} {w : World F}

theorem contains_of_listed {text : TextOps F} {t : Tables F} {n : String} {id : MemoryId}
    (h : id ∈ ((buildEntityMemoryMap text t).find? n).getD []) :
    t.memories.contains id = true := by
  rcases (mem_buildEntityMemoryMap text).mp h with ⟨mem, hmem, _, hid⟩
  rw [← hid]
  exact Tables.contains_of_getMemory (Tables.mem_allMemories hmem)

theorem linkable_of_mem_groupEdges {now : Timestamp} {name : String} {weight : F}
    {ids : List MemoryId} {edge : MemoryEdge F}
    (hids : forall id, id ∈ ids -> w.tables.memories.contains id = true)
    (h : edge ∈ groupEdges now name weight (orderBy idLe ids.dedup)) : Linkable w edge := by
  rcases exists_mem_groupEdges.mp ⟨edge, h, rfl, rfl⟩ with ⟨hlt, hsource, htarget⟩
  exact ⟨isEntityLink_of_mem_groupEdges h, hlt, hids _ hsource, hids _ htarget⟩

variable [Scalar F]

theorem linkable_linkRequests {text : TextOps F} {o : HashOrder} {resolve : String -> Option String}
    {now : Timestamp} {edge : MemoryEdge F}
    (h : edge ∈ linkRequests o resolve (buildEntityMemoryMap text w.tables) now) :
    Linkable w edge := by
  rcases List.mem_flatMap.mp h with ⟨⟨c, names⟩, _, hedge⟩
  refine linkable_of_mem_groupEdges ?_ hedge
  intro id hid
  rw [List.mem_append, List.mem_flatMap] at hid
  rcases hid with ⟨name, _, hid⟩ | hid
  · exact contains_of_listed hid
  · exact contains_of_listed hid

omit [Scalar F] in
theorem linkable_resolutionRequests {text : TextOps F} {now : Timestamp}
    {groups : List (EntityLinkResolution F)} {edge : MemoryEdge F}
    (h : edge ∈ resolutionRequests text (buildEntityMemoryMap text w.tables) now groups) :
    Linkable w edge := by
  rcases List.mem_flatMap.mp h with ⟨group, _, hedge⟩
  refine linkable_of_mem_groupEdges ?_ hedge
  intro id hid
  rw [List.mem_append, List.mem_flatMap] at hid
  rcases hid with hid | ⟨name, _, hid⟩
  · exact contains_of_listed hid
  · exact contains_of_listed hid

/-- What a pass over all entities does. -/
theorem linkEntities_outcome (env : Env F) {db : EntityDatabase F}
    {G : Multigraph MemoryId (StoredEdge F)} (hG : LinksSettled db.world G)
    (hreg : AllRegistered db.world) (order : HashOrder) :
    exists w' G', (db.linkEntities env order).world = w' ∧
      LinkOutcome { env with hashOrder := order }
        (linkRequests order (db.resolver.known env.text)
          (buildEntityMemoryMap env.text db.world.tables) (env.clock db.world.ticks))
        { db.world with ticks := db.world.ticks + 1 } G w' G' := by
  have hticked : LinksSettled { db.world with ticks := db.world.ticks + 1 } G :=
    ⟨hG.represents, hG.linked, hG.stored⟩
  rcases linkAll_outcome { env with hashOrder := order }
    (linkRequests order (db.resolver.known env.text)
      (buildEntityMemoryMap env.text db.world.tables) (env.clock db.world.ticks))
    hticked hreg (fun edge hedge => linkable_linkRequests hedge) with ⟨w', G', hloop, hout⟩
  refine ⟨w', G', ?_, hout⟩
  show (Facade.linkEntities { env with hashOrder := order } (db.resolver.known env.text)
    db.world).2 = w'
  rw [linkEntities_eq, hloop]

/-- Every call keeps the links in order. -/
theorem step_linksInOrder {orders : Nat -> HashOrder} {db : EntityDatabase F}
    {call : LinkingCall F} (h : LinksInOrder db.world) (hready : Ready db call) :
    LinksInOrder (db.step env orders call).world := by
  rcases h with ⟨G, hG⟩
  have hreg : AllRegistered db.world := hready.1
  cases call with
  | linkEntities =>
      rcases linkEntities_outcome env hG hreg (orders db.world.ticks) with
        ⟨w', G', hworld, hout⟩
      have hstepped : (db.step env orders LinkingCall.linkEntities).world = w' := hworld
      rw [hstepped]
      exact ⟨G', hout.settled⟩
  | applyEntityLinkResolutions groups separations =>
      rcases linkAll_outcome env
        (resolutionRequests env.text (buildEntityMemoryMap env.text db.world.tables)
          (env.clock db.world.ticks) groups)
        (w := { db.world with ticks := db.world.ticks + 1 })
        ⟨hG.represents, hG.linked, hG.stored⟩ hreg
        (fun edge hedge => linkable_resolutionRequests hedge) with
          ⟨w', G', hloop, hout⟩
      have hworld : (db.step env orders
          (LinkingCall.applyEntityLinkResolutions groups separations)).world = w' := by
        show (Facade.applyEntityLinkResolutions env groups db.world).2 = w'
        rw [applyEntityLinkResolutions_eq, hloop]
      rw [hworld]
      exact ⟨G', hout.settled⟩
  | store node =>
      exact Prog.Triple.state (triple_store_linksInOrder node) ⟨⟨G, hG⟩, hready.2 node rfl⟩
  | resolver call => exact ⟨G, hG⟩

/-- A second call in a row finds every pair linked that the first one could write. -/
theorem linkEntities_again {db : EntityDatabase F} (h : LinksInOrder db.world)
    (hreg : AllRegistered db.world) (order again : HashOrder)
    (hwritten : forall n, db.world.ticks <= n -> n < (db.linkEntities env order).world.ticks ->
      env.fault n = none) :
    ((db.linkEntities env order).linkEntities env again).world =
      { (db.linkEntities env order).world with
        ticks := (db.linkEntities env order).world.ticks + 1 } := by
  rcases h with ⟨G, hG⟩
  rcases linkEntities_outcome env hG hreg order with ⟨w', G', hworld, hout⟩
  rw [hworld] at hwritten ⊢
  have hjoined := hout.joined (fun n hn hlt => hwritten n (Nat.le_of_succ_le hn) hlt)
  -- links are not what the names of the memories are read from
  have hmap : buildEntityMemoryMap env.text w'.tables =
      buildEntityMemoryMap env.text db.world.tables := by
    rcases hout.tables with ⟨rows, hrows⟩
    rw [hrows]
    rfl
  show (Facade.linkEntities { env with hashOrder := again } (db.resolver.known env.text)
    (db.linkEntities env order).world).2 = _
  rw [hworld, linkEntities_eq]
  have hpassed := linkAll_linked { env with hashOrder := again }
    (w := { w' with ticks := w'.ticks + 1 }) (linkRequests again (db.resolver.known env.text)
      (buildEntityMemoryMap env.text w'.tables) (env.clock w'.ticks)) hout.settled.represents (by
    intro edge hedge
    rw [hmap] at hedge
    have hpair := (linkRequests_pairs again (db.resolver.known env.text)
      (buildEntityMemoryMap env.text db.world.tables) (env.clock w'.ticks) edge.source
      edge.target).mp ⟨edge, hedge, rfl, rfl⟩
    rcases (linkRequests_pairs (F := F) order (db.resolver.known env.text)
      (buildEntityMemoryMap env.text db.world.tables) (env.clock db.world.ticks) edge.source
      edge.target).mpr hpair with ⟨first, hfirst, hsource, htarget⟩
    rcases hjoined first hfirst with ⟨l, hl, hmem⟩
    rw [hsource, htarget] at hmem
    exact ⟨l, hl, hmem⟩)
  rw [hpassed]

/-- Both the graph and the tables. -/
def AtMostOneLink (w : World F) : Prop :=
  OncePerPair w.graph.liveEdges ∧ OncePerPair (storedGraph w.tables).edges

theorem LinksInOrder.atMostOneLink (h : LinksInOrder w) : AtMostOneLink w := by
  rcases h with ⟨G, hG⟩
  constructor
  · rw [hG.represents.liveEdges_eq]
    exact hG.linked.once
  · exact (hG.linked.congr hG.stored).once

def SameEdges (w w' : World F) : Prop :=
  w'.graph = w.graph ∧ w'.tables.edges = w.tables.edges

/-- In every run over states in which the stored memories are nodes, no two memories are
linked twice; and a call right after another one adds an edge only where the first one failed
to write it. -/
theorem entity_links_once (env : Env F) (orders : Nat -> HashOrder) {db db' : EntityDatabase F}
    {calls : List (LinkingCall F)} (hstart : LinksInOrder db.world)
    (hrun : Run (EntityDatabase.step env orders) Ready db calls db') :
    AtMostOneLink db'.world ∧
      (AllRegistered db'.world -> forall order again : HashOrder,
        (forall n, db'.world.ticks <= n -> n < (db'.linkEntities env order).world.ticks ->
          env.fault n = none) ->
        SameEdges (db'.linkEntities env order).world
          ((db'.linkEntities env order).linkEntities env again).world) := by
  have hlinks : LinksInOrder db'.world :=
    Run.invariant (I := fun d => LinksInOrder d.world)
      (fun _ _ h hready => step_linksInOrder h hready) hrun hstart
  constructor
  · exact hlinks.atMostOneLink
  · intro hreg order again hwritten
    rw [linkEntities_again hlinks hreg order again hwritten]
    exact ⟨rfl, rfl⟩

end Linking

section Examples

theorem allRegistered_iff {w : World F} :
    AllRegistered w <->
      forall id, id ∈ w.tables.allMemoryIds -> w.graph.containsNode id = true := by
  unfold AllRegistered Tables.allMemoryIds
  simp only [MemoryTable.mem_ids]

instance (w : World F) : Decidable (AllRegistered w) := decidable_of_iff _ allRegistered_iff.symm

/-- A database that is opened from tables with links in order has them in order. -/
theorem linksInOrder_openWithConfig {t : Tables F} (hedges : EdgesStored t)
    (hroom : t.allMemoryIds.length <= u32Size) (hlinked : LinkedOnce (storedGraph t).edges)
    (speculative : SpeculativeCache F) (retrievalConfig : RetrievalConfig F)
    (phantomConfig : PhantomConfig) (ticks : Nat) :
    LinksInOrder (openWithConfig t speculative retrievalConfig phantomConfig ticks) := by
  rcases mirrors_openWithConfig hedges hroom speculative retrievalConfig phantomConfig ticks with
    ⟨hrep, _⟩
  refine ⟨_, hrep, ?_, rfl⟩
  show LinkedOnce (storedGraph (t.init 0)).edges
  rw [storedGraph_init]
  exact hlinked

def entityMemory (id : Nat) (name : String) : MemoryNode Rat :=
  { MemoryNode.new ⟨BitVec.ofNat 128 id⟩ 1000 AgentId.nil MemoryType.semantic name [] with
    tags := ["entity:" ++ name] }

def namingEnv : Env Rat := { calmEnv CognitiveConfig.default with text := trimmedText }

/-- The first transaction after those of two stores fails. -/
def failingEnv : Env Rat :=
  { namingEnv with
    fault := fun n => if n = 5 then some (MenteError.storage "disk full") else none }

/-- Two memories under names that are known to be of one person. -/
def aliasCalls : List (LinkingCall Rat) :=
  [LinkingCall.store (entityMemory 1 "a"), LinkingCall.store (entityMemory 2 "b"),
    LinkingCall.resolver (ResolverCall.learn (LearnCall.learnGroup ⟨"b", ["a"], 1⟩))]

def afterCalls (env : Env Rat) (calls : List (LinkingCall Rat)) : EntityDatabase Rat :=
  calls.foldl (EntityDatabase.step env (fun _ => HashOrder.insertion))
    ⟨emptyWorld, EntityResolver.new⟩

theorem linksInOrder_emptyWorld : LinksInOrder emptyWorld := by
  apply linksInOrder_openWithConfig
  · intro e he
    cases he
  · decide
  · constructor
    · intro e he
      cases (mem_entityLinks.mp he).1
    · intro a b
      exact Nat.zero_le 1

theorem ready_of {db : EntityDatabase F} (hreg : AllRegistered db.world)
    (hroom : db.world.graph.idxToId.length < u32Size) (call : LinkingCall F) : Ready db call :=
  ⟨hreg, fun _ _ => hroom⟩

theorem run_aliasCalls (env : Env Rat) (hfirst : AllRegistered (afterCalls env []).world)
    (hsecond : AllRegistered (afterCalls env (aliasCalls.take 1)).world ∧
      (afterCalls env (aliasCalls.take 1)).world.graph.idxToId.length < u32Size)
    (hthird : AllRegistered (afterCalls env (aliasCalls.take 2)).world ∧
      (afterCalls env (aliasCalls.take 2)).world.graph.idxToId.length < u32Size) :
    Run (EntityDatabase.step env (fun _ => HashOrder.insertion)) Ready (afterCalls env [])
      aliasCalls (afterCalls env aliasCalls) := by
  have h0 : Run (EntityDatabase.step env (fun _ => HashOrder.insertion)) Ready
      (afterCalls env []) [] (afterCalls env []) := Run.nil _
  have h1 := h0.snoc (ready_of hfirst (show 0 < u32Size by decide) (aliasCalls[0]))
  have h2 := h1.snoc (ready_of hsecond.1 hsecond.2 (aliasCalls[1]))
  exact h2.snoc (ready_of hthird.1 hthird.2 (aliasCalls[2]))

/-- Two memories are linked once, and not again. -/
theorem entity_links_once_alias :
    (afterCalls namingEnv (aliasCalls ++ [LinkingCall.linkEntities])).world.tables.edges.length =
        1 ∧
      AtMostOneLink (afterCalls namingEnv aliasCalls).world ∧
      SameEdges ((afterCalls namingEnv aliasCalls).linkEntities namingEnv
          HashOrder.insertion).world
        (((afterCalls namingEnv aliasCalls).linkEntities namingEnv
          HashOrder.insertion).linkEntities namingEnv HashOrder.insertion).world := by
  have hrun := run_aliasCalls namingEnv (by decide +kernel)
    ⟨by decide +kernel, by decide +kernel⟩ ⟨by decide +kernel, by decide +kernel⟩
  have hlinks := entity_links_once namingEnv (fun _ => HashOrder.insertion)
     linksInOrder_emptyWorld hrun
  refine ⟨by decide +kernel, hlinks.1, ?_⟩
  exact hlinks.2 (by decide +kernel) HashOrder.insertion HashOrder.insertion (fun _ _ _ => rfl)

/-- A link that could not be written is made by the next call. -/
theorem failed_link_is_made_later :
    exists db, Run (EntityDatabase.step failingEnv (fun _ => HashOrder.insertion)) Ready
        ⟨emptyWorld, EntityResolver.new⟩ aliasCalls db ∧
      AllRegistered db.world ∧
      ¬ SameEdges (db.linkEntities failingEnv HashOrder.insertion).world
        ((db.linkEntities failingEnv HashOrder.insertion).linkEntities failingEnv
          HashOrder.insertion).world := by
  refine ⟨afterCalls failingEnv aliasCalls, ?_, by decide +kernel, ?_⟩
  · exact run_aliasCalls failingEnv (by decide +kernel) ⟨by decide +kernel, by decide +kernel⟩
      ⟨by decide +kernel, by decide +kernel⟩
  · intro h
    have hsecond : (((afterCalls failingEnv aliasCalls).linkEntities failingEnv
        HashOrder.insertion).linkEntities failingEnv
          HashOrder.insertion).world.tables.edges.length = 1 := by decide +kernel
    have hfirst : ((afterCalls failingEnv aliasCalls).linkEntities failingEnv
        HashOrder.insertion).world.tables.edges.length = 0 := by decide +kernel
    have hlengths := hsecond.symm.trans ((congrArg List.length h.2).trans hfirst)
    exact absurd hlengths Nat.one_ne_zero

end Examples

end Facade
end MenteDb
