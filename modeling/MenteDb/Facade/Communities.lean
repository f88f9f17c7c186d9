import MenteDb.Facade.EntityLinks

/-!
# Edges of community summaries

A category of entities has a memory that summarizes it, with an edge to the memory of each
member.  A call for a category that has a summary rewrites the summary and writes the edges
again; the edges of earlier calls stay.
-/

namespace MenteDb
namespace Facade

open Foundation
open Sqlite
open Cognitive

variable {F : Type}

/-!
## Members and their edges
-/

/-- The memory is listed under the name. -/
def Named (text : TextOps F) (t : Tables F) (name : String) (id : MemoryId) : Prop :=
  exists mem, mem ∈ t.allMemories ∧ firstEntityName text mem = some name ∧ mem.id = id

/-- The memory has the name of a member, up to case and surrounding white space. -/
def MemberOf (text : TextOps F) (t : Tables F) (memberNames : List String) (id : MemoryId) :
    Prop :=
  exists name, name ∈ memberNames ∧ Named text t (tagName text name) id

/-- The name of a member is looked up in lowercase, with its white space. -/
def FoundUnder (text : TextOps F) (t : Tables F) (memberNames : List String) (id : MemoryId) :
    Prop :=
  exists name, name ∈ memberNames ∧ Named text t (text.toLowercase name) id

def communityEdges (category : String) (t : Tables F) : List (MemoryEdge F) :=
  t.allEdges.filter (fun e => decide
    (e.edgeType = EdgeType.derived ∧ e.label = some ("community_member:" ++ category)))

/-- The memories that a summary has an edge to, one for each edge. -/
def memberTargets (category : String) (t : Tables F) (id : MemoryId) : List MemoryId :=
  ((communityEdges category t).filter (fun e => decide (e.source = id))).map MemoryEdge.target

/-- One edge to each memory of a member, and no other. -/
structure ExactMembers (text : TextOps F) (category : String) (memberNames : List String)
    (t : Tables F) (id : MemoryId) : Prop where
  once : (memberTargets category t id).Nodup
  members : forall m, m ∈ memberTargets category t id <-> MemberOf text t memberNames m

/-- The edges there are before a call: one to each member that the look-up misses, usually
none; and no two of the names that are found are equal in lowercase. -/
structure Refreshable (text : TextOps F) (category : String) (memberNames : List String)
    (t : Tables F) (id : MemoryId) : Prop where
  once : (memberTargets category t id).Nodup
  missed : forall m, m ∈ memberTargets category t id <->
    MemberOf text t memberNames m ∧ ¬ FoundUnder text t memberNames m
  apart : memberNames.Pairwise (fun a b => (exists m, Named text t (text.toLowercase a) m) ->
    text.toLowercase a ≠ text.toLowercase b)

/-- The summary of a category: the first memory with its tag, or a new one. -/
def summaryId (env : Env F) (category : String) (w : World F) : MemoryId :=
  match w.tables.allMemories.find? (fun m => decide ("community:" ++ category ∈ m.tags)) with
  | some mem => mem.id
  | none => env.freshMemoryId (w.ticks + 1)

section Names

variable {text : TextOps F} {t t' : Tables F}

/-- Which memories have a name depends on what is stored and on the tags. -/
theorem named_iff {n : String} {id : MemoryId} :
    Named text t n id <-> t.memories.contains id = true ∧
      (((t.tagsOf id).filterMap entityTag).map (tagName text)).head? = some n := by
  constructor
  · intro h
    rcases h with ⟨mem, hmem, hfirst, hid⟩
    have hget := Tables.mem_allMemories hmem
    rw [hid] at hget
    refine ⟨Tables.contains_of_getMemory hget, ?_⟩
    rcases Option.map_eq_some_iff.mp hget with ⟨row, _, hnode⟩
    rw [← hnode] at hfirst
    exact hfirst
  · intro h
    rcases h with ⟨hstored, hfirst⟩
    rw [MemoryTable.contains_eq] at hstored
    rcases Option.isSome_iff_exists.mp hstored with ⟨row, hrow⟩
    have hget : t.getMemory id = some (Tables.nodeOfRow id row (t.tagsOf id)) := by
      unfold Tables.getMemory
      rw [hrow]
      rfl
    exact ⟨_, Tables.mem_allMemories_of_getMemory hget, hfirst, rfl⟩

end Names

/-!
## Storing the summary
-/

/-- What storing a summary leaves as it is; it can add memories that have no names. -/
structure KeepsMembers (category : String) (t0 : Tables F) (w : World F) : Prop where
  edges : communityEdges category w.tables = communityEdges category t0
  stored : forall id, t0.memories.contains id = true -> w.tables.memories.contains id = true
  tags : forall id tag, t0.memories.contains id = true ->
    w.tables.memoryTags.contains (id, tag) = t0.memoryTags.contains (id, tag)
  unnamed : forall id tag, t0.memories.contains id = false ->
    w.tables.memories.contains id = true -> w.tables.memoryTags.contains (id, tag) = true ->
      entityTag tag = none

section Keeping

variable {category : String} {t0 : Tables F}

theorem keepsMembers_self (w : World F) : KeepsMembers category w.tables w where
  edges := rfl
  stored _ h := h
  tags _ _ _ := rfl
  unnamed id _ h hstored _ := by
    rw [h] at hstored
    cases hstored

theorem KeepsMembers.congr {w w' : World F} (h : KeepsMembers category t0 w)
    (hedges : communityEdges category w'.tables = communityEdges category w.tables)
    (hstored : forall id, w'.tables.memories.contains id = w.tables.memories.contains id)
    (htags : forall key,
      w'.tables.memoryTags.contains key = w.tables.memoryTags.contains key) :
    KeepsMembers category t0 w' where
  edges := hedges.trans h.edges
  stored id hid := (hstored id).trans (h.stored id hid)
  tags id tag hid := (htags (id, tag)).trans (h.tags id tag hid)
  unnamed id tag hid hcontains htag := by
    rw [hstored] at hcontains
    rw [htags] at htag
    exact h.unnamed id tag hid hcontains htag

theorem viewsMemories_keepsMembers : ViewsMemories (KeepsMembers category t0) := by
  intro w w' _ hmemories htags hedges _ h
  apply h.congr
  · unfold communityEdges Tables.allEdges
    rw [hedges]
  · intro id
    rw [hmemories]
  · intro key
    rw [htags]

theorem KeepsMembers.named_iff {text : TextOps F} {w : World F}
    (h : KeepsMembers category t0 w) {n : String} {id : MemoryId} :
    Named text w.tables n id <-> Named text t0 n id := by
  rw [Facade.named_iff, Facade.named_iff]
  cases hid : t0.memories.contains id with
  | false =>
      constructor
      · intro hnamed
        rcases hnamed with ⟨hstored, hfirst⟩
        have hnone : (w.tables.tagsOf id).filterMap entityTag = [] := by
          rw [List.filterMap_eq_nil_iff]
          intro tag htag
          exact h.unnamed id tag hid hstored (Tables.mem_tagsOf.mp htag)
        rw [hnone] at hfirst
        cases hfirst
      · intro hnamed
        cases hnamed.1
  | true =>
      rw [h.stored id hid, Tables.tagsOf_congr]
      intro tag
      rw [h.tags id tag hid]

variable [Scalar F] {env : Env F}

theorem rewriteClosed_keepsMembers : RewriteClosed (KeepsMembers category t0) where
  ignoresTicks := viewsMemories_keepsMembers.ignoresTicks
  rewriteOn := by
    intro w t loaded node dim h hget htags hrun
    apply h.congr
    · unfold communityEdges Tables.allEdges
      rw [Tables.storeMemoryOn_edges hrun]
    · intro id
      rw [Tables.contains_storeMemoryOn hrun]
      cases hid : decide (id = node.id) with
      | false => rfl
      | true =>
          rw [of_decide_eq_true hid, Tables.contains_of_getMemory hget]
          rfl
    · rintro ⟨id, tag⟩
      rw [Bool.eq_iff_iff, Tables.storeMemoryOn_tags hrun, htags,
        Tables.mem_tags_of_getMemory hget]
      by_cases hid : id = node.id
      · rw [hid]
        simp
      · simp [hid]

omit [Scalar F] in
/-- Only an edge for the category changes the edges of the category. -/
theorem keeps_relate_keepsMembers {edge : MemoryEdge F}
    (h : edge.edgeType ≠ EdgeType.contradicts -> edge.label = none) :
    Prog.Keeps (KeepsMembers category t0) (relate env edge) := by
  apply Prog.Keeps.bind
  · apply keeps_transact viewsMemories_keepsMembers.ignoresTicks
    intro w t hw hrun
    cases hrun
    apply hw.congr
    · unfold communityEdges Tables.allEdges
      rw [List.map_append, List.map_singleton, Tables.edgeOfRow_rowOfEdge, List.filter_append,
        List.filter_singleton, decide_eq_false, Bool.cond_false, List.append_nil]
      rintro ⟨htype, hlabel⟩
      rw [h (by rw [htype]; exact EdgeType.noConfusion)] at hlabel
      cases hlabel
    · intro _
      rfl
    · intro _
      rfl
  · intro _
    exact keeps_onGraph (fun _ _ hw => hw.congr rfl (fun _ => rfl) (fun _ => rfl))

/-- A memory without names can be stored under an unused identifier. -/
theorem keeps_storeUnnamed {node : MemoryNode F} (hid : t0.memories.contains node.id = false)
    (htags : forall tag, tag ∈ node.tags -> entityTag tag = none) :
    Prog.Keeps (KeepsMembers category t0) (store env node) := by
  apply keeps_store_of (keeps_provision viewsMemories_keepsMembers [node]) ?_
    (fun _ hw => hw.congr rfl (fun _ => rfl) (fun _ => rfl))
    (keeps_indexMemoryEntities viewsMemories_keepsMembers node)
    (fun _ => rewriteClosed_keepsMembers.keeps_runWriteInference
      (fun _ hedge => keeps_relate_keepsMembers hedge) node)
  apply Prog.Keeps.bind (Prog.keeps_gets _)
  intro dim
  apply keeps_transact viewsMemories_keepsMembers.ignoresTicks
  intro w t h hrun
  have hstore := Tables.storeMemory_ok hrun
  have hother : forall id, t0.memories.contains id = true -> id ≠ node.id := by
    intro id hold heq
    rw [heq, hid] at hold
    cases hold
  refine ⟨?_, ?_, ?_, ?_⟩
  · rw [← h.edges]
    unfold communityEdges Tables.allEdges
    rw [Tables.storeMemoryOn_edges hstore]
  · intro id hold
    rw [Tables.contains_storeMemoryOn hstore, h.stored id hold, Bool.or_true]
  · intro id tag hold
    rw [← h.tags id tag hold, Bool.eq_iff_iff, Tables.storeMemoryOn_tags hstore]
    simp [hother id hold]
  · intro id tag hnew hcontains htag
    rcases (Tables.storeMemoryOn_tags hstore id tag).mp htag with ⟨_, hmem⟩ | ⟨hne, hold⟩
    · exact htags tag hmem
    · rw [Tables.contains_storeMemoryOn hstore, decide_eq_false hne, Bool.false_or] at hcontains
      exact h.unnamed id tag hnew hcontains hold

/-- The identifier that is drawn for a new summary is not in use. -/
def DrawsUnused (env : Env F) (category : String) (w : World F) : Prop :=
  w.tables.allMemories.find? (fun m => decide ("community:" ++ category ∈ m.tags)) = none ->
    w.tables.memories.contains (env.freshMemoryId (w.ticks + 1)) = false

theorem entityTag_summaryTag {tag : String}
    (h : tag ∈ ["community_summary", "community:" ++ category, "source:enrichment"]) :
    entityTag tag = none := by
  unfold entityTag
  apply if_neg
  rw [Bool.not_eq_true]
  rcases List.mem_cons.mp h with heq | h
  · rw [heq]
    rfl
  rcases List.mem_cons.mp h with heq | h
  · rw [heq, String.toList_append]
    rfl
  · rw [List.mem_singleton.mp h]
    rfl

/-- A summary is written, and no edge of the category. -/
theorem triple_storeSummaryNode (services : EnrichmentServices F) (summary : String) {w0 : World F}
    (hunused : DrawsUnused env category w0) :
    Prog.Triple (fun w => w = { w0 with ticks := w0.ticks + 1 })
      (storeSummaryNode env services category summary)
      (fun id w => id = summaryId env category w0 ∧ KeepsMembers category w0.tables w)
      (fun _ => True) := by
  have hstart : KeepsMembers category w0.tables { w0 with ticks := w0.ticks + 1 } :=
    keepsMembers_self { w0 with ticks := w0.ticks + 1 }
  apply Prog.Triple.bind (Q := fun found w => w = { w0 with ticks := w0.ticks + 1 } ∧
    w0.tables.allMemories.find? (fun m => decide ("community:" ++ category ∈ m.tags)) = found)
  · apply Prog.triple_gets
    intro w hw
    rw [hw]
    exact ⟨rfl, rfl⟩
  · intro found
    apply Prog.Triple.of_and
    intro hfound
    unfold summaryId
    rw [hfound]
    cases found with
    | some mem =>
        have hget := Tables.mem_allMemories (List.mem_of_find?_eq_some hfound)
        have htags : ({ mem with
            content := summary
            embedding := (services.embedText summary).getD mem.embedding } : MemoryNode F).tags =
          mem.tags := rfl
        apply Prog.Triple.bind (Q := fun _ => KeepsMembers category w0.tables)
        · refine (rewriteClosed_keepsMembers.triple_dbStoreMemory htags).weaken ?_
            (fun _ _ h => h) (fun _ _ => trivial)
          intro w hw
          rw [hw]
          exact ⟨hstart, hget⟩
        · intro _ w h
          exact ⟨rfl, h⟩
    | none =>
        apply Prog.triple_gets_bind
        intro agentId
        apply Prog.Triple.bind (Q := fun node w => node.id = env.freshMemoryId (w0.ticks + 1) ∧
          KeepsMembers category w0.tables w)
        · intro w hw
          rw [hw]
          exact ⟨rfl, hstart.congr rfl (fun _ => rfl) (fun _ => rfl)⟩
        · intro node w hnode
          have hid : w0.tables.memories.contains node.id = false := by
            rw [hnode.1]
            exact hunused hfound
          refine Prog.Triple.bind (Q := fun _ => KeepsMembers category w0.tables)
            ((keeps_storeUnnamed ?_ ?_).triple (fun _ _ => trivial)) ?_ w hnode.2
          · exact hid
          · exact fun tag => entityTag_summaryTag
          · intro _ w' h
            exact ⟨hnode.1, h⟩

end Keeping

/-!
## What a call does
-/

/-- The memories that a call relates, in the order of the names. -/
def memberIds (text : TextOps F) (t : Tables F) (memberNames : List String) : List MemoryId :=
  memberNames.flatMap (fun name =>
    ((buildEntityMemoryMap text t).find? (text.toLowercase name)).getD [])

section Members

variable {text : TextOps F} {t : Tables F} {memberNames : List String}

theorem mem_memberIds {m : MemoryId} :
    m ∈ memberIds text t memberNames <-> FoundUnder text t memberNames m := by
  unfold memberIds
  simp only [List.mem_flatMap, mem_buildEntityMemoryMap]
  rfl

theorem Named.unique {a b : String} {m : MemoryId} (ha : Named text t a m)
    (hb : Named text t b m) : a = b := by
  rw [named_iff] at ha hb
  rw [ha.2] at hb
  exact Option.some.inj hb.2

/-- A memory is related twice only for two names that are equal in lowercase. -/
theorem nodup_memberIds_iff :
    (memberIds text t memberNames).Nodup <->
      memberNames.Pairwise (fun a b => (exists m, Named text t (text.toLowercase a) m) ->
        text.toLowercase a ≠ text.toLowercase b) := by
  have hlists : forall name, (((buildEntityMemoryMap text t).find? name).getD []).Nodup := by
    intro name
    rw [find?_buildEntityMemoryMap]
    exact (Tables.nodup_id_allMemories t).sublist (List.filter_sublist.map MemoryNode.id)
  unfold memberIds
  rw [List.nodup_flatMap]
  constructor
  · intro h
    refine h.2.imp ?_
    intro a b hdisjoint hnamed heq
    rcases hnamed with ⟨m, hm⟩
    refine hdisjoint ((mem_buildEntityMemoryMap text).mpr hm) ?_
    show m ∈ ((buildEntityMemoryMap text t).find? (text.toLowercase b)).getD []
    rw [← heq]
    exact (mem_buildEntityMemoryMap text).mpr hm
  · intro h
    refine ⟨fun name _ => hlists _, h.imp ?_⟩
    intro a b hne m hma hmb
    have ha := (mem_buildEntityMemoryMap text).mp hma
    have hb := (mem_buildEntityMemoryMap text).mp hmb
    exact hne ⟨m, ha⟩ (Named.unique ha hb)

/-- Names are stored trimmed, so a name that is found is one of a member. -/
theorem FoundUnder.memberOf (htrim : forall s, text.trim (text.trim s) = text.trim s)
    {m : MemoryId} (h : FoundUnder text t memberNames m) : MemberOf text t memberNames m := by
  rcases h with ⟨name, hname, mem, hmem, hfirst, hid⟩
  have htrimmed : tagName text name = text.toLowercase name := by
    rw [firstEntityName_eq] at hfirst
    rcases Option.map_eq_some_iff.mp hfirst with ⟨tag, _, htag⟩
    unfold tagName at htag ⊢
    rw [← htag, htrim]
  refine ⟨name, hname, mem, hmem, ?_, hid⟩
  rw [htrimmed]
  exact hfirst

/-- Where no name has white space around it, there must be no edges yet. -/
theorem refreshable_iff_of_trimmed {category : String} {id : MemoryId}
    (h : forall name, name ∈ memberNames -> tagName text name = text.toLowercase name) :
    Refreshable text category memberNames t id <-> memberTargets category t id = [] ∧
      memberNames.Pairwise (fun a b => (exists m, Named text t (text.toLowercase a) m) ->
        text.toLowercase a ≠ text.toLowercase b) := by
  have hfound : forall m, MemberOf text t memberNames m -> FoundUnder text t memberNames m := by
    intro m hm
    rcases hm with ⟨name, hname, hnamed⟩
    rw [h name hname] at hnamed
    exact ⟨name, hname, hnamed⟩
  constructor
  · intro hrefresh
    refine ⟨?_, hrefresh.apart⟩
    apply List.eq_nil_iff_forall_not_mem.mpr
    intro m hm
    have hmissed := (hrefresh.missed m).mp hm
    exact hmissed.2 (hfound m hmissed.1)
  · intro hnone
    rcases hnone with ⟨hnil, hapart⟩
    refine ⟨?_, ?_, hapart⟩
    · rw [hnil]
      exact List.nodup_nil
    · intro m
      rw [hnil]
      exact ⟨fun hm => absurd hm List.not_mem_nil, fun hm => absurd (hfound m hm.1) hm.2⟩

end Members

theorem nodup_append_exact_iff {α : Type} (old : List α) {new : List α} {P : α -> Prop}
    (hnew : forall a, a ∈ new -> P a) :
    ((old ++ new).Nodup ∧ forall a, a ∈ old ++ new <-> P a) <->
      old.Nodup ∧ (forall a, a ∈ old <-> P a ∧ a ∉ new) ∧ new.Nodup := by
  rw [List.nodup_append]
  constructor
  · intro h
    rcases h with ⟨⟨hold, hnodup, hapart⟩, hall⟩
    refine ⟨hold, ?_, hnodup⟩
    intro a
    constructor
    · intro ha
      exact ⟨(hall a).mp (List.mem_append_left new ha), fun hmem => hapart a ha a hmem rfl⟩
    · intro ha
      rcases List.mem_append.mp ((hall a).mpr ha.1) with hmem | hmem
      · exact hmem
      · exact absurd hmem ha.2
  · intro h
    rcases h with ⟨hold, hall, hnodup⟩
    refine ⟨⟨hold, hnodup, ?_⟩, ?_⟩
    · intro a ha b hb heq
      rw [← heq] at hb
      exact ((hall a).mp ha).2 hb
    · intro a
      rw [List.mem_append, hall]
      constructor
      · intro ha
        rcases ha with ha | ha
        · exact ha.1
        · exact hnew a ha
      · intro ha
        by_cases hmem : a ∈ new
        · exact Or.inr hmem
        · exact Or.inl ⟨ha, hmem⟩

section Calls

variable {env : Env F}

/-- Edges are appended, whatever is there already. -/
theorem triple_forEach_relate (env : Env F) (edges : List (MemoryEdge F)) (w0 : World F) :
    Prog.Triple (fun w => w = w0) (Prog.forEach edges (relate env))
      (fun _ w => w.tables.allEdges = w0.tables.allEdges ++ edges ∧
        w.tables.allMemories = w0.tables.allMemories)
      (fun _ => True) := by
  refine (Prog.Triple.forEach (J := fun rest w =>
      w.tables.allEdges ++ rest = w0.tables.allEdges ++ edges ∧
        w.tables.allMemories = w0.tables.allMemories) (E := fun _ => True) ?_).weaken ?_ ?_
        (fun _ _ => trivial)
  · intro edge rest _
    apply Prog.Triple.bind (Q := fun _ w => w.tables.allEdges ++ rest =
      w0.tables.allEdges ++ edges ∧ w.tables.allMemories = w0.tables.allMemories)
    · refine (triple_transact (I := fun w : World F => w.tables.allEdges ++ edge :: rest =
        w0.tables.allEdges ++ edges ∧ w.tables.allMemories = w0.tables.allMemories)
        (fun _ _ _ h => h) ?_).weaken (fun _ h => h) (fun _ _ h => h) (fun _ _ => trivial)
      intro w t h hrun
      cases hrun
      refine ⟨?_, h.2⟩
      rw [← h.1]
      show (w.tables.edges ++ [Tables.rowOfEdge edge]).map Tables.edgeOfRow ++ rest = _
      rw [List.map_append, List.map_singleton, Tables.edgeOfRow_rowOfEdge, List.append_assoc]
      rfl
    · intro _
      exact (keeps_onGraph (fun _ _ h => h)).triple (fun _ _ => trivial)
  · intro w hw
    rw [hw]
    exact ⟨rfl, rfl⟩
  · intro _ w h
    rw [List.append_nil] at h
    exact h

variable [Scalar F]

/-- The edge to a member, as a call writes it. -/
def memberEdge (now : Timestamp) (category : String) (id member : MemoryId) : MemoryEdge F :=
  inferredEdge now id member EdgeType.derived (ratio 8 10) (some ("community_member:" ++ category))

theorem memberTargets_append {category : String} {t t' : Tables F} {now : Timestamp}
    {id : MemoryId} {members : List MemoryId}
    (h : t'.allEdges = t.allEdges ++ members.map (memberEdge now category id)) :
    memberTargets category t' id = memberTargets category t id ++ members := by
  have hlabelled : (members.map (memberEdge now category id)).filter (fun e => decide
      (e.edgeType = EdgeType.derived ∧ e.label = some ("community_member:" ++ category))) =
        members.map (memberEdge (F := F) now category id) := by
    rw [List.filter_eq_self]
    intro edge hedge
    rcases List.mem_map.mp hedge with ⟨m, _, hm⟩
    rw [← hm]
    exact decide_eq_true ⟨rfl, rfl⟩
  have hsources : (members.map (memberEdge now category id)).filter (fun e => decide
      (e.source = id)) = members.map (memberEdge (F := F) now category id) := by
    rw [List.filter_eq_self]
    intro edge hedge
    rcases List.mem_map.mp hedge with ⟨m, _, hm⟩
    rw [← hm]
    exact decide_eq_true rfl
  unfold memberTargets communityEdges
  rw [h, List.filter_append, hlabelled, List.filter_append, hsources, List.map_append,
    List.map_map]
  congr 1
  exact List.map_id members

/-- A call adds an edge for each memory that it finds to those there are. -/
theorem triple_storeCommunitySummary (services : EnrichmentServices F)
    (category summary : String) (memberNames : List String) {w0 : World F}
    (hunused : DrawsUnused env category w0) :
    Prog.Triple (fun w => w = w0)
      (storeCommunitySummary env services category summary memberNames)
      (fun id w => id = summaryId env category w0 ∧
        memberTargets category w.tables id = memberTargets category w0.tables id ++
          memberIds env.text w.tables memberNames ∧
        forall n m, Named env.text w.tables n m <-> Named env.text w0.tables n m)
      (fun _ => True) := by
  apply Prog.triple_ite
  · intro _
    exact fun _ _ => trivial
  intro _
  apply Prog.Triple.bind (Q := fun _ w => w = { w0 with ticks := w0.ticks + 1 })
  · intro w hw
    rw [hw]
    rfl
  intro now
  apply Prog.Triple.bind (triple_storeSummaryNode services summary hunused)
  intro id
  apply Prog.Triple.bind (Q := fun map w => (id = summaryId env category w0 ∧
    KeepsMembers category w0.tables w) ∧ buildEntityMemoryMap env.text w.tables = map)
  · exact Prog.triple_gets (fun _ h => ⟨h, rfl⟩)
  intro map w1 h1
  rcases h1 with ⟨⟨hid, hkeeps⟩, hmap⟩
  have hloop : Prog.forEach memberNames (fun name =>
        Prog.forEach ((map.find? (env.text.toLowercase name)).getD []) (fun member =>
          relate env (memberEdge now category id member))) =
      Prog.forEach ((memberIds env.text w1.tables memberNames).map (memberEdge now category id))
        (relate env) := by
    unfold memberIds
    rw [Prog.forEach_map, Prog.forEach_flatMap, hmap]
  have hrelated := triple_forEach_relate env
    ((memberIds env.text w1.tables memberNames).map (memberEdge now category id)) w1
  rw [← hloop] at hrelated
  refine Prog.Triple.bind hrelated ?_ w1 rfl
  · intro _ w h
    rcases h with ⟨hedges, hmemories⟩
    have hnamed : forall n m, Named env.text w.tables n m <-> Named env.text w0.tables n m := by
      intro n m
      rw [← hkeeps.named_iff]
      unfold Named
      rw [hmemories]
    refine ⟨hid, ?_, hnamed⟩
    have hsame : memberIds env.text w.tables memberNames =
        memberIds env.text w1.tables memberNames := by
      unfold memberIds buildEntityMemoryMap
      rw [hmemories]
    rw [hsame, memberTargets_append hedges]
    unfold memberTargets
    rw [hkeeps.edges]

/-- What a call leaves depends on what it finds: the edges of earlier calls stay. -/
theorem exactMembers_iff {category summary : String} {memberNames : List String}
    {services : EnrichmentServices F} {id : MemoryId} {w w' : World F}
    (htrim : forall s, env.text.trim (env.text.trim s) = env.text.trim s)
    (hunused : DrawsUnused env category w)
    (hrun : storeCommunitySummary env services category summary memberNames w =
      (Except.ok id, w')) :
    ExactMembers env.text category memberNames w'.tables id <->
      Refreshable env.text category memberNames w.tables (summaryId env category w) := by
  have hpost := triple_storeCommunitySummary services category summary memberNames hunused w rfl
  rw [hrun] at hpost
  rcases hpost with ⟨hid, htargets, hnamed⟩
  have hmember : forall m, MemberOf env.text w'.tables memberNames m <->
      MemberOf env.text w.tables memberNames m := by
    intro m
    unfold MemberOf
    simp only [hnamed]
  have hfound : forall m, m ∈ memberIds env.text w'.tables memberNames <->
      FoundUnder env.text w.tables memberNames m := by
    intro m
    rw [mem_memberIds]
    unfold FoundUnder
    simp only [hnamed]
  have hmembers : forall m, m ∈ memberIds env.text w'.tables memberNames ->
      MemberOf env.text w.tables memberNames m :=
    fun m hm => FoundUnder.memberOf htrim ((hfound m).mp hm)
  have hexact := nodup_append_exact_iff (memberTargets category w.tables id) hmembers
  rw [nodup_memberIds_iff] at hexact
  simp only [hnamed, hfound] at hexact
  rw [← hid]
  constructor
  · intro h
    have hafter := hexact.mp (by
      rw [← htargets]
      exact ⟨h.once, fun m => (h.members m).trans (hmember m)⟩)
    exact ⟨hafter.1, hafter.2.1, hafter.2.2⟩
  · intro h
    have hbefore := hexact.mpr ⟨h.once, h.missed, h.apart⟩
    rw [← htargets] at hbefore
    exact ⟨hbefore.1, fun m => (hbefore.2 m).trans (hmember m).symm⟩

end Calls

/-!
## Runs
-/

/-- What happens in a run: summaries of any categories, and other memories. -/
inductive CommunityCall (F : Type) where
  | storeCommunitySummary (category summary : String) (memberNames : List String)
  | store (node : MemoryNode F)

namespace CommunityCall

variable [Scalar F] (env : Env F) (services : EnrichmentServices F)

def step (w : World F) : CommunityCall F -> World F
  | CommunityCall.storeCommunitySummary category summary memberNames =>
      (Facade.storeCommunitySummary env services category summary memberNames w).2
  | CommunityCall.store node => (Facade.store env node w).2

/-- The call succeeds, and what it draws for a new summary is not in use. -/
def Returns (w : World F) : CommunityCall F -> Prop
  | CommunityCall.storeCommunitySummary category summary memberNames =>
      DrawsUnused env category w ∧ exists id w',
        Facade.storeCommunitySummary env services category summary memberNames w =
          (Except.ok id, w')
  | CommunityCall.store _ => True

/-- After the call its summary has one edge to each memory of a member. -/
def LeavesExact (w : World F) : CommunityCall F -> Prop
  | CommunityCall.storeCommunitySummary category summary memberNames => forall id w',
      Facade.storeCommunitySummary env services category summary memberNames w =
        (Except.ok id, w') ->
          ExactMembers env.text category memberNames w'.tables id
  | CommunityCall.store _ => True

/-- Before the call its summary has the edges that the call does not write. -/
def FindsRefreshable (w : World F) : CommunityCall F -> Prop
  | CommunityCall.storeCommunitySummary category _ memberNames =>
      Refreshable env.text category memberNames w.tables (summaryId env category w)
  | CommunityCall.store _ => True

end CommunityCall

/-- The edges are exact after every call of a run exactly when every call finds only those
that it does not write again, and finds no memory under two names. -/
theorem community_edges_exact_iff [Scalar F] (env : Env F) (services : EnrichmentServices F)
    {w w' : World F} {calls : List (CommunityCall F)}
    (hrun : Run (CommunityCall.step env.withSurfaceLinker services)
      (CommunityCall.Returns env.withSurfaceLinker services) w calls w') :
    Run (CommunityCall.step env.withSurfaceLinker services)
        (CommunityCall.LeavesExact env.withSurfaceLinker services) w calls w' <->
      Run (CommunityCall.step env.withSurfaceLinker services)
        (CommunityCall.FindsRefreshable env.withSurfaceLinker) w calls w' := by
  have htrim : forall s, env.withSurfaceLinker.text.trim (env.withSurfaceLinker.text.trim s) =
      env.withSurfaceLinker.text.trim s := by
    intro s
    show String.ofList (Strings.trimMatches isWhitespace (String.ofList _).toList) = _
    rw [String.toList_ofList, Strings.trimMatches_trimMatches]
    rfl
  refine hrun.congr_guard ?_
  intro mid call hreturns
  cases call with
  | storeCommunitySummary category summary memberNames =>
      rcases hreturns with ⟨hunused, id, after, hcall⟩
      constructor
      · intro h
        exact (exactMembers_iff htrim hunused hcall).mp (h id after hcall)
      · intro h id' after' hcall'
        exact (exactMembers_iff htrim hunused hcall').mpr h
  | store node => exact Iff.rfl

section Examples

/-- No language model and no embeddings. -/
def offlineServices : EnrichmentServices Rat where
  maxEnrichmentConfidence := 7 / 10
  providerReady := false
  process _ _ := none
  embed _ := none
  embedText _ := none
  resolve _ := none
  llm := none

def summaryEnv : Env Rat := namingEnv.withSurfaceLinker

/-- Two people, and a summary of their category with one member after the other. -/
def changedMembership : List (CommunityCall Rat) :=
  [CommunityCall.store (entityMemory 1 "a"), CommunityCall.store (entityMemory 2 "b"),
    CommunityCall.storeCommunitySummary "c" "s" ["a"],
    CommunityCall.storeCommunitySummary "c" "s" ["b"]]

def afterSummaries (calls : List (CommunityCall Rat)) : World Rat :=
  calls.foldl (CommunityCall.step summaryEnv offlineServices) emptyWorld

theorem returns_of_isOk {category summary : String} {memberNames : List String} {w : World Rat}
    (hunused : w.tables.memories.contains (summaryEnv.freshMemoryId (w.ticks + 1)) = false)
    (hok : (storeCommunitySummary summaryEnv offlineServices category summary memberNames w).1.isOk
      = true) :
    CommunityCall.Returns summaryEnv offlineServices w
      (CommunityCall.storeCommunitySummary category summary memberNames) := by
  refine ⟨fun _ => hunused, ?_⟩
  rcases hcall : storeCommunitySummary summaryEnv offlineServices category summary memberNames w
    with ⟨result, w'⟩
  rw [hcall] at hok
  cases result with
  | ok id => exact ⟨id, w', rfl⟩
  | error e => cases hok

theorem run_firstSummary :
    Run (CommunityCall.step summaryEnv offlineServices)
      (CommunityCall.Returns summaryEnv offlineServices) emptyWorld (changedMembership.take 3)
      (afterSummaries (changedMembership.take 3)) := by
  have hempty : Run (CommunityCall.step summaryEnv offlineServices)
      (CommunityCall.Returns summaryEnv offlineServices) emptyWorld [] emptyWorld :=
    Run.nil emptyWorld
  have hfirst := hempty.snoc (i := CommunityCall.store (entityMemory 1 "a")) trivial
  have hsecond := hfirst.snoc (i := CommunityCall.store (entityMemory 2 "b")) trivial
  exact hsecond.snoc (returns_of_isOk (by decide +kernel) (by decide +kernel))

/-- The first summary of a category has exact edges. -/
theorem community_edges_exact_first :
    Run (CommunityCall.step summaryEnv offlineServices)
      (CommunityCall.LeavesExact summaryEnv offlineServices) emptyWorld
      (changedMembership.take 3) (afterSummaries (changedMembership.take 3)) := by
  apply (community_edges_exact_iff namingEnv offlineServices run_firstSummary).mpr
  have hempty : Run (CommunityCall.step summaryEnv offlineServices)
      (CommunityCall.FindsRefreshable summaryEnv) emptyWorld [] emptyWorld := Run.nil emptyWorld
  have hfirst := hempty.snoc (i := CommunityCall.store (entityMemory 1 "a")) trivial
  have hsecond := hfirst.snoc (i := CommunityCall.store (entityMemory 2 "b")) trivial
  refine hsecond.snoc ?_
  apply (refreshable_iff_of_trimmed ?_).mpr
  · exact ⟨by decide +kernel, List.pairwise_singleton _ _⟩
  · intro name hname
    rw [List.mem_singleton.mp hname]
    decide +kernel

/-- What the call for the second member returns and leaves. -/
def secondSummary : Except MenteError MemoryId × World Rat :=
  storeCommunitySummary summaryEnv offlineServices "c" "s" ["b"]
    (afterSummaries (changedMembership.take 3))

/-- The edge to a memory whose name is no longer that of a member stays. -/
theorem former_member_keeps_edge :
    Run (CommunityCall.step summaryEnv offlineServices)
        (CommunityCall.Returns summaryEnv offlineServices) emptyWorld changedMembership
        (afterSummaries changedMembership) ∧
      ¬ Run (CommunityCall.step summaryEnv offlineServices)
        (CommunityCall.LeavesExact summaryEnv offlineServices) emptyWorld changedMembership
        (afterSummaries changedMembership) := by
  have hreturns : CommunityCall.Returns summaryEnv offlineServices
      (afterSummaries (changedMembership.take 3))
      (CommunityCall.storeCommunitySummary "c" "s" ["b"]) :=
    returns_of_isOk (by decide +kernel) (by decide +kernel)
  have hresult : secondSummary.1.toOption = some ⟨1005⟩ := by decide +kernel
  have hkept : (⟨1⟩ : MemoryId) ∈ memberTargets "c" secondSummary.2.tables ⟨1005⟩ := by
    decide +kernel
  have hname : ¬ Named summaryEnv.text secondSummary.2.tables (tagName summaryEnv.text "b")
      ⟨1⟩ := by
    rw [named_iff]
    decide +kernel
  constructor
  · exact run_firstSummary.snoc hreturns
  · intro hrun
    have hcalls : changedMembership = changedMembership.take 3 ++
        [CommunityCall.storeCommunitySummary "c" "s" ["b"]] := rfl
    rw [hcalls] at hrun
    rcases hrun.last with ⟨mid, hpast, hexact, _⟩
    cases run_firstSummary.unique hpast
    rcases hreturns with ⟨_, id, w', hcall⟩
    have hsecond : secondSummary = (Except.ok id, w') := hcall
    rw [hsecond] at hresult hkept hname
    cases hresult
    rcases ((hexact ⟨1005⟩ w' hcall).members ⟨1⟩).mp hkept with ⟨name, hmem, hnamed⟩
    rw [List.mem_singleton.mp hmem] at hnamed
    exact hname hnamed

end Examples

end Facade
end MenteDb
