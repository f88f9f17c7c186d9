import Mathlib.Data.List.Chain
import Mathlib.Data.List.Nodup
import Mathlib.Data.List.Perm.Subperm
import Mathlib.Logic.Relation

/-!
# Search for cycles

A search with a stack from one node after another along a successor function.  Each entry of
the stack carries the path it was pushed with, and a successor on that path closes a cycle.
A node is marked when it is pushed, and the marks of a search are shared by all its branches:
a marked node that is not on the path is not looked at again.
-/

namespace Foundation
namespace CycleSearch

open Relation

variable {α : Type}

/-- The nodes to expand, the top of the stack first and each with its path, and the nodes
marked. -/
structure Marks (α : Type) where
  stack : List (α × List α)
  visited : List α

/-- The nodes expanded in any search, and the cycles listed. -/
structure State (α : Type) extends Marks α where
  expanded : List α
  cycles : List (List α)

section Definitions

variable [DecidableEq α]

/-- A cycle of the same nodes is listed. -/
def hasEquivalent (cycles : List (List α)) (cycle : List α) : Bool :=
  cycles.any (fun c => decide (c.length = cycle.length) && cycle.all (fun x => decide (x ∈ c)))

def record (cycles : List (List α)) (cycle : List α) : List (List α) :=
  if hasEquivalent cycles cycle then cycles else cycles ++ [cycle]

def look (path : List α) (s : State α) (y : α) : State α :=
  if y ∈ path then { s with cycles := record s.cycles (path.drop (path.idxOf y)) }
  else if y ∈ s.visited then s
  else { s with stack := (y, path ++ [y]) :: s.stack, visited := s.visited ++ [y] }

def lookAll (next : α -> List α) (s : State α) (entry : α × List α)
    (rest : List (α × List α)) : State α :=
  (next entry.1).foldl (look entry.2) { s with stack := rest }

def expand (next : α -> List α) (s : State α) (entry : α × List α)
    (rest : List (α × List α)) : State α :=
  { lookAll next s entry rest with
    expanded := (lookAll next s entry rest).expanded.insert entry.1 }

/-- The loop over the stack; there is no answer when the rounds do not suffice. -/
def search (next : α -> List α) : Nat -> State α -> Option (State α)
  | 0, _ => none
  | rounds + 1, s =>
      match s.stack with
      | [] => some s
      | entry :: rest => search next rounds (expand next s entry rest)

def startAt (s : State α) (x : α) : State α :=
  { s with stack := [(x, [x])], visited := [x] }

/-- One search from each node that none before has expanded. -/
def searchAll (next : α -> List α) (rounds : Nat) : List α -> State α -> Option (State α)
  | [], s => some s
  | x :: nodes, s =>
      if x ∈ s.expanded then searchAll next rounds nodes s
      else (search next rounds (startAt s x)).bind (searchAll next rounds nodes)

end Definitions

def State.empty : State α where
  stack := []
  visited := []
  expanded := []
  cycles := []

/-!
## Rules for the loops
-/

section Rules

variable [DecidableEq α] {next : α -> List α} {I : State α -> Prop}

/-- What a look at a successor keeps, looking at all of them keeps. -/
theorem lookAll_invariant {s : State α} {entry : α × List α} {rest : List (α × List α)}
    (hlook : forall s y, I s -> y ∈ next entry.1 -> I (look entry.2 s y))
    (hs : I { s with stack := rest }) : I (lookAll next s entry rest) := by
  unfold lookAll
  have hall : forall (ys : List α) (s : State α), ys ⊆ next entry.1 -> I s ->
      I (ys.foldl (look entry.2) s) := by
    intro ys
    induction ys with
    | nil => exact fun s _ hs => hs
    | cons y ys ih =>
        intro s hys hs
        exact ih _ (fun u hu => hys (List.mem_cons_of_mem y hu))
          (hlook s y hs (hys List.mem_cons_self))
  exact hall _ _ (List.Subset.refl _) hs

/-- What an expansion keeps holds when the search ends, with an empty stack. -/
theorem search_invariant
    (hstep : forall s entry rest, I s -> s.stack = entry :: rest -> I (expand next s entry rest))
    {rounds : Nat} {s s' : State α} (h : search next rounds s = some s') (hs : I s) :
    I s' ∧ s'.stack = [] := by
  induction rounds generalizing s with
  | zero => cases h
  | succ rounds ih =>
      cases hstack : s.stack with
      | nil =>
          simp only [search, hstack, Option.some.injEq] at h
          subst h
          exact ⟨hs, hstack⟩
      | cons entry rest =>
          simp only [search, hstack] at h
          exact ih h (hstep s entry rest hs hstack)

/-- What one search keeps, all of them keep. -/
theorem searchAll_invariant {rounds : Nat}
    (hsearch : forall s x s', I s -> search next rounds (startAt s x) = some s' -> I s')
    {nodes : List α} {s s' : State α} (h : searchAll next rounds nodes s = some s')
    (hs : I s) : I s' := by
  induction nodes generalizing s with
  | nil =>
      cases h
      exact hs
  | cons x nodes ih =>
      unfold searchAll at h
      split at h
      · exact ih h hs
      · rcases Option.bind_eq_some_iff.mp h with ⟨mid, hmid, hrest⟩
        exact ih hrest (hsearch s x mid hs hmid)

theorem search_mono {rounds rounds' : Nat} (hle : rounds <= rounds') {s s' : State α}
    (h : search next rounds s = some s') : search next rounds' s = some s' := by
  induction rounds generalizing rounds' s with
  | zero => cases h
  | succ rounds ih =>
      cases rounds' with
      | zero => omega
      | succ rounds' =>
          cases hstack : s.stack with
          | nil =>
              simp only [search, hstack] at h ⊢
              exact h
          | cons entry rest =>
              simp only [search, hstack] at h ⊢
              exact ih (Nat.le_of_succ_le_succ hle) h

theorem searchAll_mono {rounds rounds' : Nat} (hle : rounds <= rounds') {nodes : List α}
    {s s' : State α} (h : searchAll next rounds nodes s = some s') :
    searchAll next rounds' nodes s = some s' := by
  induction nodes generalizing s with
  | nil => exact h
  | cons x nodes ih =>
      unfold searchAll at h ⊢
      split at h
      · rename_i hseen
        rw [if_pos hseen]
        exact ih h
      · rename_i hnew
        rcases Option.bind_eq_some_iff.mp h with ⟨mid, hmid, hrest⟩
        rw [if_neg hnew, search_mono hle hmid, Option.bind_some]
        exact ih hrest

end Rules

/-!
## The search ends

Every node is pushed at most once, when it is marked.
-/

section Ends

variable [DecidableEq α] {next : α -> List α} {nodes : List α}

structure Counted (nodes : List α) (done : Nat) (s : State α) : Prop where
  nodup : s.visited.Nodup
  known : s.visited ⊆ nodes
  length_eq : done + s.stack.length = s.visited.length

theorem Counted.look {path : List α} {done : Nat} {s : State α} {y : α}
    (h : Counted nodes done s) (hy : y ∈ nodes) : Counted nodes done (look path s y) := by
  unfold CycleSearch.look
  split
  · exact ⟨h.nodup, h.known, h.length_eq⟩
  split
  · exact h
  rename_i hnew
  refine ⟨?_, ?_, ?_⟩
  · have hnodup := h.nodup.concat hnew
    rw [List.concat_eq_append] at hnodup
    exact hnodup
  · exact List.append_subset.mpr ⟨h.known, List.cons_subset.mpr ⟨hy, List.nil_subset _⟩⟩
  · have hlength := h.length_eq
    simp only [List.length_cons, List.length_append, List.length_nil]
    omega

theorem Counted.expand (hnext : forall x, next x ⊆ nodes) {done : Nat} {s : State α}
    {entry : α × List α} {rest : List (α × List α)} (h : Counted nodes done s)
    (hstack : s.stack = entry :: rest) : Counted nodes (done + 1) (expand next s entry rest) := by
  have hpopped : Counted nodes (done + 1) { s with stack := rest } := by
    refine ⟨h.nodup, h.known, ?_⟩
    have hlength := h.length_eq
    rw [hstack, List.length_cons] at hlength
    simp only
    omega
  have hall : Counted nodes (done + 1) (lookAll next s entry rest) :=
    lookAll_invariant (fun _ _ hs hy => hs.look (hnext _ hy)) hpopped
  exact ⟨hall.nodup, hall.known, hall.length_eq⟩

/-- A round for each node and one to see that the stack is empty. -/
theorem search_isSome (hnext : forall x, next x ⊆ nodes) {rounds done : Nat} {s : State α}
    (hrounds : nodes.length < done + rounds) (h : Counted nodes done s) :
    exists s', search next rounds s = some s' := by
  have hlength := (List.subperm_of_subset h.nodup h.known).length_le
  have hcount := h.length_eq
  induction rounds generalizing done s with
  | zero => omega
  | succ rounds ih =>
      cases hstack : s.stack with
      | nil =>
          refine ⟨s, ?_⟩
          simp only [search, hstack]
      | cons entry rest =>
          have hstep := h.expand hnext hstack
          have hfuel : nodes.length < done + 1 + rounds := by omega
          simp only [search, hstack]
          exact ih hfuel hstep (List.subperm_of_subset hstep.nodup hstep.known).length_le
            hstep.length_eq

theorem searchAll_isSome (hnext : forall x, next x ⊆ nodes) {rounds : Nat}
    (hrounds : nodes.length < rounds) {starts : List α} (hstarts : starts ⊆ nodes)
    (s : State α) : exists s', searchAll next rounds starts s = some s' := by
  induction starts generalizing s with
  | nil => exact ⟨s, rfl⟩
  | cons x starts ih =>
      have hrest := ih (fun y hy => hstarts (List.mem_cons_of_mem x hy))
      unfold searchAll
      split
      · exact hrest s
      · have hstart : Counted nodes 0 (startAt s x) :=
          ⟨List.nodup_singleton x,
            List.cons_subset.mpr ⟨hstarts List.mem_cons_self, List.nil_subset _⟩, rfl⟩
        have hfuel : nodes.length < 0 + rounds := by omega
        rcases search_isSome hnext hfuel hstart with ⟨mid, hmid⟩
        rw [hmid, Option.bind_some]
        exact hrest mid

end Ends

/-!
## What is listed is a cycle
-/

section Sound

variable {next : α -> List α}

/-- Different nodes, each a successor of the one before, and the first of the last. -/
structure IsCycle (next : α -> List α) (cycle : List α) : Prop where
  nonempty : cycle ≠ []
  nodup : cycle.Nodup
  steps : cycle.IsChain (fun x y => y ∈ next x)
  closes : forall x y, cycle.head? = some x -> cycle.getLast? = some y -> x ∈ next y

/-- Different nodes, each a successor of the one before, the last of which is the given
one. -/
structure IsTrail (next : α -> List α) (x : α) (path : List α) : Prop where
  nodup : path.Nodup
  steps : path.IsChain (fun x y => y ∈ next x)
  last : path.getLast? = some x

theorem isTrail_singleton (x : α) : IsTrail next x [x] where
  nodup := List.nodup_singleton x
  steps := List.isChain_singleton x
  last := rfl

theorem IsTrail.concat {x y : α} {path : List α} (h : IsTrail next x path) (hy : y ∈ next x)
    (hnew : y ∉ path) : IsTrail next y (path ++ [y]) where
  nodup := by
    have hnodup := h.nodup.concat hnew
    rw [List.concat_eq_append] at hnodup
    exact hnodup
  steps := by
    refine List.IsChain.append h.steps (List.isChain_singleton y) ?_
    intro u hu v hv
    rw [h.last, Option.mem_some_iff] at hu
    rw [List.head?_cons, Option.mem_some_iff] at hv
    rw [← hu, ← hv]
    exact hy
  last := List.getLast?_concat

/-- A successor on the path closes the part of the path from there on. -/
theorem IsTrail.isCycle {x y : α} {pre suf : List α} (h : IsTrail next x (pre ++ y :: suf))
    (hy : y ∈ next x) : IsCycle next (y :: suf) where
  nonempty := List.cons_ne_nil y suf
  nodup := h.nodup.sublist (List.sublist_append_right pre (y :: suf))
  steps := h.steps.right_of_append
  closes := by
    intro a b ha hb
    rw [List.head?_cons, Option.some.injEq] at ha
    have hlast := h.last
    rw [List.getLast?_append, hb, Option.some_or, Option.some.injEq] at hlast
    rw [← ha, hlast]
    exact hy

/-- The two lists have the same nodes. -/
def SameNodes (c d : List α) : Prop := forall x, x ∈ c <-> x ∈ d

variable [DecidableEq α]

theorem drop_idxOf {path : List α} {y : α} (hy : y ∈ path) :
    exists pre suf, path = pre ++ y :: suf ∧ path.drop (path.idxOf y) = y :: suf := by
  have hlt := List.idxOf_lt_length_of_mem hy
  refine ⟨path.take (path.idxOf y), path.drop (path.idxOf y + 1), ?_, ?_⟩
  · have hdrop := List.drop_eq_getElem_cons hlt
    rw [List.getElem_idxOf hlt] at hdrop
    rw [← hdrop, List.take_append_drop]
  · have hdrop := List.drop_eq_getElem_cons hlt
    rw [List.getElem_idxOf hlt] at hdrop
    exact hdrop

/-- Between lists without repetitions, the same nodes are what the comparison sees. -/
theorem hasEquivalent_of_sameNodes {cycles : List (List α)} {c cycle : List α}
    (hc : c ∈ cycles) (hnodup : c.Nodup) (hcycle : cycle.Nodup) (hsame : SameNodes c cycle) :
    hasEquivalent cycles cycle = true := by
  unfold hasEquivalent
  rw [List.any_eq_true]
  refine ⟨c, hc, ?_⟩
  have hperm : c.Perm cycle := (List.perm_ext_iff_of_nodup hnodup hcycle).mpr hsame
  rw [Bool.and_eq_true, List.all_eq_true]
  refine ⟨decide_eq_true hperm.length_eq, ?_⟩
  intro x hx
  exact decide_eq_true ((hsame x).mpr hx)

/-- All cycles listed are cycles, of different nodes each. -/
structure CyclesSound (next : α -> List α) (cycles : List (List α)) : Prop where
  cycle : forall c, c ∈ cycles -> IsCycle next c
  distinct : cycles.Pairwise (fun c d => ¬ SameNodes c d)

omit [DecidableEq α] in
theorem cyclesSound_nil : CyclesSound next [] where
  cycle := by
    intro c hc
    cases hc
  distinct := List.Pairwise.nil

theorem CyclesSound.record {cycles : List (List α)} {cycle : List α}
    (h : CyclesSound next cycles) (hcycle : IsCycle next cycle) :
    CyclesSound next (record cycles cycle) := by
  unfold CycleSearch.record
  split
  · exact h
  rename_i hnew
  constructor
  · intro c hc
    rcases List.mem_append.mp hc with hold | hself
    · exact h.cycle c hold
    · rw [List.mem_singleton.mp hself]
      exact hcycle
  · rw [List.pairwise_append]
    refine ⟨h.distinct, List.pairwise_singleton _ _, ?_⟩
    intro c hc d hd hsame
    rw [List.mem_singleton.mp hd] at hsame
    exact hnew (hasEquivalent_of_sameNodes hc (h.cycle c hc).nodup hcycle.nodup hsame)

/-- The paths on the stack are trails to their nodes. -/
structure Sound (next : α -> List α) (s : State α) : Prop where
  stacked : forall p, p ∈ s.stack -> IsTrail next p.1 p.2
  cycles : CyclesSound next s.cycles

theorem Sound.look {x y : α} {path : List α} {s : State α} (h : Sound next s)
    (hpath : IsTrail next x path) (hy : y ∈ next x) : Sound next (look path s y) := by
  unfold CycleSearch.look
  split
  · rename_i hon
    rcases drop_idxOf hon with ⟨pre, suf, hsplit, hdrop⟩
    rw [hsplit] at hpath
    refine ⟨h.stacked, ?_⟩
    rw [hdrop]
    exact h.cycles.record (hpath.isCycle hy)
  rename_i hoff
  split
  · exact h
  · refine ⟨?_, h.cycles⟩
    intro p hp
    rcases List.mem_cons.mp hp with heq | hold
    · rw [heq]
      exact hpath.concat hy hoff
    · exact h.stacked p hold

theorem Sound.expand {s : State α} {entry : α × List α} {rest : List (α × List α)}
    (h : Sound next s) (hstack : s.stack = entry :: rest) :
    Sound next (expand next s entry rest) := by
  have hentry := h.stacked entry (hstack ▸ List.mem_cons_self)
  have hpopped : Sound next { s with stack := rest } :=
    ⟨fun p hp => h.stacked p (hstack ▸ List.mem_cons_of_mem entry hp), h.cycles⟩
  have hall : Sound next (lookAll next s entry rest) :=
    lookAll_invariant (fun _ _ hs hy => hs.look hentry hy) hpopped
  exact ⟨hall.stacked, hall.cycles⟩

theorem search_sound {rounds : Nat} {s s' : State α} {x : α} (h : CyclesSound next s.cycles)
    (hsearch : search next rounds (startAt s x) = some s') : CyclesSound next s'.cycles := by
  have hstart : Sound next (startAt s x) := by
    refine ⟨?_, h⟩
    intro p hp
    rw [List.mem_singleton.mp hp]
    exact isTrail_singleton x
  exact (search_invariant (fun _ _ _ hs hstack => hs.expand hstack) hsearch hstart).1.cycles

theorem searchAll_sound {rounds : Nat} {nodes : List α} {s' : State α}
    (h : searchAll next rounds nodes State.empty = some s') : CyclesSound next s'.cycles :=
  searchAll_invariant (I := fun s => CyclesSound next s.cycles)
    (fun _ _ _ hs hsearch => search_sound hs hsearch) h cyclesSound_nil

end Sound

/-!
## When a cycle is listed

The marks at the moment a node is expanded decide.  If a cycle leads through it and none of
the other nodes of the cycle is marked yet, the search below the node goes round; and a cycle
that is listed was like this when its first node was expanded.
-/

/-- The elements one step away. -/
def Next (next : α -> List α) (x y : α) : Prop := y ∈ next x

section Complete

variable [DecidableEq α] {next : α -> List α} {x : α}

/-- What a look does to the stack and the marks. -/
def mark (path : List α) (m : Marks α) (y : α) : Marks α :=
  if y ∈ path then m
  else if y ∈ m.visited then m
  else { stack := (y, path ++ [y]) :: m.stack, visited := m.visited ++ [y] }

def expandMarks (next : α -> List α) (m : Marks α) (entry : α × List α)
    (rest : List (α × List α)) : Marks α :=
  (next entry.1).foldl (mark entry.2) { m with stack := rest }

/-- The stacks and marks the search from a node comes to. -/
inductive Reached (next : α -> List α) (x : α) : Marks α -> Prop where
  | start : Reached next x { stack := [(x, [x])], visited := [x] }
  | step {m : Marks α} {entry : α × List α} {rest : List (α × List α)} : Reached next x m ->
      m.stack = entry :: rest -> Reached next x (expandMarks next m entry rest)

omit [DecidableEq α] in
/-- A cycle leads through the node to be expanded next, and no other node of it is marked. -/
def FreshCycle (next : α -> List α) (m : Marks α) : Prop :=
  exists entry rest cycle, m.stack = entry :: rest ∧ IsCycle next (entry.1 :: cycle) ∧
    forall y, y ∈ cycle -> y ∉ m.visited

theorem toMarks_look (path : List α) (s : State α) (y : α) :
    (look path s y).toMarks = mark path s.toMarks y := by
  unfold look mark
  by_cases hon : y ∈ path
  · rw [if_pos hon, if_pos hon]
  · rw [if_neg hon, if_neg hon]
    by_cases hseen : y ∈ s.visited
    · rw [if_pos hseen, if_pos hseen]
    · rw [if_neg hseen, if_neg hseen]

theorem toMarks_expand (s : State α) (entry : α × List α) (rest : List (α × List α)) :
    (expand next s entry rest).toMarks = expandMarks next s.toMarks entry rest := by
  have hfold : forall (ys : List α) (s : State α), (ys.foldl (look entry.2) s).toMarks =
      ys.foldl (mark entry.2) s.toMarks := by
    intro ys
    induction ys with
    | nil => exact fun _ => rfl
    | cons y ys ih =>
        intro s
        rw [List.foldl_cons, List.foldl_cons, ih, toMarks_look]
  exact hfold _ _

theorem record_ne_nil (cycles : List (List α)) (cycle : List α) : record cycles cycle ≠ [] := by
  unfold record
  split
  · rename_i hlisted
    intro hnil
    rw [hnil] at hlisted
    cases hlisted
  · exact List.append_ne_nil_of_right_ne_nil cycles (List.cons_ne_nil cycle [])

theorem look_cycles {path : List α} {s : State α} {y : α} (h : s.cycles ≠ []) :
    (look path s y).cycles ≠ [] := by
  unfold look
  split
  · exact record_ne_nil _ _
  · split
    · exact h
    · exact h

theorem search_cycles {rounds : Nat} {s s' : State α} (h : search next rounds s = some s')
    (hs : s.cycles ≠ []) : s'.cycles ≠ [] := by
  refine (search_invariant (I := fun s => s.cycles ≠ []) ?_ h hs).1
  intro s entry rest hs _
  have hall : (lookAll next s entry rest).cycles ≠ [] :=
    lookAll_invariant (I := fun s => s.cycles ≠ []) (fun _ _ hs _ => look_cycles hs) hs
  exact hall

/-!
### From a listed cycle to a fresh one
-/

/-- Each node of the path was expanded before the nodes after it were marked. -/
def Remembered (next : α -> List α) (x : α) (visited path : List α) : Prop :=
  forall pre y suf, path = pre ++ y :: suf -> suf ≠ [] ->
    exists m entry rest, Reached next x m ∧ m.stack = entry :: rest ∧ entry.1 = y ∧
      (forall z, z ∈ suf -> z ∉ m.visited) ∧ m.visited ⊆ visited

theorem Remembered.mono {visited visited' path : List α}
    (h : Remembered next x visited path) (hsub : visited ⊆ visited') :
    Remembered next x visited' path := by
  intro pre y suf hsplit hne
  rcases h pre y suf hsplit hne with ⟨m, entry, rest, hm, hstack, hentry, hfresh, hvisited⟩
  exact ⟨m, entry, rest, hm, hstack, hentry, hfresh, fun u hu => hsub (hvisited hu)⟩

/-- A path is remembered with one node more, when that node is marked. -/
theorem Remembered.concat {m : Marks α} {entry : α × List α} {rest : List (α × List α)}
    {visited : List α} {y : α} (hm : Reached next x m) (hstack : m.stack = entry :: rest)
    (hpath : IsTrail next entry.1 entry.2) (h : Remembered next x m.visited entry.2)
    (hsub : m.visited ⊆ visited) (hnew : y ∉ visited) :
    Remembered next x (visited ++ [y]) (entry.2 ++ [y]) := by
  intro pre u suf hsplit hne
  rcases List.eq_nil_or_concat suf with hnil | ⟨suf', z, hsuf⟩
  · exact absurd hnil hne
  rw [List.concat_eq_append] at hsuf
  subst hsuf
  have hparts : entry.2 ++ [y] = (pre ++ u :: suf') ++ [z] := by
    rw [hsplit, List.append_assoc, List.cons_append]
  rcases List.append_inj' hparts rfl with ⟨hentry, hlast⟩
  have hz : y = z := by simpa using hlast
  subst hz
  cases suf' with
  | nil =>
      have hu : entry.1 = u := by
        have hend := hpath.last
        rw [hentry, List.getLast?_concat] at hend
        exact (Option.some.inj hend).symm
      refine ⟨m, entry, rest, hm, hstack, hu, ?_, fun v hv => List.mem_append_left _ (hsub hv)⟩
      intro v hv hseen
      rw [List.nil_append, List.mem_singleton] at hv
      rw [hv] at hseen
      exact hnew (hsub hseen)
  | cons v suf' =>
      rcases h pre u (v :: suf') hentry (List.cons_ne_nil v suf') with
        ⟨m', entry', rest', hm', hstack', hu, hfresh, hvisited⟩
      refine ⟨m', entry', rest', hm', hstack', hu, ?_,
        fun w hw => List.mem_append_left _ (hsub (hvisited hw))⟩
      intro w hw hseen
      rcases List.mem_append.mp hw with hold | hself
      · exact hfresh w hold hseen
      · rw [List.mem_singleton.mp hself] at hseen
        exact hnew (hsub (hvisited hseen))

/-- A successor on a remembered path closes a cycle that was fresh. -/
theorem Remembered.freshCycle {m : Marks α} {entry : α × List α}
    {rest : List (α × List α)} {y : α} (hm : Reached next x m) (hstack : m.stack = entry :: rest)
    (hpath : IsTrail next entry.1 entry.2) (h : Remembered next x m.visited entry.2)
    (hy : y ∈ next entry.1) (hon : y ∈ entry.2) :
    exists m, Reached next x m ∧ FreshCycle next m := by
  rcases List.append_of_mem hon with ⟨pre, suf, hsplit⟩
  have hcycle : IsCycle next (y :: suf) := IsTrail.isCycle (hsplit ▸ hpath) hy
  cases suf with
  | nil =>
      have hlast : entry.1 = y := by
        have hend := hpath.last
        rw [hsplit, List.getLast?_concat] at hend
        exact (Option.some.inj hend).symm
      rw [← hlast] at hcycle
      exact ⟨m, hm, entry, rest, [], hstack, hcycle, fun _ hu => absurd hu List.not_mem_nil⟩
  | cons v suf =>
      rcases h pre y (v :: suf) hsplit (List.cons_ne_nil v suf) with
        ⟨m', entry', rest', hm', hstack', hentry', hfresh, _⟩
      rw [← hentry'] at hcycle
      exact ⟨m', hm', entry', rest', v :: suf, hstack', hcycle, hfresh⟩

/-- The stack is one the search comes to, its paths are remembered, and a new cycle was fresh
once. -/
structure Explained (next : α -> List α) (x : α) (before : List (List α)) (s : State α) :
    Prop where
  reached : Reached next x s.toMarks
  trails : forall p, p ∈ s.stack -> IsTrail next p.1 p.2 ∧ p.2 ⊆ s.visited
  paths : forall p, p ∈ s.stack -> Remembered next x s.visited p.2
  found : s.cycles ≠ [] -> before ≠ [] ∨ exists m, Reached next x m ∧ FreshCycle next m

theorem Explained.expand {before : List (List α)} {s : State α} {entry : α × List α}
    {rest : List (α × List α)} (h : Explained next x before s)
    (hstack : s.stack = entry :: rest) : Explained next x before (expand next s entry rest) := by
  have hmem : entry ∈ s.stack := hstack ▸ List.mem_cons_self
  have hpath := (h.trails entry hmem).1
  have hold := h.paths entry hmem
  -- the marks that were there when the node was taken from the stack stay
  have hall : (forall p, p ∈ (lookAll next s entry rest).stack ->
        (IsTrail next p.1 p.2 ∧ p.2 ⊆ (lookAll next s entry rest).visited) ∧
          Remembered next x (lookAll next s entry rest).visited p.2) ∧
      s.visited ⊆ (lookAll next s entry rest).visited ∧
      ((lookAll next s entry rest).cycles ≠ [] ->
        before ≠ [] ∨ exists m, Reached next x m ∧ FreshCycle next m) := by
    refine lookAll_invariant (I := fun t => (forall p, p ∈ t.stack ->
        (IsTrail next p.1 p.2 ∧ p.2 ⊆ t.visited) ∧ Remembered next x t.visited p.2) ∧
      s.visited ⊆ t.visited ∧
      (t.cycles ≠ [] -> before ≠ [] ∨ exists m, Reached next x m ∧ FreshCycle next m)) ?_ ?_
    · intro t y ht hy
      unfold look
      split
      · rename_i hon
        exact ⟨ht.1, ht.2.1, fun _ => Or.inr (hold.freshCycle h.reached hstack hpath hy hon)⟩
      rename_i hoff
      split
      · exact ht
      · rename_i hnew
        have hmore : t.visited ⊆ t.visited ++ [y] := List.subset_append_left _ _
        refine ⟨?_, fun u hu => hmore (ht.2.1 hu), ht.2.2⟩
        intro p hp
        rcases List.mem_cons.mp hp with heq | hrest
        · rw [heq]
          refine ⟨⟨hpath.concat hy hoff, List.append_subset.mpr ⟨?_, ?_⟩⟩,
            Remembered.concat h.reached hstack hpath hold ht.2.1 hnew⟩
          · exact fun u hu => hmore (ht.2.1 ((h.trails entry hmem).2 hu))
          · exact List.subset_append_right _ _
        · have hp := ht.1 p hrest
          exact ⟨⟨hp.1.1, fun u hu => hmore (hp.1.2 hu)⟩, hp.2.mono hmore⟩
    · refine ⟨?_, List.Subset.refl _, h.found⟩
      intro p hp
      have hp' : p ∈ s.stack := hstack ▸ List.mem_cons_of_mem entry hp
      exact ⟨h.trails p hp', h.paths p hp'⟩
  refine ⟨?_, fun p hp => (hall.1 p hp).1, fun p hp => (hall.1 p hp).2, hall.2.2⟩
  rw [toMarks_expand]
  exact Reached.step h.reached hstack

theorem explained_startAt (s : State α) : Explained next x s.cycles (startAt s x) where
  reached := Reached.start
  trails := by
    intro p hp
    rw [List.mem_singleton.mp hp]
    exact ⟨isTrail_singleton x, List.Subset.refl _⟩
  paths := by
    intro p hp pre y suf hsplit hne
    rw [List.mem_singleton.mp hp] at hsplit
    have hlength := congrArg List.length hsplit
    have hpos := List.length_pos_iff.mpr hne
    simp only [List.length_cons, List.length_nil, List.length_append] at hlength
    omega
  found := Or.inl

/-!
### From a fresh cycle to a listed one
-/

/-- What the search below a node knows of the nodes it has marked: they are still on its part
of the stack, or they are being looked at, or all their successors are marked, and where the
node is one of these a cycle is listed.  Nodes marked before the node are left out. -/
structure Below (next : α -> List α) (a : α) (earlier : List α) (looking : α -> Prop)
    (part : List (α × List α)) (s : State α) : Prop where
  origin : a ∈ s.visited
  paths : forall p, p ∈ part -> a ∈ p.2 ∧ p.2 ⊆ s.visited
  closed : forall z, z ∈ s.visited -> (z ∈ earlier ∧ z ≠ a) ∨ z ∈ part.map Prod.fst ∨
    looking z ∨ (next z ⊆ s.visited ∧ z ∈ s.expanded ∧ (a ∈ next z -> s.cycles ≠ []))

/-- A look at a successor pushes it or leaves the stack alone; either way it is marked
then, and listed in a cycle if it is the node below which the search is. -/
theorem Below.look {a : α} {earlier path : List α} {looking : α -> Prop}
    {part rest : List (α × List α)} {s : State α} (h : Below next a earlier looking part s)
    (hstack : s.stack = part ++ rest) (hpath : a ∈ path ∧ path ⊆ s.visited) (y : α) :
    (exists part', (look path s y).stack = part' ++ rest ∧
      Below next a earlier looking part' (look path s y)) ∧
    s.visited ⊆ (look path s y).visited ∧ y ∈ (look path s y).visited ∧
    (y = a -> (look path s y).cycles ≠ []) := by
  unfold CycleSearch.look
  split
  · rename_i hon
    refine ⟨⟨part, hstack, h.origin, h.paths, ?_⟩, List.Subset.refl _, hpath.2 hon,
      fun _ => record_ne_nil _ _⟩
    intro z hz
    rcases h.closed z hz with hold | hpart | hlooking | ⟨hsub, hexpanded, _⟩
    · exact Or.inl hold
    · exact Or.inr (Or.inl hpart)
    · exact Or.inr (Or.inr (Or.inl hlooking))
    · exact Or.inr (Or.inr (Or.inr ⟨hsub, hexpanded, fun _ => record_ne_nil _ _⟩))
  rename_i hoff
  have hne : y = a -> False := fun heq => hoff (heq ▸ hpath.1)
  split
  · rename_i hseen
    exact ⟨⟨part, hstack, h⟩, List.Subset.refl _, hseen, fun heq => absurd heq hne⟩
  · have hmore : s.visited ⊆ s.visited ++ [y] := List.subset_append_left _ _
    refine ⟨⟨(y, path ++ [y]) :: part, ?_, hmore h.origin, ?_, ?_⟩, hmore,
      List.mem_append_right _ (List.mem_singleton.mpr rfl), fun heq => absurd heq hne⟩
    · rw [hstack, List.cons_append]
    · intro p hp
      rcases List.mem_cons.mp hp with heq | hold
      · rw [heq]
        exact ⟨List.mem_append_left _ hpath.1, List.append_subset.mpr
          ⟨fun u hu => hmore (hpath.2 hu), List.subset_append_right _ _⟩⟩
      · exact ⟨(h.paths p hold).1, fun u hu => hmore ((h.paths p hold).2 hu)⟩
    · intro z hz
      rcases List.mem_append.mp hz with hold | hself
      · rcases h.closed z hold with hearlier | hpart | hlooking | ⟨hsub, hrest⟩
        · exact Or.inl hearlier
        · exact Or.inr (Or.inl (List.mem_cons_of_mem y hpart))
        · exact Or.inr (Or.inr (Or.inl hlooking))
        · exact Or.inr (Or.inr (Or.inr ⟨fun u hu => hmore (hsub hu), hrest⟩))
      · rw [List.mem_singleton.mp hself]
        exact Or.inr (Or.inl List.mem_cons_self)

theorem Below.looks {a : α} {earlier path : List α} {looking : α -> Prop}
    {rest : List (α × List α)} (ys : List α) {part : List (α × List α)} {s : State α}
    (h : Below next a earlier looking part s) (hstack : s.stack = part ++ rest)
    (hpath : a ∈ path ∧ path ⊆ s.visited) :
    (exists part', (ys.foldl (CycleSearch.look path) s).stack = part' ++ rest ∧
      Below next a earlier looking part' (ys.foldl (CycleSearch.look path) s)) ∧
    s.visited ⊆ (ys.foldl (CycleSearch.look path) s).visited ∧
    ys ⊆ (ys.foldl (CycleSearch.look path) s).visited ∧
    (s.cycles ≠ [] ∨ a ∈ ys -> (ys.foldl (CycleSearch.look path) s).cycles ≠ []) := by
  induction ys generalizing part s with
  | nil =>
      refine ⟨⟨part, hstack, h⟩, List.Subset.refl _, List.nil_subset _, ?_⟩
      rintro (hcycles | hmem)
      · exact hcycles
      · cases hmem
  | cons y ys ih =>
      rcases h.look hstack hpath y with ⟨⟨part', hstack', hbelow⟩, hsub, hy, hlisted⟩
      have hrest := ih hbelow hstack' ⟨hpath.1, fun u hu => hsub (hpath.2 hu)⟩
      rw [List.foldl_cons]
      refine ⟨hrest.1, fun u hu => hrest.2.1 (hsub hu), ?_, ?_⟩
      · intro u hu
        rcases List.mem_cons.mp hu with heq | hmem
        · rw [heq]
          exact hrest.2.1 hy
        · exact hrest.2.2.1 hmem
      · rintro (hcycles | hmem)
        · exact hrest.2.2.2 (Or.inl (look_cycles hcycles))
        · rcases List.mem_cons.mp hmem with heq | hlater
          · exact hrest.2.2.2 (Or.inl (hlisted heq.symm))
          · exact hrest.2.2.2 (Or.inr hlater)

/-- An expansion in the part of the stack below the node stays there. -/
theorem Below.expand {a : α} {earlier : List α} {entry : α × List α}
    {part : List (α × List α)} {s : State α}
    (h : Below next a earlier (fun _ => False) (entry :: part) s) (rest : List (α × List α)) :
    exists part', (expand next s entry (part ++ rest)).stack = part' ++ rest ∧
      Below next a earlier (fun _ => False) part' (expand next s entry (part ++ rest)) := by
  have hpath := h.paths entry List.mem_cons_self
  have hpopped : Below next a earlier (fun z => z = entry.1) part
      { s with stack := part ++ rest } := by
    refine ⟨h.origin, fun p hp => h.paths p (List.mem_cons_of_mem entry hp), ?_⟩
    intro z hz
    rcases h.closed z hz with hearlier | hpart | hnone | hdone
    · exact Or.inl hearlier
    · rw [List.map_cons] at hpart
      rcases List.mem_cons.mp hpart with heq | hmem
      · exact Or.inr (Or.inr (Or.inl heq))
      · exact Or.inr (Or.inl hmem)
    · exact False.elim hnone
    · exact Or.inr (Or.inr (Or.inr hdone))
  rcases hpopped.looks (next entry.1) rfl hpath with ⟨⟨part', hstack', hbelow⟩, _, hnext, hlisted⟩
  refine ⟨part', hstack', hbelow.origin, hbelow.paths, ?_⟩
  intro z hz
  rcases hbelow.closed z hz with hearlier | hpart | heq | ⟨hsub, hexpanded, hcycles⟩
  · exact Or.inl hearlier
  · exact Or.inr (Or.inl hpart)
  · rw [heq]
    exact Or.inr (Or.inr (Or.inr ⟨hnext, List.mem_insert_self,
      fun ha => hlisted (Or.inr ha)⟩))
  · exact Or.inr (Or.inr (Or.inr ⟨hsub, List.mem_insert_of_mem hexpanded, hcycles⟩))

omit [DecidableEq α] in
/-- When the part of the stack is used up, a fresh cycle has been gone round. -/
theorem Below.cycles_ne_nil {a : α} {earlier cycle : List α} {s : State α}
    (h : Below next a earlier (fun _ => False) [] s) (hcycle : IsCycle next (a :: cycle))
    (hfresh : forall y, y ∈ cycle -> y ∉ earlier) : s.cycles ≠ [] := by
  have hdone : forall z, z ∈ s.visited -> (z = a ∨ z ∉ earlier) ->
      next z ⊆ s.visited ∧ (a ∈ next z -> s.cycles ≠ []) := by
    intro z hz hnew
    rcases h.closed z hz with ⟨hearlier, hne⟩ | hpart | hnone | ⟨hsub, _, hlisted⟩
    · rcases hnew with heq | hnot
      · exact absurd heq hne
      · exact absurd hearlier hnot
    · cases hpart
    · exact False.elim hnone
    · exact ⟨hsub, hlisted⟩
  have hround : forall (c : List α) (z : α), (z :: c).IsChain (fun x y => y ∈ next x) ->
      z ∈ s.visited -> (z = a ∨ z ∉ earlier) -> (forall y, y ∈ c -> y ∉ earlier) ->
      forall w, w ∈ z :: c -> w ∈ s.visited ∧ (w = a ∨ w ∉ earlier) := by
    intro c
    induction c with
    | nil =>
        intro z _ hz hnew _ w hw
        rw [List.mem_singleton.mp hw]
        exact ⟨hz, hnew⟩
    | cons y c ih =>
        intro z hchain hz hnew hrest w hw
        rw [List.isChain_cons_cons] at hchain
        rcases List.mem_cons.mp hw with heq | hmem
        · rw [heq]
          exact ⟨hz, hnew⟩
        · exact ih y hchain.2 ((hdone z hz hnew).1 hchain.1)
            (Or.inr (hrest y List.mem_cons_self))
            (fun u hu => hrest u (List.mem_cons_of_mem y hu)) w hmem
  rcases hlast : (a :: cycle).getLast? with _ | last
  · rw [List.getLast?_eq_none_iff] at hlast
    cases hlast
  · have hend := hround cycle a hcycle.steps h.origin (Or.inl rfl) hfresh last
      (List.mem_of_getLast? hlast)
    exact (hdone last hend.1 hend.2).2 (hcycle.closes a last rfl hlast)

/-- From a state with a fresh cycle the search lists one. -/
theorem search_of_freshCycle {rounds : Nat} {s s' : State α} {entry : α × List α}
    {rest : List (α × List α)} {cycle : List α} (hstack : s.stack = entry :: rest)
    (hpath : IsTrail next entry.1 entry.2) (hmarked : entry.2 ⊆ s.visited)
    (hcycle : IsCycle next (entry.1 :: cycle))
    (hfresh : forall y, y ∈ cycle -> y ∉ s.visited) (h : search next rounds s = some s') :
    s'.cycles ≠ [] := by
  have hmem : entry.1 ∈ entry.2 := List.mem_of_getLast? hpath.last
  have hstart : Below next entry.1 s.visited (fun _ => False) [entry] s := by
    refine ⟨hmarked hmem, ?_, ?_⟩
    · intro p hp
      rw [List.mem_singleton.mp hp]
      exact ⟨hmem, hmarked⟩
    · intro z hz
      by_cases heq : z = entry.1
      · rw [heq]
        exact Or.inr (Or.inl List.mem_cons_self)
      · exact Or.inl ⟨hz, heq⟩
  have hend := search_invariant (I := fun t => t.cycles ≠ [] ∨ exists p part,
      t.stack = (p :: part) ++ rest ∧
      Below next entry.1 s.visited (fun _ => False) (p :: part) t) ?_ h
    (Or.inr ⟨entry, [], hstack, hstart⟩)
  · rcases hend with ⟨hlisted | ⟨p, part, hp, _⟩, hnil⟩
    · exact hlisted
    · rw [hnil] at hp
      cases hp
  · rintro t e others (hlisted | ⟨p, part, hp, hbelow⟩) hothers
    · left
      have hall : (lookAll next t e others).cycles ≠ [] :=
        lookAll_invariant (I := fun s => s.cycles ≠ []) (fun _ _ hs _ => look_cycles hs) hlisted
      exact hall
    · rw [hp, List.cons_append] at hothers
      cases hothers
      rcases hbelow.expand rest with ⟨part', hpart', hbelow'⟩
      cases part' with
      | nil => exact Or.inl (hbelow'.cycles_ne_nil hcycle hfresh)
      | cons q part' => exact Or.inr ⟨q, part', hpart', hbelow'⟩

/-!
### One search and all of them
-/

/-- The search goes on to its end from every stack it comes to. -/
theorem search_of_reached {rounds : Nat} {s s' : State α} {m : Marks α}
    (hm : Reached next x m) (h : search next rounds (startAt s x) = some s') :
    exists t rounds', t.toMarks = m ∧ search next rounds' t = some s' ∧
      Explained next x s.cycles t := by
  induction hm with
  | start => exact ⟨startAt s x, rounds, rfl, h, explained_startAt s⟩
  | @step m entry rest _ hstack ih =>
      rcases ih with ⟨t, rounds', ht, hsearch, hexplained⟩
      have htstack : t.stack = entry :: rest := by
        rw [← hstack, ← ht]
      cases rounds' with
      | zero => cases hsearch
      | succ rounds' =>
          simp only [search, htstack] at hsearch
          refine ⟨expand next t entry rest, rounds', ?_, hsearch, hexplained.expand htstack⟩
          rw [toMarks_expand, ht]

/-- A search lists a cycle exactly when it comes to expand a node on a fresh one. -/
theorem search_cycles_iff {rounds : Nat} {s s' : State α}
    (h : search next rounds (startAt s x) = some s') :
    s'.cycles ≠ [] <-> s.cycles ≠ [] ∨ exists m, Reached next x m ∧ FreshCycle next m := by
  constructor
  · exact (search_invariant (fun _ _ _ hs hstack => hs.expand hstack) h
      (explained_startAt s)).1.found
  · rintro (hbefore | ⟨m, hm, entry, rest, cycle, hstack, hcycle, hfresh⟩)
    · exact search_cycles h hbefore
    · rcases search_of_reached hm h with ⟨t, rounds', ht, hsearch, hexplained⟩
      subst ht
      have hentry := hexplained.trails entry (hstack ▸ List.mem_cons_self)
      exact search_of_freshCycle hstack hentry.1 hentry.2 hcycle hfresh hsearch

/-- Nothing is expanded since a state but what is in reach of a node. -/
structure ExpandsFrom (next : α -> List α) (x : α) (s t : State α) : Prop where
  kept : s.expanded ⊆ t.expanded
  stack : forall p, p ∈ t.stack -> ReflTransGen (Next next) x p.1
  expanded : forall z, z ∈ t.expanded -> z ∈ s.expanded ∨ ReflTransGen (Next next) x z

theorem ExpandsFrom.expand {s t : State α} (h : ExpandsFrom next x s t)
    {entry : α × List α} {rest : List (α × List α)} (hstack : t.stack = entry :: rest) :
    ExpandsFrom next x s (expand next t entry rest) := by
  have hentry := h.stack entry (hstack ▸ List.mem_cons_self)
  have hall : (lookAll next t entry rest).expanded = t.expanded ∧
      forall p, p ∈ (lookAll next t entry rest).stack -> ReflTransGen (Next next) x p.1 := by
    refine lookAll_invariant (I := fun u => u.expanded = t.expanded ∧
      forall p, p ∈ u.stack -> ReflTransGen (Next next) x p.1) ?_ ?_
    · intro u y hu hy
      unfold look
      split
      · exact hu
      split
      · exact hu
      · refine ⟨hu.1, ?_⟩
        intro p hp
        rcases List.mem_cons.mp hp with heq | hmem
        · rw [heq]
          exact hentry.tail hy
        · exact hu.2 p hmem
    · exact ⟨rfl, fun p hp => h.stack p (hstack ▸ List.mem_cons_of_mem entry hp)⟩
  have hinsert : (CycleSearch.expand next t entry rest).expanded = t.expanded.insert entry.1 := by
    unfold CycleSearch.expand
    rw [hall.1]
  refine ⟨?_, hall.2, ?_⟩
  · rw [hinsert]
    exact fun z hz => List.mem_insert_of_mem (h.kept hz)
  · intro z hz
    rw [hinsert] at hz
    rcases List.mem_insert_iff.mp hz with heq | hold
    · rw [heq]
      exact Or.inr hentry
    · exact h.expanded z hold

/-- After a search what was visited is closed under successors and expanded. -/
theorem search_closed {rounds : Nat} {s s' : State α}
    (h : search next rounds (startAt s x) = some s') :
    x ∈ s'.visited ∧ forall z, z ∈ s'.visited -> next z ⊆ s'.visited ∧ z ∈ s'.expanded := by
  have hstart : Below next x [x] (fun _ => False) (startAt s x).stack (startAt s x) := by
    refine ⟨List.mem_singleton.mpr rfl, ?_, ?_⟩
    · intro p hp
      rw [List.mem_singleton.mp hp]
      exact ⟨List.mem_singleton.mpr rfl, List.Subset.refl _⟩
    · exact fun z hz => Or.inr (Or.inl hz)
  have hbelow := search_invariant
    (I := fun t => Below next x [x] (fun _ => False) t.stack t) ?_ h hstart
  · have hend := hbelow.1
    rw [hbelow.2] at hend
    refine ⟨hend.origin, ?_⟩
    intro z hz
    rcases hend.closed z hz with ⟨hself, hne⟩ | hpart | hnone | hdone
    · exact absurd (List.mem_singleton.mp hself) hne
    · cases hpart
    · exact False.elim hnone
    · exact ⟨hdone.1, hdone.2.1⟩
  · intro t entry rest ht hstack
    rw [hstack] at ht
    rcases ht.expand [] with ⟨part', hpart', hbelow'⟩
    rw [List.append_nil] at hpart' hbelow'
    rw [hpart', List.append_nil]
    exact hbelow'

/-- A search expands what is in reach of its first node. -/
theorem mem_expanded_iff {rounds : Nat} {s s' : State α}
    (h : search next rounds (startAt s x) = some s') (y : α) :
    y ∈ s'.expanded <-> y ∈ s.expanded ∨ ReflTransGen (Next next) x y := by
  rcases search_closed h with ⟨horigin, hclosed⟩
  have hstart : ExpandsFrom next x s (startAt s x) := by
    refine ⟨List.Subset.refl _, ?_, fun z hz => Or.inl hz⟩
    intro p hp
    rw [List.mem_singleton.mp hp]
  have hkept := (search_invariant (fun _ _ _ ht hstack => ht.expand hstack) h hstart).1
  constructor
  · exact hkept.expanded y
  · rintro (hold | hreach)
    · exact hkept.kept hold
    · have hvisited : y ∈ s'.visited := by
        induction hreach with
        | refl => exact horigin
        | tail _ hstep ih => exact (hclosed _ ih).1 hstep
      exact (hclosed y hvisited).2

/-- The search from a node comes to expand a node on a fresh cycle. -/
def MeetsFresh (next : α -> List α) (x : α) : Prop :=
  exists m, Reached next x m ∧ FreshCycle next m

/-- Some node that no node before it leads to meets a fresh cycle. -/
def SomeMeetsFresh (next : α -> List α) (done nodes : List α) : Prop :=
  exists pre x post, nodes = pre ++ x :: post ∧
    (forall y, y ∈ done ++ pre -> ¬ ReflTransGen (Next next) y x) ∧ MeetsFresh next x

theorem someMeetsFresh_cons {done nodes : List α} :
    SomeMeetsFresh next done (x :: nodes) <->
      ((forall y, y ∈ done -> ¬ ReflTransGen (Next next) y x) ∧ MeetsFresh next x) ∨
        SomeMeetsFresh next (done ++ [x]) nodes := by
  have hassoc : forall pre : List α, (done ++ [x]) ++ pre = done ++ x :: pre := by simp
  constructor
  · rintro ⟨pre, y, post, hsplit, hfirst, hfresh⟩
    cases pre with
    | nil =>
        rw [List.nil_append] at hsplit
        cases hsplit
        rw [List.append_nil] at hfirst
        exact Or.inl ⟨hfirst, hfresh⟩
    | cons u pre =>
        rw [List.cons_append] at hsplit
        cases hsplit
        refine Or.inr ⟨pre, y, post, rfl, ?_, hfresh⟩
        rw [hassoc]
        exact hfirst
  · rintro (⟨hfirst, hfresh⟩ | ⟨pre, y, post, hsplit, hfirst, hfresh⟩)
    · refine ⟨[], x, nodes, rfl, ?_, hfresh⟩
      rw [List.append_nil]
      exact hfirst
    · refine ⟨x :: pre, y, post, ?_, ?_, hfresh⟩
      · rw [hsplit, List.cons_append]
      · rw [← hassoc]
        exact hfirst

/-- The searches list a cycle exactly when one of them starts at a node that no earlier one
leads to and comes to expand a node on a fresh cycle. -/
theorem searchAll_cycles_iff {rounds : Nat} {nodes done : List α} {s s' : State α}
    (hdone : forall y, y ∈ s.expanded <-> exists z, z ∈ done ∧ ReflTransGen (Next next) z y)
    (h : searchAll next rounds nodes s = some s') :
    s'.cycles ≠ [] <-> s.cycles ≠ [] ∨ SomeMeetsFresh next done nodes := by
  induction nodes generalizing s done with
  | nil =>
      cases h
      constructor
      · exact Or.inl
      · rintro (hcycles | ⟨pre, x, post, hsplit, _⟩)
        · exact hcycles
        · simp at hsplit
  | cons x nodes ih =>
      rw [someMeetsFresh_cons]
      unfold searchAll at h
      split at h
      · rename_i hseen
        rcases (hdone x).mp hseen with ⟨z, hz, hreach⟩
        have hdone' : forall y, y ∈ s.expanded <->
            exists z, z ∈ done ++ [x] ∧ ReflTransGen (Next next) z y := by
          intro y
          rw [hdone y]
          constructor
          · rintro ⟨u, hu, hy⟩
            exact ⟨u, List.mem_append_left _ hu, hy⟩
          · rintro ⟨u, hu, hy⟩
            rcases List.mem_append.mp hu with hold | hself
            · exact ⟨u, hold, hy⟩
            · rw [List.mem_singleton.mp hself] at hy
              exact ⟨z, hz, hreach.trans hy⟩
        rw [ih hdone' h]
        constructor
        · rintro (hcycles | hlater)
          · exact Or.inl hcycles
          · exact Or.inr (Or.inr hlater)
        · rintro (hcycles | ⟨hfirst, _⟩ | hlater)
          · exact Or.inl hcycles
          · exact absurd hreach (hfirst z hz)
          · exact Or.inr hlater
      · rename_i hnew
        rcases Option.bind_eq_some_iff.mp h with ⟨mid, hmid, hrest⟩
        have hdone' : forall y, y ∈ mid.expanded <->
            exists z, z ∈ done ++ [x] ∧ ReflTransGen (Next next) z y := by
          intro y
          rw [mem_expanded_iff hmid, hdone y]
          constructor
          · rintro (⟨u, hu, hy⟩ | hy)
            · exact ⟨u, List.mem_append_left _ hu, hy⟩
            · exact ⟨x, List.mem_append_right _ (List.mem_singleton.mpr rfl), hy⟩
          · rintro ⟨u, hu, hy⟩
            rcases List.mem_append.mp hu with hold | hself
            · exact Or.inl ⟨u, hold, hy⟩
            · rw [List.mem_singleton.mp hself] at hy
              exact Or.inr hy
        have hfirst : forall y, y ∈ done -> ¬ ReflTransGen (Next next) y x :=
          fun y hy hreach => hnew ((hdone x).mpr ⟨y, hy, hreach⟩)
        rw [ih hdone' hrest, search_cycles_iff hmid]
        constructor
        · rintro ((hcycles | hfresh) | hlater)
          · exact Or.inl hcycles
          · exact Or.inr (Or.inl ⟨hfirst, hfresh⟩)
          · exact Or.inr (Or.inr hlater)
        · rintro (hcycles | ⟨_, hfresh⟩ | hlater)
          · exact Or.inl (Or.inl hcycles)
          · exact Or.inl (Or.inr hfresh)
          · exact Or.inr hlater

end Complete

end CycleSearch
end Foundation
