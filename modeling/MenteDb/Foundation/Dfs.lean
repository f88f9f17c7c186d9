import MenteDb.Foundation.Bfs
import Mathlib.Algebra.GroupWithZero.Nat
import Mathlib.Data.List.Chain

/-!
# Depth-first search

Search with a stack from a node along a successor function, up to a depth.  A node is
listed when it is first taken from the stack, at the depth it was pushed with; that
depth is the length of a path over listed nodes, and no bound on it is a distance.
-/

namespace Foundation
namespace Dfs

variable {α : Type}

/-- The nodes to visit, the top of the stack first, and the nodes already listed. -/
structure State (α : Type) where
  stack : List (α × Nat)
  visited : List α

def push [DecidableEq α] (visited : List α) (depth : Nat) (stack : List (α × Nat)) (y : α) :
    List (α × Nat) :=
  if y ∈ visited then stack else (y, depth + 1) :: stack

def loop [DecidableEq α] (next : α -> List α) (maxDepth : Nat) :
    Nat -> State α -> List (α × Nat)
  | 0, _ => []
  | fuel + 1, s =>
      match s.stack with
      | [] => []
      | (x, depth) :: rest =>
          if x ∈ s.visited then loop next maxDepth fuel { s with stack := rest }
          else if maxDepth <= depth then
            (x, depth) :: loop next maxDepth fuel
              { stack := rest, visited := s.visited ++ [x] }
          else
            (x, depth) :: loop next maxDepth fuel
              { stack := (next x).foldl (push (s.visited ++ [x]) depth) rest
                visited := s.visited ++ [x] }

def start (x : α) : State α where
  stack := [(x, 0)]
  visited := []

theorem mem_pushAll [DecidableEq α] {visited : List α} {depth : Nat} {ys : List α}
    {stack : List (α × Nat)} {p : α × Nat} :
    p ∈ ys.foldl (push visited depth) stack <->
      p ∈ stack ∨ p.2 = depth + 1 ∧ p.1 ∈ ys ∧ p.1 ∉ visited := by
  induction ys generalizing stack with
  | nil => simp
  | cons y ys ih =>
      rw [List.foldl_cons, ih]
      unfold push
      by_cases hseen : y ∈ visited
      · rw [if_pos hseen]
        constructor
        · rintro (hold | ⟨hdepth, hmem, hnew⟩)
          · exact Or.inl hold
          · exact Or.inr ⟨hdepth, List.mem_cons_of_mem y hmem, hnew⟩
        · rintro (hold | ⟨hdepth, hmem, hnew⟩)
          · exact Or.inl hold
          · cases List.mem_cons.mp hmem with
            | inl heq => exact absurd (heq ▸ hseen) hnew
            | inr hrest => exact Or.inr ⟨hdepth, hrest, hnew⟩
      · rw [if_neg hseen, List.mem_cons]
        constructor
        · rintro ((heq | hold) | ⟨hdepth, hmem, hnew⟩)
          · subst heq
            exact Or.inr ⟨rfl, List.mem_cons_self, hseen⟩
          · exact Or.inl hold
          · exact Or.inr ⟨hdepth, List.mem_cons_of_mem y hmem, hnew⟩
        · rintro (hold | ⟨hdepth, hmem, hnew⟩)
          · exact Or.inl (Or.inr hold)
          · cases List.mem_cons.mp hmem with
            | inl heq => exact Or.inl (Or.inl (Prod.ext heq hdepth))
            | inr hrest => exact Or.inr ⟨hdepth, hrest, hnew⟩

theorem length_pushAll_le [DecidableEq α] (visited : List α) (depth : Nat) (ys : List α)
    (stack : List (α × Nat)) :
    (ys.foldl (push visited depth) stack).length <= ys.length + stack.length := by
  induction ys generalizing stack with
  | nil => simp
  | cons y ys ih =>
      rw [List.foldl_cons]
      refine Nat.le_trans (ih _) ?_
      unfold push
      split
      · rw [List.length_cons]
        omega
      · rw [List.length_cons, List.length_cons]
        omega

/-!
## The invariant
-/

section Invariant

variable {next : α -> List α} {x : α} {maxDepth : Nat}

/-- A path from the origin that repeats no node. -/
structure IsPath (next : α -> List α) (x : α) (path : List α) : Prop where
  head : path.head? = some x
  steps : path.IsChain (fun y z => z ∈ next y)
  nodup : path.Nodup

/-- A node that can be put at the end of a path over listed nodes. -/
structure Extends (next : α -> List α) (x : α) (path : List α) (y : α) : Prop where
  head : (path ++ [y]).head? = some x
  steps : (path ++ [y]).IsChain (fun y z => z ∈ next y)
  nodup : path.Nodup

theorem Extends.isPath {path : List α} {y : α} (h : Extends next x path y) (hy : y ∉ path) :
    IsPath next x (path ++ [y]) where
  head := h.head
  steps := h.steps
  nodup := by
    rw [← List.concat_eq_append]
    exact h.nodup.concat hy

theorem IsPath.extends {path : List α} {y z : α} (h : IsPath next x (path ++ [y]))
    (hz : z ∈ next y) : Extends next x (path ++ [y]) z where
  head := by
    rw [List.head?_append, h.head]
    rfl
  steps := by
    refine List.IsChain.append h.steps (List.isChain_singleton z) ?_
    intro u hu v hv
    rw [List.getLast?_concat, Option.mem_some_iff] at hu
    rw [List.head?_singleton, Option.mem_some_iff] at hv
    subst hu hv
    exact hz
  nodup := h.nodup

/-- Listed nodes end paths over listed nodes, nodes on the stack extend them, and what
follows a listed node above the last depth is listed or on the stack. -/
structure Invariant (next : α -> List α) (x : α) (maxDepth : Nat) (listed : List (α × Nat))
    (s : State α) : Prop where
  visited_eq : s.visited = listed.map Prod.fst
  nodup : s.visited.Nodup
  paths : forall p, p ∈ listed -> p.2 <= maxDepth ∧
    exists path, path ++ [p.1] ⊆ s.visited ∧ path.length = p.2 ∧ IsPath next x (path ++ [p.1])
  pending : forall p, p ∈ s.stack -> p.2 <= maxDepth ∧
    exists path, path ⊆ s.visited ∧ path.length = p.2 ∧ Extends next x path p.1
  expanded : forall p, p ∈ listed -> p.2 < maxDepth -> forall y, y ∈ next p.1 ->
    y ∈ s.visited ∨ y ∈ s.stack.map Prod.fst
  origin : x ∈ s.visited ∨ x ∈ s.stack.map Prod.fst

theorem Invariant.start : Invariant next x maxDepth [] (start x) where
  visited_eq := rfl
  nodup := List.nodup_nil
  paths := fun p hp => absurd hp List.not_mem_nil
  pending := by
    intro p hp
    rw [List.mem_singleton.mp hp]
    exact ⟨Nat.zero_le _, [], List.nil_subset _, rfl, rfl, List.isChain_singleton x,
      List.nodup_nil⟩
  expanded := fun p hp => absurd hp List.not_mem_nil
  origin := Or.inr (List.mem_singleton_self x)

variable {listed rest : List (α × Nat)} {p : α × Nat} {visited : List α}

/-- What is listed or on the stack stays so when the head of the stack is listed already
or is being listed. -/
theorem listed_or_stacked {stack : List (α × Nat)} {seen : List α} (hrest : rest ⊆ stack)
    (hvisited : visited ⊆ seen) (hp : p.1 ∈ seen) {y : α}
    (h : y ∈ visited ∨ y ∈ (p :: rest).map Prod.fst) :
    y ∈ seen ∨ y ∈ stack.map Prod.fst := by
  cases h with
  | inl hold => exact Or.inl (hvisited hold)
  | inr hstack =>
      cases List.mem_cons.mp hstack with
      | inl heq => exact Or.inl (heq ▸ hp)
      | inr hmem => exact Or.inr (List.map_subset _ hrest hmem)

/-- A node listed before is dropped. -/
theorem Invariant.drop
    (h : Invariant next x maxDepth listed { stack := p :: rest, visited := visited })
    (hseen : p.1 ∈ visited) :
    Invariant next x maxDepth listed { stack := rest, visited := visited } where
  visited_eq := h.visited_eq
  nodup := h.nodup
  paths := h.paths
  pending := fun q hq => h.pending q (List.mem_cons_of_mem p hq)
  expanded := fun q hq hless y hy => listed_or_stacked (List.Subset.refl _)
    (List.Subset.refl _) hseen (h.expanded q hq hless y hy)
  origin := listed_or_stacked (List.Subset.refl _) (List.Subset.refl _) hseen h.origin

/-- A new node is listed; the stack has its successors when it is above the last
depth. -/
theorem Invariant.list
    (h : Invariant next x maxDepth listed { stack := p :: rest, visited := visited })
    (hnew : p.1 ∉ visited) {stack : List (α × Nat)} (hrest : rest ⊆ stack)
    (hpushed : forall q, q ∈ stack -> q ∈ rest ∨
      p.2 < maxDepth ∧ q.2 = p.2 + 1 ∧ q.1 ∈ next p.1)
    (hexpanded : p.2 < maxDepth -> forall y, y ∈ next p.1 ->
      y ∈ visited ++ [p.1] ∨ y ∈ stack.map Prod.fst) :
    Invariant next x maxDepth (listed ++ [p])
      { stack := stack, visited := visited ++ [p.1] } := by
  have hmore : visited ⊆ visited ++ [p.1] := List.subset_append_left _ _
  have hself : p.1 ∈ visited ++ [p.1] := List.mem_append_right _ (List.mem_singleton_self _)
  rcases h.pending p List.mem_cons_self with ⟨hdepth, path, hsub, hlength, hextends⟩
  have hpath := hextends.isPath (fun hmem => hnew (hsub hmem))
  have hlisted : path ++ [p.1] ⊆ visited ++ [p.1] := by
    intro y hy
    cases List.mem_append.mp hy with
    | inl hold => exact hmore (hsub hold)
    | inr hlast => exact List.mem_append_right _ hlast
  refine ⟨?_, ?_, ?_, ?_, ?_, ?_⟩
  · rw [List.map_append, ← h.visited_eq]
    rfl
  · have hconcat := h.nodup.concat hnew
    rw [List.concat_eq_append] at hconcat
    exact hconcat
  · intro q hq
    cases List.mem_append.mp hq with
    | inl hold =>
        rcases h.paths q hold with ⟨hle, old, hold', hrest'⟩
        exact ⟨hle, old, List.Subset.trans hold' hmore, hrest'⟩
    | inr hlast =>
        rw [List.mem_singleton.mp hlast]
        exact ⟨hdepth, path, hlisted, hlength, hpath⟩
  · intro q hq
    cases hpushed q hq with
    | inl hold =>
        rcases h.pending q (List.mem_cons_of_mem p hold) with ⟨hle, old, hold', hrest'⟩
        exact ⟨hle, old, List.Subset.trans hold' hmore, hrest'⟩
    | inr hpush =>
        refine ⟨by omega, path ++ [p.1], hlisted, ?_, hpath.extends hpush.2.2⟩
        rw [List.length_append, List.length_singleton, hlength, hpush.2.1]
  · intro q hq hless y hy
    cases List.mem_append.mp hq with
    | inl hold => exact listed_or_stacked hrest hmore hself (h.expanded q hold hless y hy)
    | inr hlast =>
        rw [List.mem_singleton.mp hlast] at hless hy
        exact hexpanded hless y hy
  · exact listed_or_stacked hrest hmore hself h.origin

end Invariant

/-!
## What the search lists
-/

section Search

variable {next : α -> List α} {x : α} {maxDepth : Nat}

theorem reaches_concat {path : List α} {y : α} (hhead : (path ++ [y]).head? = some x)
    (hsteps : (path ++ [y]).IsChain (fun y z => z ∈ next y)) :
    Bfs.Reaches next x path.length y := by
  induction path using List.reverseRecOn generalizing y with
  | nil =>
      rw [List.nil_append, List.head?_singleton, Option.some.injEq] at hhead
      rw [hhead]
      exact Bfs.Reaches.refl
  | append_singleton path z ih =>
      have hsplit := List.isChain_append.mp hsteps
      have hz : Bfs.Reaches next x path.length z := by
        refine ih ?_ hsplit.1
        rw [List.head?_append] at hhead
        cases hfirst : (path ++ [z]).head? with
        | none => simp at hfirst
        | some u =>
            rw [hfirst] at hhead
            exact hhead
      rw [List.length_append, List.length_singleton]
      exact Bfs.Reaches.step hz (hsplit.2.2 z (by simp) y (by simp))

/-- A list that a search with a stack may return. -/
structure Listing (next : α -> List α) (x : α) (maxDepth : Nat) (out : List (α × Nat)) :
    Prop where
  nodup : (out.map Prod.fst).Nodup
  paths : forall p, p ∈ out -> p.2 <= maxDepth ∧
    exists path, path ++ [p.1] ⊆ out.map Prod.fst ∧ path.length = p.2 ∧
      IsPath next x (path ++ [p.1])
  expanded : forall p, p ∈ out -> p.2 < maxDepth -> forall y, y ∈ next p.1 ->
    y ∈ out.map Prod.fst
  origin : x ∈ out.map Prod.fst

theorem Invariant.listing {listed : List (α × Nat)} {visited : List α}
    (h : Invariant next x maxDepth listed { stack := [], visited := visited }) :
    Listing next x maxDepth listed := by
  have hvisited : visited = listed.map Prod.fst := h.visited_eq
  subst hvisited
  refine ⟨h.nodup, h.paths, ?_, ?_⟩
  · intro p hp hless y hy
    cases h.expanded p hp hless y hy with
    | inl hlisted => exact hlisted
    | inr hstack => cases hstack
  · cases h.origin with
    | inl hlisted => exact hlisted
    | inr hstack => cases hstack

/-- Rounds that are left at most: one for each entry of the stack and one for each
successor of a node not yet listed. -/
def work [DecidableEq α] (next : α -> List α) (nodes : List α) (s : State α) : Nat :=
  s.stack.length +
    ((nodes.filter (fun y => decide (y ∉ s.visited))).map (fun y => (next y).length)).sum

theorem sum_filter_le [DecidableEq α] (f : α -> Nat) (nodes visited : List α) (y : α) :
    ((nodes.filter (fun z => decide (z ∉ visited ++ [y]))).map f).sum <=
      ((nodes.filter (fun z => decide (z ∉ visited))).map f).sum := by
  induction nodes with
  | nil => exact Nat.le_refl 0
  | cons z nodes ih =>
      rw [List.filter_cons, List.filter_cons]
      by_cases hold : z ∈ visited
      · rw [if_neg (by simp [hold]), if_neg (by simp [hold])]
        exact ih
      · rw [if_pos (c := decide (z ∉ visited) = true) (by simpa using hold)]
        split
        · simp only [List.map_cons, List.sum_cons]
          omega
        · simp only [List.map_cons, List.sum_cons]
          omega

theorem sum_filter_list [DecidableEq α] (f : α -> Nat) {nodes visited : List α} {y : α}
    (hy : y ∈ nodes) (hnew : y ∉ visited) :
    ((nodes.filter (fun z => decide (z ∉ visited ++ [y]))).map f).sum + f y <=
      ((nodes.filter (fun z => decide (z ∉ visited))).map f).sum := by
  induction nodes with
  | nil => cases hy
  | cons z nodes ih =>
      by_cases heq : z = y
      · subst heq
        have hgone : decide (z ∉ visited ++ [z]) = false := by simp
        have hkept : decide (z ∉ visited) = true := by simpa using hnew
        have htail := sum_filter_le f nodes visited z
        rw [List.filter_cons, List.filter_cons, hgone, hkept]
        simp only [Bool.false_eq_true, if_false, if_true, List.map_cons, List.sum_cons]
        omega
      · have hmem : y ∈ nodes := (List.mem_cons.mp hy).resolve_left (fun h => heq h.symm)
        have hsame : decide (z ∉ visited ++ [y]) = decide (z ∉ visited) := by
          simp [heq]
        have htail := ih hmem
        rw [List.filter_cons, List.filter_cons, hsame]
        split
        · simp only [List.map_cons, List.sum_cons]
          omega
        · exact htail

theorem loop_listing [DecidableEq α] {nodes : List α}
    (hnodes : forall n y, Bfs.Reaches next x n y -> y ∈ nodes) (fuel : Nat)
    {listed : List (α × Nat)} {s : State α} (hfuel : work next nodes s <= fuel)
    (h : Invariant next x maxDepth listed s) :
    Listing next x maxDepth (listed ++ loop next maxDepth fuel s) := by
  induction fuel generalizing listed s with
  | zero =>
      rcases s with ⟨stack, visited⟩
      have hempty : stack = [] := List.length_eq_zero_iff.mp (by
        simp only [work] at hfuel
        omega)
      subst hempty
      show Listing next x maxDepth (listed ++ [])
      rw [List.append_nil]
      exact h.listing
  | succ fuel ih =>
      rcases s with ⟨stack, visited⟩
      cases stack with
      | nil =>
          show Listing next x maxDepth (listed ++ [])
          rw [List.append_nil]
          exact h.listing
      | cons p rest =>
          have hlist : forall out, listed ++ p :: out = listed ++ [p] ++ out := by simp
          simp only [work, List.length_cons] at hfuel
          by_cases hseen : p.1 ∈ visited
          · simp only [loop, if_pos hseen]
            refine ih ?_ (h.drop hseen)
            simp only [work]
            omega
          · rcases h.pending p List.mem_cons_self with ⟨_, path, _, _, hextends⟩
            have hmem := hnodes _ _ (reaches_concat hextends.head hextends.steps)
            have hless := sum_filter_list (fun y => (next y).length) hmem hseen
            by_cases hlast : maxDepth <= p.2
            · simp only [loop, if_neg hseen, if_pos hlast]
              rw [hlist]
              refine ih ?_ (h.list hseen (List.Subset.refl _) (fun q hq => Or.inl hq) ?_)
              · simp only [work]
                omega
              · intro habove
                exact absurd hlast (Nat.not_le_of_lt habove)
            · simp only [loop, if_neg hseen, if_neg hlast]
              rw [hlist]
              have hpushes := length_pushAll_le (visited ++ [p.1]) p.2 (next p.1) rest
              refine ih ?_ (h.list hseen ?_ ?_ ?_)
              · simp only [work]
                omega
              · intro q hq
                exact mem_pushAll.mpr (Or.inl hq)
              · intro q hq
                cases mem_pushAll.mp hq with
                | inl hold => exact Or.inl hold
                | inr hnew => exact Or.inr ⟨Nat.lt_of_not_le hlast, hnew.1, hnew.2.1⟩
              · intro _ y hy
                by_cases hknown : y ∈ visited ++ [p.1]
                · exact Or.inl hknown
                · have hpush : (y, p.2 + 1) ∈
                      (next p.1).foldl (push (visited ++ [p.1]) p.2) rest :=
                    mem_pushAll.mpr (Or.inr ⟨rfl, hy, hknown⟩)
                  exact Or.inr (List.mem_map_of_mem hpush)

/-- A search with a round for the origin and for each successor of each node in reach. -/
theorem search_listing [DecidableEq α] {nodes : List α}
    (hnodes : forall n y, Bfs.Reaches next x n y -> y ∈ nodes) {fuel : Nat}
    (hfuel : 1 + (nodes.map (fun y => (next y).length)).sum <= fuel) :
    Listing next x maxDepth (loop next maxDepth fuel (start x)) := by
  refine loop_listing hnodes fuel ?_ Invariant.start
  simp only [work, start, List.length_singleton]
  rw [List.filter_eq_self.mpr (by simp)]
  exact hfuel

/-!
## Detours

The bound cuts a node off when the search comes to it by a path that is as long as the
bound, even though the node is nearer.
-/

/-- Every node up to the depth has a predecessor one step nearer that no path as long as
the bound reaches, unless through the node itself. -/
def NoDetour (next : α -> List α) (x : α) (maxDepth : Nat) : Prop :=
  forall n y, n < maxDepth -> Bfs.Shortest (Bfs.Reaches next x) (n + 1) y ->
    exists u, Bfs.Reaches next x n u ∧ y ∈ next u ∧
      forall path, path.length = maxDepth -> IsPath next x (path ++ [u]) -> y ∈ path

theorem IsPath.mono {other : α -> List α} (hsub : forall y, next y ⊆ other y) {path : List α}
    (h : IsPath next x path) : IsPath other x path :=
  { h with steps := h.steps.imp (fun y _ hz => hsub y hz) }

theorem NoDetour.congr {other : α -> List α} (hsame : forall y z, z ∈ other y <-> z ∈ next y)
    (h : NoDetour next x maxDepth) : NoDetour other x maxDepth := by
  have hto : forall y, next y ⊆ other y := fun y z hz => (hsame y z).mpr hz
  have hfrom : forall y, other y ⊆ next y := fun y z hz => (hsame y z).mp hz
  intro n y hn hy
  rcases h n y hn ⟨hy.1.mono hfrom, fun m hm => hy.2 m (hm.mono hto)⟩ with
    ⟨u, hu, hnext, havoid⟩
  exact ⟨u, hu.mono hto, hto u hnext,
    fun path hlength hpath => havoid path hlength (hpath.mono hfrom)⟩

/-- No path comes back to its origin. -/
theorem IsPath.eq_nil {path : List α} (h : IsPath next x (path ++ [x])) : path = [] := by
  cases path with
  | nil => rfl
  | cons y path =>
      have hhead : y = x := Option.some.inj h.head
      have hnodup := List.nodup_cons.mp h.nodup
      subst hhead
      exact absurd (List.mem_append_right path (List.mem_singleton_self y)) hnodup.1

theorem Listing.reached {out : List (α × Nat)} (h : Listing next x maxDepth out) {p : α × Nat}
    (hp : p ∈ out) : Bfs.Reaches next x p.2 p.1 ∧ p.2 <= maxDepth := by
  rcases h.paths p hp with ⟨hle, path, _, hlength, hpath⟩
  rw [← hlength] at hle ⊢
  exact ⟨reaches_concat hpath.head hpath.steps, hle⟩

/-- Without detours the search lists every node up to the depth. -/
theorem Listing.mem_of_noDetour {out : List (α × Nat)} (h : Listing next x maxDepth out)
    (hdetour : NoDetour next x maxDepth) {n : Nat} (hn : n <= maxDepth) :
    forall y, Bfs.Shortest (Bfs.Reaches next x) n y -> y ∈ out.map Prod.fst := by
  induction n using Nat.strong_induction_on with
  | h n ih =>
      intro y hy
      cases n with
      | zero =>
          cases hy.1 with
          | refl => exact h.origin
      | succ n =>
          rcases hdetour n y hn hy with ⟨u, hu, hnext, havoid⟩
          have hshortest : Bfs.Shortest (Bfs.Reaches next x) n u := by
            refine ⟨hu, ?_⟩
            intro m hm
            exact Nat.le_of_succ_le_succ (hy.2 (m + 1) (Bfs.Reaches.step hm hnext))
          have hlisted := ih n (Nat.lt_succ_self n) (Nat.le_of_succ_le hn) u hshortest
          rcases List.mem_map.mp hlisted with ⟨p, hp, heq⟩
          subst heq
          rcases h.paths p hp with ⟨hle, path, hsub, hlength, hpath⟩
          cases Nat.lt_or_eq_of_le hle with
          | inl habove => exact h.expanded p hp habove y hnext
          | inr hlast =>
              exact hsub (List.mem_append_left _ (havoid path (hlength.trans hlast) hpath))

end Search

end Dfs
end Foundation
