import Mathlib.Data.List.Nodup
import Mathlib.Data.List.Perm.Subperm

/-!
# Breadth-first search

Search from a node along a successor function, up to a depth.  The invariant speaks
of the nodes already listed and of the queue together: their depths differ by at most
one, and every node listed below the last depth has its successors among them.
-/

namespace Foundation
namespace Bfs

variable {α : Type}

/-- The nodes to visit, with their depths, and the nodes already seen. -/
structure State (α : Type) where
  queue : List (α × Nat)
  visited : List α

def visit [DecidableEq α] (depth : Nat) (s : State α) (x : α) : State α :=
  if x ∈ s.visited then s
  else
    { queue := s.queue ++ [(x, depth + 1)]
      visited := s.visited ++ [x] }

def loop [DecidableEq α] (next : α -> List α) (maxDepth : Nat) :
    Nat -> State α -> List (α × Nat)
  | 0, _ => []
  | fuel + 1, s =>
      match s.queue with
      | [] => []
      | (x, depth) :: rest =>
          if maxDepth <= depth then
            (x, depth) :: loop next maxDepth fuel { s with queue := rest }
          else
            (x, depth) :: loop next maxDepth fuel
              ((next x).foldl (visit depth) { s with queue := rest })

def start (x : α) : State α where
  queue := [(x, 0)]
  visited := [x]

/-- The node is at the end of a walk of that many steps. -/
inductive Reaches (next : α -> List α) (x : α) : Nat -> α -> Prop where
  | refl : Reaches next x 0 x
  | step {n : Nat} {y z : α} : Reaches next x n y -> z ∈ next y -> Reaches next x (n + 1) z

theorem Reaches.mono {next wider : α -> List α} (h : forall y, next y ⊆ wider y) {x y : α}
    {n : Nat} (hy : Reaches next x n y) : Reaches wider x n y := by
  induction hy with
  | refl => exact Reaches.refl
  | step _ hz ih => exact Reaches.step ih (h _ hz)

/-- A walk of that many steps ends in the node, and no walk to it is shorter. -/
def Shortest (walk : Nat -> α -> Prop) (n : Nat) (y : α) : Prop :=
  walk n y ∧ forall m, walk m y -> n <= m

/-!
## The invariant
-/

section Invariant

variable {next : α -> List α} {x : α} {maxDepth : Nat}

/-- What is known of the nodes listed and queued while nodes of a depth are visited. -/
structure Invariant (next : α -> List α) (x : α) (maxDepth depth : Nat)
    (listed : List (α × Nat)) (s : State α) : Prop where
  visited_eq : s.visited = (listed ++ s.queue).map Prod.fst
  nodup : s.visited.Nodup
  reached : forall p, p ∈ listed ++ s.queue -> Reaches next x p.2 p.1 ∧ p.2 <= maxDepth
  sorted : s.queue.Pairwise (fun p q => p.2 <= q.2)
  lower : forall p, p ∈ s.queue -> depth <= p.2
  upper : forall p, p ∈ listed ++ s.queue -> p.2 <= depth + 1
  origin : (x, 0) ∈ listed ++ s.queue

/-- The successors of a node are among the entries, at most one step further. -/
def Expanded (next : α -> List α) (entries : List (α × Nat)) (p : α × Nat) : Prop :=
  forall y, y ∈ next p.1 -> exists d, d <= p.2 + 1 ∧ (y, d) ∈ entries

theorem Expanded.mono {entries more : List (α × Nat)} {p : α × Nat}
    (h : Expanded next entries p) (hsub : entries ⊆ more) : Expanded next more p := by
  intro y hy
  rcases h y hy with ⟨d, hd, hmem⟩
  exact ⟨d, hd, hsub hmem⟩

theorem Invariant.start : Invariant next x maxDepth 0 [] (start x) where
  visited_eq := rfl
  nodup := List.nodup_singleton x
  reached := by
    intro p hp
    rw [List.mem_singleton.mp hp]
    exact ⟨Reaches.refl, Nat.zero_le maxDepth⟩
  sorted := List.pairwise_singleton _ _
  lower := fun p _ => Nat.zero_le p.2
  upper := by
    intro p hp
    rw [List.mem_singleton.mp hp]
    exact Nat.zero_le 1
  origin := List.mem_singleton_self _

/-- The depths known bound themselves. -/
theorem Invariant.bounded {depth : Nat} {listed : List (α × Nat)} {s : State α}
    (h : Invariant next x maxDepth depth listed s) :
    Invariant next x (depth + 1) depth listed s :=
  { h with reached := fun p hp => ⟨(h.reached p hp).1, h.upper p hp⟩ }

/-- The head of the queue is listed; the queue that remains lies between its depth and
the next. -/
theorem Invariant.pop {depth : Nat} {listed rest : List (α × Nat)} {p : α × Nat}
    {visited : List α}
    (h : Invariant next x maxDepth depth listed { queue := p :: rest, visited := visited }) :
    Invariant next x maxDepth p.2 (listed ++ [p]) { queue := rest, visited := visited } := by
  have hentries : listed ++ [p] ++ rest = listed ++ p :: rest := by simp
  have hsorted := List.pairwise_cons.mp h.sorted
  refine ⟨?_, h.nodup, ?_, hsorted.2, hsorted.1, ?_, ?_⟩
  · rw [hentries]
    exact h.visited_eq
  · rw [hentries]
    exact h.reached
  · rw [hentries]
    intro q hq
    exact Nat.le_trans (h.upper q hq) (Nat.succ_le_succ (h.lower p List.mem_cons_self))
  · rw [hentries]
    exact h.origin

/-- Once the listed nodes are expanded, every node no further than the head of the queue
is entered. -/
theorem Invariant.entered {depth : Nat} {listed rest : List (α × Nat)} {p : α × Nat}
    {visited : List α}
    (h : Invariant next x maxDepth depth listed { queue := p :: rest, visited := visited })
    (hexpanded : forall q, q ∈ listed -> Expanded next (listed ++ p :: rest) q) {n : Nat} {y : α}
    (hy : Reaches next x n y) (hn : n <= p.2) :
    exists d, d <= n ∧ (y, d) ∈ listed ++ p :: rest := by
  induction hy with
  | refl => exact ⟨0, Nat.le_refl 0, h.origin⟩
  | @step n y z _ hz ih =>
      rcases ih (Nat.le_of_succ_le hn) with ⟨d, hd, hmem⟩
      have hlisted : (y, d) ∈ listed := by
        cases List.mem_append.mp hmem with
        | inl hold => exact hold
        | inr hqueue =>
            have hbeyond : p.2 <= d := by
              cases List.mem_cons.mp hqueue with
              | inl heq => exact Nat.le_of_eq (congrArg Prod.snd heq).symm
              | inr hrest => exact (List.pairwise_cons.mp h.sorted).1 _ hrest
            omega
      rcases hexpanded _ hlisted z hz with ⟨e, he, hentered⟩
      exact ⟨e, Nat.le_trans he (Nat.succ_le_succ hd), hentered⟩

theorem queue_subset_visit [DecidableEq α] (depth : Nat) (s : State α) (y : α) :
    s.queue ⊆ (visit depth s y).queue := by
  unfold visit
  split
  · exact List.Subset.refl _
  · exact List.subset_append_left _ _

/-- Visiting a successor of a listed node keeps the invariant and enters the successor. -/
theorem Invariant.visit [DecidableEq α] {depth : Nat} {listed : List (α × Nat)} {s : State α}
    {y z : α} (h : Invariant next x maxDepth depth listed s) (hy : Reaches next x depth y)
    (hdepth : depth < maxDepth) (hz : z ∈ next y) :
    Invariant next x maxDepth depth listed (visit depth s z) ∧
      exists d, d <= depth + 1 ∧ (z, d) ∈ listed ++ (visit depth s z).queue := by
  unfold Bfs.visit
  split
  · rename_i hseen
    rw [h.visited_eq] at hseen
    rcases List.mem_map.mp hseen with ⟨p, hp, heq⟩
    subst heq
    exact ⟨h, p.2, h.upper p hp, hp⟩
  · rename_i hnew
    have hassoc : listed ++ (s.queue ++ [(z, depth + 1)]) =
        listed ++ s.queue ++ [(z, depth + 1)] := (List.append_assoc _ _ _).symm
    refine ⟨⟨?_, ?_, ?_, ?_, ?_, ?_, ?_⟩, depth + 1, Nat.le_refl _, ?_⟩
    · rw [hassoc, List.map_append, ← h.visited_eq]
      rfl
    · have hconcat := h.nodup.concat hnew
      rw [List.concat_eq_append] at hconcat
      exact hconcat
    · rw [hassoc]
      intro p hp
      cases List.mem_append.mp hp with
      | inl hold => exact h.reached p hold
      | inr hlast =>
          rw [List.mem_singleton.mp hlast]
          exact ⟨Reaches.step hy hz, hdepth⟩
    · refine List.pairwise_append.mpr ⟨h.sorted, List.pairwise_singleton _ _, ?_⟩
      intro p hp q hq
      rw [List.mem_singleton.mp hq]
      exact h.upper p (List.mem_append_right listed hp)
    · intro p hp
      cases List.mem_append.mp hp with
      | inl hold => exact h.lower p hold
      | inr hlast =>
          rw [List.mem_singleton.mp hlast]
          exact Nat.le_succ depth
    · rw [hassoc]
      intro p hp
      cases List.mem_append.mp hp with
      | inl hold => exact h.upper p hold
      | inr hlast => exact Nat.le_of_eq (congrArg Prod.snd (List.mem_singleton.mp hlast))
    · rw [hassoc]
      exact List.mem_append_left _ h.origin
    · rw [hassoc]
      exact List.mem_append_right _ (List.mem_singleton_self _)

theorem queue_subset_visitAll [DecidableEq α] (depth : Nat) (ys : List α) (s : State α) :
    s.queue ⊆ (ys.foldl (Bfs.visit depth) s).queue := by
  induction ys generalizing s with
  | nil => exact List.Subset.refl _
  | cons y ys ih =>
      exact List.Subset.trans (queue_subset_visit depth s y) (ih (Bfs.visit depth s y))

theorem Invariant.visitAll [DecidableEq α] {depth : Nat} {listed : List (α × Nat)} {y : α}
    (hy : Reaches next x depth y) (hdepth : depth < maxDepth) (zs : List α)
    (hzs : zs ⊆ next y) {s : State α} (h : Invariant next x maxDepth depth listed s) :
    Invariant next x maxDepth depth listed (zs.foldl (Bfs.visit depth) s) ∧
      forall z, z ∈ zs -> exists d, d <= depth + 1 ∧
        (z, d) ∈ listed ++ (zs.foldl (Bfs.visit depth) s).queue := by
  induction zs generalizing s with
  | nil => exact ⟨h, fun z hz => absurd hz List.not_mem_nil⟩
  | cons z zs ih =>
      have hvisit := h.visit hy hdepth (hzs List.mem_cons_self)
      have hrest := ih (fun u hu => hzs (List.mem_cons_of_mem z hu)) hvisit.1
      refine ⟨hrest.1, ?_⟩
      intro u hu
      cases List.mem_cons.mp hu with
      | inl heq =>
          rcases hvisit.2 with ⟨d, hd, hmem⟩
          subst heq
          refine ⟨d, hd, ?_⟩
          cases List.mem_append.mp hmem with
          | inl hlisted => exact List.mem_append_left _ hlisted
          | inr hqueue =>
              exact List.mem_append_right listed (queue_subset_visitAll depth zs _ hqueue)
      | inr hmem => exact hrest.2 u hmem

end Invariant

/-!
## What the search lists
-/

section Search

variable {next : α -> List α} {x : α} {maxDepth : Nat}

/-- A list of nodes that a search may return: each once, each reached, and closed under
successors below the last depth. -/
structure Complete (next : α -> List α) (x : α) (maxDepth : Nat) (out : List (α × Nat)) :
    Prop where
  nodup : (out.map Prod.fst).Nodup
  reached : forall p, p ∈ out -> Reaches next x p.2 p.1 ∧ p.2 <= maxDepth
  origin : (x, 0) ∈ out
  expanded : forall p, p ∈ out -> p.2 < maxDepth -> Expanded next out p

theorem Complete.depth_le {out : List (α × Nat)} (h : Complete next x maxDepth out) {n : Nat}
    {y : α} (hy : Reaches next x n y) (hn : n <= maxDepth) :
    exists d, d <= n ∧ (y, d) ∈ out := by
  induction hy with
  | refl => exact ⟨0, Nat.le_refl 0, h.origin⟩
  | step _ hz ih =>
      rcases ih (Nat.le_of_succ_le hn) with ⟨d, hd, hmem⟩
      rcases h.expanded _ hmem (Nat.lt_of_le_of_lt hd hn) _ hz with ⟨e, he, hmem'⟩
      exact ⟨e, Nat.le_trans he (Nat.succ_le_succ hd), hmem'⟩

theorem Complete.mem_iff {out : List (α × Nat)} (h : Complete next x maxDepth out) {y : α} :
    y ∈ out.map Prod.fst <-> exists n, n <= maxDepth ∧ Reaches next x n y := by
  constructor
  · intro hy
    rcases List.mem_map.mp hy with ⟨p, hp, heq⟩
    subst heq
    exact ⟨p.2, (h.reached p hp).2, (h.reached p hp).1⟩
  · intro hy
    rcases hy with ⟨n, hn, hreach⟩
    rcases h.depth_le hreach hn with ⟨d, _, hmem⟩
    exact List.mem_map_of_mem hmem

theorem Invariant.complete {depth : Nat} {listed : List (α × Nat)} {visited : List α}
    (h : Invariant next x maxDepth depth listed { queue := [], visited := visited })
    (hexpanded : forall p, p ∈ listed -> p.2 < maxDepth -> Expanded next (listed ++ []) p) :
    Complete next x maxDepth listed := by
  have hentries : listed ++ [] = listed := List.append_nil listed
  rw [hentries] at hexpanded
  refine ⟨?_, ?_, ?_, hexpanded⟩
  · have hvisited := h.visited_eq
    rw [hentries] at hvisited
    rw [← hvisited]
    exact h.nodup
  · have hreached := h.reached
    rw [hentries] at hreached
    exact hreached
  · have horigin := h.origin
    rw [hentries] at horigin
    exact horigin

/-- Every node enters the queue once, so the queue is no longer than the nodes in reach
that are not listed. -/
theorem Invariant.length_le {nodes : List α}
    (hnodes : forall n y, Reaches next x n y -> y ∈ nodes)
    {depth : Nat} {listed : List (α × Nat)} {s : State α}
    (h : Invariant next x maxDepth depth listed s) :
    listed.length + s.queue.length <= nodes.length := by
  have hsub : s.visited ⊆ nodes := by
    intro y hy
    rw [h.visited_eq] at hy
    rcases List.mem_map.mp hy with ⟨p, hp, heq⟩
    subst heq
    exact hnodes p.2 p.1 (h.reached p hp).1
  have hlength := (List.subperm_of_subset h.nodup hsub).length_le
  rw [h.visited_eq, List.length_map, List.length_append] at hlength
  exact hlength

/-- Once the head of the queue is listed and its successors are visited, or are too deep
to be, every listed node is expanded. -/
theorem expanded_pop {listed rest : List (α × Nat)} {p : α × Nat} {entries : List (α × Nat)}
    (hsub : listed ++ p :: rest ⊆ entries)
    (hexpanded : forall q, q ∈ listed -> q.2 < maxDepth ->
      Expanded next (listed ++ p :: rest) q)
    (hp : p.2 < maxDepth -> Expanded next entries p) :
    forall q, q ∈ listed ++ [p] -> q.2 < maxDepth -> Expanded next entries q := by
  intro q hq hless
  cases List.mem_append.mp hq with
  | inl hold => exact (hexpanded q hold hless).mono hsub
  | inr hself =>
      rw [List.mem_singleton.mp hself] at hless ⊢
      exact hp hless

theorem loop_complete [DecidableEq α] {nodes : List α}
    (hnodes : forall n y, Reaches next x n y -> y ∈ nodes)
    (fuel : Nat) {depth : Nat} {listed : List (α × Nat)} {s : State α}
    (hfuel : nodes.length <= listed.length + fuel)
    (h : Invariant next x maxDepth depth listed s)
    (hexpanded : forall p, p ∈ listed -> p.2 < maxDepth -> Expanded next (listed ++ s.queue) p) :
    Complete next x maxDepth (listed ++ loop next maxDepth fuel s) := by
  induction fuel generalizing depth listed s with
  | zero =>
      rcases s with ⟨queue, visited⟩
      have hlength := h.length_le hnodes
      have hempty : queue = [] := List.length_eq_zero_iff.mp (by simp at hlength; omega)
      subst hempty
      show Complete next x maxDepth (listed ++ [])
      rw [List.append_nil]
      exact h.complete hexpanded
  | succ fuel ih =>
      rcases s with ⟨queue, visited⟩
      cases queue with
      | nil =>
          show Complete next x maxDepth (listed ++ [])
          rw [List.append_nil]
          exact h.complete hexpanded
      | cons p rest =>
          have hp := h.reached p (List.mem_append_right listed List.mem_cons_self)
          have hcount : nodes.length <= (listed ++ [p]).length + fuel := by
            rw [List.length_append, List.length_singleton]
            omega
          have hlist : forall out, listed ++ p :: out = listed ++ [p] ++ out := by simp
          simp only [loop]
          split
          · rename_i hlast
            rw [hlist]
            refine ih hcount h.pop (expanded_pop ?_ hexpanded ?_)
            · rw [hlist]
              exact List.Subset.refl _
            · intro hless
              exact absurd hlast (Nat.not_le_of_lt hless)
          · rename_i hmore
            rw [hlist]
            have hvisit := h.pop.visitAll hp.1 (Nat.lt_of_not_le hmore) (next p.1)
              (List.Subset.refl _)
            refine ih hcount hvisit.1 (expanded_pop ?_ hexpanded ?_)
            · rw [hlist]
              intro q hq
              cases List.mem_append.mp hq with
              | inl hlisted => exact List.mem_append_left _ hlisted
              | inr hqueue =>
                  exact List.mem_append_right _ (queue_subset_visitAll p.2 (next p.1) _ hqueue)
            · intro _
              exact hvisit.2

/-- A search with one round for each node in reach is complete. -/
theorem search_complete [DecidableEq α] {nodes : List α}
    (hnodes : forall n y, Reaches next x n y -> y ∈ nodes)
    {fuel : Nat} (hfuel : nodes.length <= fuel) :
    Complete next x maxDepth (loop next maxDepth fuel (start x)) := by
  have hnone : forall p : α × Nat, p ∈ ([] : List (α × Nat)) -> p.2 < maxDepth ->
      Expanded next ([] ++ (start x).queue) p := fun p hp => absurd hp List.not_mem_nil
  exact loop_complete hnodes fuel (by simpa using hfuel) Invariant.start hnone

/-!
## Distances
-/

/-- The nodes up to a distance, each once, with their distances, nearest first. -/
structure ByDistance (walk : Nat -> α -> Prop) (maxDepth : Nat) (out : List (α × Nat)) :
    Prop where
  nodup : (out.map Prod.fst).Nodup
  mem_iff : forall y d, (y, d) ∈ out <-> Shortest walk d y ∧ d <= maxDepth
  sorted : out.Pairwise (fun p q => p.2 <= q.2)

theorem eq_of_nodup_fst {out : List (α × Nat)} (h : (out.map Prod.fst).Nodup) {y : α}
    {d e : Nat} (hd : (y, d) ∈ out) (he : (y, e) ∈ out) : d = e :=
  congrArg Prod.snd (List.inj_on_of_nodup_map h hd he rfl)

/-- What a complete search lists with a node is its distance. -/
theorem Complete.mem_iff_shortest {out : List (α × Nat)} (h : Complete next x maxDepth out)
    (y : α) (d : Nat) : (y, d) ∈ out <-> Shortest (Reaches next x) d y ∧ d <= maxDepth := by
  constructor
  · intro hmem
    have hreached := h.reached _ hmem
    refine ⟨⟨hreached.1, ?_⟩, hreached.2⟩
    intro m hm
    cases Nat.le_total m maxDepth with
    | inl hle =>
        rcases h.depth_le hm hle with ⟨e, he, hmem'⟩
        rw [eq_of_nodup_fst h.nodup hmem hmem']
        exact he
    | inr hge => exact Nat.le_trans hreached.2 hge
  · intro hy
    rcases h.depth_le hy.1.1 hy.2 with ⟨e, he, hmem⟩
    have hge := hy.1.2 e (h.reached _ hmem).1
    rw [Nat.le_antisymm hge he]
    exact hmem

/-- Depths never decrease along the list: what is left lies beyond the head. -/
theorem loop_sorted [DecidableEq α] (fuel : Nat) {depth : Nat} {listed : List (α × Nat)}
    {s : State α} (h : Invariant next x maxDepth depth listed s) :
    (loop next maxDepth fuel s).Pairwise (fun p q => p.2 <= q.2) ∧
      forall p, p ∈ loop next maxDepth fuel s -> depth <= p.2 := by
  induction fuel generalizing depth listed s with
  | zero => exact ⟨List.Pairwise.nil, fun p hp => absurd hp List.not_mem_nil⟩
  | succ fuel ih =>
      rcases s with ⟨queue, visited⟩
      cases queue with
      | nil => exact ⟨List.Pairwise.nil, fun p hp => absurd hp List.not_mem_nil⟩
      | cons p rest =>
          have hp := h.reached p (List.mem_append_right listed List.mem_cons_self)
          have hhead : depth <= p.2 := h.lower p List.mem_cons_self
          have hcons : forall out : List (α × Nat),
              out.Pairwise (fun p q => p.2 <= q.2) ∧ (forall q, q ∈ out -> p.2 <= q.2) ->
              (p :: out).Pairwise (fun p q => p.2 <= q.2) ∧
                forall q, q ∈ p :: out -> depth <= q.2 := by
            intro out hout
            refine ⟨List.pairwise_cons.mpr ⟨hout.2, hout.1⟩, ?_⟩
            intro q hq
            cases List.mem_cons.mp hq with
            | inl heq => exact heq ▸ hhead
            | inr hmem => exact Nat.le_trans hhead (hout.2 q hmem)
          simp only [loop]
          split
          · exact hcons _ (ih h.pop)
          · rename_i hmore
            have hvisit := h.pop.visitAll hp.1 (Nat.lt_of_not_le hmore) (next p.1)
              (List.Subset.refl _)
            exact hcons _ (ih hvisit.1)

/-- A search with one round for each node in reach lists every node up to the depth once,
with its distance, nearest first. -/
theorem search_byDistance [DecidableEq α] {nodes : List α}
    (hnodes : forall n y, Reaches next x n y -> y ∈ nodes)
    {fuel : Nat} (hfuel : nodes.length <= fuel) :
    ByDistance (Reaches next x) maxDepth (loop next maxDepth fuel (start x)) where
  nodup := (search_complete hnodes hfuel).nodup
  mem_iff := (search_complete hnodes hfuel).mem_iff_shortest
  sorted := (loop_sorted fuel Invariant.start).1

end Search

/-- Of a list sorted by depth, what is below a depth comes before what is at it. -/
theorem filter_lt_succ {depth : α -> Nat} {xs : List α}
    (h : xs.Pairwise (fun x y => depth x <= depth y)) (n : Nat) :
    xs.filter (fun x => decide (depth x < n + 1)) =
      xs.filter (fun x => decide (depth x < n)) ++ xs.filter (fun x => decide (depth x = n)) := by
  induction xs with
  | nil => rfl
  | cons x rest ih =>
      have hrest := ih (List.pairwise_cons.mp h).2
      have hle := (List.pairwise_cons.mp h).1
      rcases Nat.lt_trichotomy (depth x) n with hless | hsame | hmore
      · simp only [List.filter_cons, hrest, hless, Nat.lt_succ_of_lt hless, Nat.ne_of_lt hless,
          decide_true, decide_false, if_true, Bool.false_eq_true, if_false, List.cons_append]
      · have hnone : rest.filter (fun y => decide (depth y < n)) = [] := by
          rw [List.filter_eq_nil_iff]
          intro y hy
          have hxy := hle y hy
          simp only [decide_eq_true_eq]
          omega
        rw [hnone, List.nil_append] at hrest
        simp only [List.filter_cons, hrest, hnone, hsame, Nat.lt_succ_self, Nat.lt_irrefl,
          decide_true, decide_false, if_true, Bool.false_eq_true, if_false, List.nil_append]
      · have hlast : Not (depth x < n + 1) := by omega
        have hbelow : Not (depth x < n) := by omega
        have hother : Not (depth x = n) := by omega
        simp only [List.filter_cons, hrest, hlast, hbelow, hother, decide_false,
          Bool.false_eq_true, if_false]

/-!
## Level by level, without marks

A recursive query expands every row it has produced, the same node as often as it is
met, and ends because rows from a depth on are not expanded.
-/

section Levels

variable {next : α -> List α} {expands : Nat -> Bool} {roots : List α}

/-- The rows a row gives rise to. -/
def expand (next : α -> List α) (expands : Nat -> Bool) (row : α × Nat) : List (α × Nat) :=
  if expands row.2 then (next row.1).map (fun y => (y, row.2 + 1)) else []

def level (next : α -> List α) (expands : Nat -> Bool) (roots : List α) : Nat -> List (α × Nat)
  | 0 => roots.map (fun x => (x, 0))
  | n + 1 => (level next expands roots n).flatMap (expand next expands)

/-- The rows of the first levels. -/
def levels (next : α -> List α) (expands : Nat -> Bool) (roots : List α) : Nat -> List (α × Nat)
  | 0 => []
  | n + 1 => levels next expands roots n ++ level next expands roots n

theorem mem_levels {n : Nat} {row : α × Nat} :
    row ∈ levels next expands roots n <->
      exists k, k < n ∧ row ∈ level next expands roots k := by
  induction n with
  | zero =>
      constructor
      · intro h
        cases h
      · rintro ⟨k, hk, _⟩
        exact absurd hk (Nat.not_lt_zero k)
  | succ n ih =>
      rw [levels, List.mem_append, ih]
      constructor
      · rintro (⟨k, hk, hrow⟩ | hrow)
        · exact ⟨k, Nat.lt_succ_of_lt hk, hrow⟩
        · exact ⟨n, Nat.lt_succ_self n, hrow⟩
      · rintro ⟨k, hk, hrow⟩
        rcases Nat.lt_succ_iff_lt_or_eq.mp hk with hlt | heq
        · exact Or.inl ⟨k, hlt, hrow⟩
        · exact Or.inr (heq ▸ hrow)

/-- A level holds the ends of the walks of its length, as long as every depth before it is
expanded. -/
theorem mem_level {n : Nat} {y : α} {d : Nat} :
    (y, d) ∈ level next expands roots n <->
      d = n ∧ (forall k, k < n -> expands k = true) ∧
        exists x, x ∈ roots ∧ Reaches next x n y := by
  induction n generalizing y d with
  | zero =>
      rw [level, List.mem_map]
      constructor
      · rintro ⟨x, hx, heq⟩
        cases heq
        exact ⟨rfl, fun k hk => absurd hk (Nat.not_lt_zero k), y, hx, Reaches.refl⟩
      · rintro ⟨hd, _, x, hx, hreach⟩
        cases hreach
        rw [hd]
        exact ⟨y, hx, rfl⟩
  | succ n ih =>
      rw [level, List.mem_flatMap]
      constructor
      · rintro ⟨⟨z, e⟩, hz, hy⟩
        rcases ih.mp hz with ⟨he, hbefore, x, hx, hreach⟩
        unfold expand at hy
        split at hy
        · rename_i hexpands
          rcases List.mem_map.mp hy with ⟨y', hy', heq⟩
          cases heq
          refine ⟨by rw [← he], ?_, x, hx, Reaches.step hreach hy'⟩
          intro k hk
          rcases Nat.lt_succ_iff_lt_or_eq.mp hk with hlt | hkn
          · exact hbefore k hlt
          · rw [hkn, ← he]
            exact hexpands
        · cases hy
      · rintro ⟨hd, hexpands, x, hx, hreach⟩
        cases hreach with
        | @step _ z _ hreach hy =>
            refine ⟨(z, n), ih.mpr ⟨rfl, ?_, x, hx, hreach⟩, ?_⟩
            · exact fun k hk => hexpands k (Nat.lt_succ_of_lt hk)
            · unfold expand
              rw [if_pos (hexpands n (Nat.lt_succ_self n)), hd]
              exact List.mem_map.mpr ⟨y, hy, rfl⟩

/-- The levels up to the bound hold the nodes in reach of a root. -/
theorem mem_map_levels {maxDepth : Nat}
    (hbelow : forall k, k < maxDepth -> expands k = true) {y : α} :
    y ∈ (levels next expands roots (maxDepth + 1)).map Prod.fst <->
      exists x, x ∈ roots ∧ exists n, n <= maxDepth ∧ Reaches next x n y := by
  rw [List.mem_map]
  constructor
  · rintro ⟨⟨z, d⟩, hrow, heq⟩
    cases heq
    rcases mem_levels.mp hrow with ⟨k, hk, hlevel⟩
    rcases mem_level.mp hlevel with ⟨_, _, x, hx, hreach⟩
    exact ⟨x, hx, k, Nat.le_of_lt_succ hk, hreach⟩
  · rintro ⟨x, hx, n, hn, hreach⟩
    have hexpands : forall k, k < n -> expands k = true :=
      fun k hk => hbelow k (Nat.lt_of_lt_of_le hk hn)
    have hlevel : (y, n) ∈ level next expands roots n :=
      mem_level.mpr ⟨rfl, hexpands, x, hx, hreach⟩
    exact ⟨(y, n), mem_levels.mpr ⟨n, Nat.lt_succ_of_le hn, hlevel⟩, rfl⟩

end Levels
end Bfs
end Foundation
