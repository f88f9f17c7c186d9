import MenteDb.Foundation.Assoc
import MenteDb.Foundation.Bfs
import Mathlib.Data.List.Chain

/-!
# Shortest paths

A breadth-first search that remembers from where each node was discovered, stops at
the target and climbs back.  Beside its state runs the search of {lit}`Bfs`, whose
queue also has the depths: every node but the source was discovered from a listed
node one step nearer, so the climb ends, and it ends in the source.
-/

namespace Foundation
namespace ShortestPath

variable {α : Type} [DecidableEq α]

structure State (α : Type) where
  queue : List α
  visited : List α
  parent : Assoc α α

/-- What one round over the successors of a node ends in. -/
inductive Outcome (α : Type) where
  | searching (s : State α)
  | found (parent : Assoc α α)

def discover (target x : α) : List α -> State α -> Outcome α
  | [], s => Outcome.searching s
  | y :: ys, s =>
      if y ∈ s.visited then discover target x ys s
      else if y = target then Outcome.found (s.parent.insert y x)
      else
        discover target x ys
          { queue := s.queue ++ [y]
            visited := s.visited ++ [y]
            parent := s.parent.insert y x }

/-- The climb from a node to the source; nothing when it does not end in the rounds. -/
def climb (parent : Assoc α α) (source : α) : Nat -> α -> List α -> Option (List α)
  | 0, _, _ => none
  | rounds + 1, current, path =>
      match parent.find? current with
      | none => some path
      | some previous =>
          if previous = source then some (path ++ [previous])
          else climb parent source rounds previous (path ++ [previous])

/-- The queue loop; nothing when it does not end in the rounds. -/
def search (next : α -> List α) (source target : α) (limit : Nat) :
    Nat -> State α -> Option (Option (List α))
  | 0, _ => none
  | rounds + 1, s =>
      match s.queue with
      | [] => some none
      | x :: rest =>
          match discover target x (next x) { s with queue := rest } with
          | Outcome.searching s' => search next source target limit rounds s'
          | Outcome.found parent =>
              (climb parent source limit target [target]).map (fun path => some path.reverse)

def start (source : α) : State α where
  queue := [source]
  visited := [source]
  parent := Assoc.empty

/-!
## More rounds do not change an answer
-/

theorem climb_mono {parent : Assoc α α} {source : α} {rounds more : Nat} (hle : rounds <= more)
    {current : α} {path result : List α}
    (h : climb parent source rounds current path = some result) :
    climb parent source more current path = some result := by
  induction rounds generalizing more current path with
  | zero => cases h
  | succ rounds ih =>
      cases more with
      | zero => cases hle
      | succ more =>
          simp only [climb] at h ⊢
          split at h
          · exact h
          · split at h
            · rename_i hsource
              rw [if_pos hsource]
              exact h
            · rename_i hother
              rw [if_neg hother]
              exact ih (Nat.le_of_succ_le_succ hle) h

theorem search_mono {next : α -> List α} {source target : α} {limit wider rounds more : Nat}
    (hlimit : limit <= wider) (hle : rounds <= more) {s : State α} {answer : Option (List α)}
    (h : search next source target limit rounds s = some answer) :
    search next source target wider more s = some answer := by
  induction rounds generalizing more s with
  | zero => cases h
  | succ rounds ih =>
      cases more with
      | zero => cases hle
      | succ more =>
          simp only [search] at h ⊢
          split at h
          · exact h
          · split at h
            · exact ih (Nat.le_of_succ_le_succ hle) h
            · rcases Option.map_eq_some_iff.mp h with ⟨path, hclimb, hpath⟩
              rw [climb_mono hlimit hclimb, ← hpath]
              rfl

/-!
## Climbing
-/

section Climb

variable {next : α -> List α} {source : α}

/-- Every entry but the source was discovered from an entry one step nearer. -/
structure Labelled (next : α -> List α) (source : α) (parent : Assoc α α)
    (entries : List (α × Nat)) : Prop where
  nodup : (entries.map Prod.fst).Nodup
  origin : (source, 0) ∈ entries
  parents : forall p, p ∈ entries -> p.1 ≠ source ->
    exists u, u ∈ entries ∧ parent.find? p.1 = some u.1 ∧ p.2 = u.2 + 1 ∧ p.1 ∈ next u.1

/-- A list of entries from a node up to the source. -/
inductive Climbs (next : α -> List α) (source : α) (parent : Assoc α α) :
    List (α × Nat) -> Prop where
  | source : Climbs next source parent [(source, 0)]
  | step {p u : α × Nat} {rest : List (α × Nat)} : p.1 ≠ source ->
      parent.find? p.1 = some u.1 -> p.2 = u.2 + 1 -> p.1 ∈ next u.1 ->
      Climbs next source parent (u :: rest) -> Climbs next source parent (p :: u :: rest)

variable {parent : Assoc α α} {entries : List (α × Nat)}

theorem Labelled.exists_climbs (h : Labelled next source parent entries) (d : Nat) :
    forall p, p ∈ entries -> p.2 = d ->
      exists rest, Climbs next source parent (p :: rest) ∧ rest ⊆ entries := by
  induction d with
  | zero =>
      intro p hp hlabel
      by_cases hsource : p.1 = source
      · have hpair : p = (source, 0) := Prod.ext hsource hlabel
        rw [hpair]
        exact ⟨[], Climbs.source, List.nil_subset _⟩
      · rcases h.parents p hp hsource with ⟨u, _, _, hstep, _⟩
        omega
  | succ d ih =>
      intro p hp hlabel
      by_cases hsource : p.1 = source
      · have hzero : (p.1, 0) ∈ entries := hsource.symm ▸ h.origin
        have hlabels := Bfs.eq_of_nodup_fst h.nodup (d := p.2) hp hzero
        omega
      · rcases h.parents p hp hsource with ⟨u, hu, hfind, hstep, hnext⟩
        rcases ih u hu (by omega) with ⟨rest, hrest, hsub⟩
        exact ⟨u :: rest, Climbs.step hsource hfind hstep hnext hrest,
          List.cons_subset.mpr ⟨hu, hsub⟩⟩

theorem Climbs.length_eq {p : α × Nat} {rest : List (α × Nat)}
    (h : Climbs next source parent (p :: rest)) : rest.length = p.2 := by
  generalize hlist : p :: rest = entries at h
  induction h generalizing p rest with
  | source =>
      cases hlist
      rfl
  | step _ _ hstep _ _ ih =>
      cases hlist
      rw [List.length_cons, ih rfl, hstep]

/-- Labels fall along a climb, so no entry occurs twice. -/
theorem Climbs.pairwise {climbed : List (α × Nat)} (h : Climbs next source parent climbed) :
    climbed.Pairwise (fun p q => q.2 < p.2) := by
  induction h with
  | source => exact List.pairwise_singleton _ _
  | @step p u rest _ _ hstep _ _ ih =>
      refine List.pairwise_cons.mpr ⟨?_, ih⟩
      intro q hq
      cases List.mem_cons.mp hq with
      | inl heq =>
          rw [heq]
          omega
      | inr hmem =>
          have hless := (List.pairwise_cons.mp ih).1 q hmem
          omega

theorem Climbs.nodup {climbed : List (α × Nat)} (h : Climbs next source parent climbed)
    (hnodup : (entries.map Prod.fst).Nodup) (hsub : climbed ⊆ entries) :
    (climbed.map Prod.fst).Nodup := by
  refine List.Nodup.map_on ?_ (h.pairwise.imp ?_)
  · intro p hp q hq heq
    exact List.inj_on_of_nodup_map hnodup (hsub hp) (hsub hq) heq
  · intro p q hless heq
    rw [heq] at hless
    exact Nat.lt_irrefl _ hless

theorem Climbs.isChain {climbed : List (α × Nat)} (h : Climbs next source parent climbed) :
    (climbed.map Prod.fst).IsChain (fun y x => y ∈ next x) := by
  induction h with
  | source => exact List.isChain_singleton _
  | step _ _ _ hnext _ ih => exact List.isChain_cons_cons.mpr ⟨hnext, ih⟩

theorem Climbs.getLast? {climbed : List (α × Nat)} (h : Climbs next source parent climbed) :
    (climbed.map Prod.fst).getLast? = some source := by
  induction h with
  | source => rfl
  | step _ _ _ _ _ ih =>
      rw [List.map_cons, List.map_cons, List.getLast?_cons_cons]
      exact ih

/-- The loop follows the climb and ends with it. -/
theorem climb_eq {p u : α × Nat} {rest : List (α × Nat)}
    (h : Climbs next source parent (p :: u :: rest)) {rounds : Nat}
    (hrounds : rest.length < rounds) (path : List α) :
    climb parent source rounds p.1 path = some (path ++ (u :: rest).map Prod.fst) := by
  induction rest generalizing p u rounds path with
  | nil =>
      cases h with
      | step _ hfind _ _ hrest =>
          cases rounds with
          | zero => cases hrounds
          | succ rounds =>
              cases hrest with
              | source => simp [climb, hfind]
  | cons v rest ih =>
      cases h with
      | step _ hfind _ _ hrest =>
          cases rounds with
          | zero => cases hrounds
          | succ rounds =>
              have hmore := ih hrest (Nat.lt_of_succ_lt_succ hrounds) (path ++ [u.1])
              cases hrest with
              | step hother _ _ _ _ =>
                  simp only [climb, hfind, if_neg hother]
                  rw [hmore]
                  simp

end Climb

/-!
## Discovering
-/

section Discover

variable {next : α -> List α} {source target : α}

/-- The state of the search beside the one that counts depths. -/
structure Follows (next : α -> List α) (source : α) (listed : List (α × Nat))
    (counted : Bfs.State α) (s : State α) : Prop where
  queue_eq : s.queue = counted.queue.map Prod.fst
  visited_eq : s.visited = counted.visited
  parents : forall p, p ∈ listed ++ counted.queue -> p.1 ≠ source ->
    exists u, u ∈ listed ∧ s.parent.find? p.1 = some u.1 ∧ p.2 = u.2 + 1 ∧ p.1 ∈ next u.1

variable {listed : List (α × Nat)} {counted : Bfs.State α} {s : State α} {maxDepth depth : Nat}

theorem Follows.start : Follows next source [] (Bfs.start source) (start source) where
  queue_eq := rfl
  visited_eq := rfl
  parents := by
    intro p hp hother
    rw [List.mem_singleton.mp hp] at hother
    exact absurd rfl hother

theorem Follows.pop {p : α × Nat} {rest : List (α × Nat)} {visited : List α}
    (h : Follows next source listed { queue := p :: rest, visited := visited } s) :
    Follows next source (listed ++ [p]) { queue := rest, visited := visited }
      { s with queue := rest.map Prod.fst } where
  queue_eq := rfl
  visited_eq := h.visited_eq
  parents := by
    intro q hq hother
    rw [List.append_assoc] at hq
    rcases h.parents q hq hother with ⟨u, hu, hrest⟩
    exact ⟨u, List.mem_append_left _ hu, hrest⟩

/-- A new node is entered one step beyond the node it is discovered from. -/
theorem Follows.visit (h : Follows next source listed counted s)
    (hcounted : Bfs.Invariant next source maxDepth depth listed counted) {x y : α}
    (hx : (x, depth) ∈ listed) (hy : y ∈ next x) (hnew : y ∉ s.visited) :
    Follows next source listed (Bfs.visit depth counted y)
      { queue := s.queue ++ [y]
        visited := s.visited ++ [y]
        parent := s.parent.insert y x } := by
  have hnew' : y ∉ counted.visited := h.visited_eq ▸ hnew
  unfold Bfs.visit
  rw [if_neg hnew']
  refine ⟨?_, ?_, ?_⟩
  · rw [h.queue_eq, List.map_append]
    rfl
  · rw [h.visited_eq]
  · intro p hp hother
    rw [← List.append_assoc] at hp
    cases List.mem_append.mp hp with
    | inl hold =>
        rcases h.parents p hold hother with ⟨u, hu, hfind, hrest⟩
        have hne : p.1 ≠ y := by
          intro heq
          apply hnew'
          rw [hcounted.visited_eq, ← heq]
          exact List.mem_map_of_mem hold
        refine ⟨u, hu, ?_, hrest⟩
        rw [Assoc.find?_insert, if_neg hne]
        exact hfind
    | inr hlast =>
        rw [List.mem_singleton.mp hlast]
        exact ⟨(x, depth), hx, by rw [Assoc.find?_insert, if_pos rfl], rfl, hy⟩

/-- A round over the successors of a listed node either follows the counted search and
has not seen the target, or stops with the target entered. -/
theorem discover_cases {x : α} (hx : (x, depth) ∈ listed) (hreach : Bfs.Reaches next source depth x)
    (hdepth : depth < maxDepth) (ys : List α) (hys : ys ⊆ next x)
    (h : Follows next source listed counted s)
    (hcounted : Bfs.Invariant next source maxDepth depth listed counted)
    (hunseen : target ∉ s.visited) :
    (exists s', discover target x ys s = Outcome.searching s' ∧
      Follows next source listed (ys.foldl (Bfs.visit depth) counted) s' ∧
      target ∉ s'.visited) ∨
    exists counted' s', discover target x ys s = Outcome.found s'.parent ∧
      Follows next source listed counted' s' ∧
      Bfs.Invariant next source maxDepth depth listed counted' ∧
      (target, depth + 1) ∈ counted'.queue := by
  induction ys generalizing counted s with
  | nil => exact Or.inl ⟨s, rfl, h, hunseen⟩
  | cons y ys ih =>
      have hy : y ∈ next x := hys List.mem_cons_self
      have hrest : ys ⊆ next x := fun z hz => hys (List.mem_cons_of_mem y hz)
      have hstep := (hcounted.visit hreach hdepth hy).1
      by_cases hseen : y ∈ s.visited
      · have hsame : Bfs.visit depth counted y = counted := by
          unfold Bfs.visit
          rw [if_pos (h.visited_eq ▸ hseen)]
        simp only [discover, if_pos hseen, List.foldl_cons, hsame]
        exact ih hrest h hcounted hunseen
      · have hvisit := h.visit hcounted hx hy hseen
        by_cases htarget : y = target
        · simp only [discover, if_neg hseen, if_pos htarget]
          refine Or.inr ⟨_, _, rfl, hvisit, hstep, ?_⟩
          unfold Bfs.visit
          rw [if_neg (h.visited_eq ▸ hseen), htarget]
          exact List.mem_append_right _ (List.mem_singleton_self _)
        · simp only [discover, if_neg hseen, if_neg htarget, List.foldl_cons]
          refine ih hrest hvisit hstep ?_
          intro hmem
          cases List.mem_append.mp hmem with
          | inl hold => exact hunseen hold
          | inr hlast => exact htarget (List.mem_singleton.mp hlast).symm

end Discover

/-!
## Searching
-/

section Search

variable {next : α -> List α} {source target : α}

/-- A path that repeats no node and that no walk undercuts. -/
structure IsShortest (next : α -> List α) (source target : α) (path : List α) : Prop where
  head : path.head? = some source
  last : path.getLast? = some target
  steps : path.IsChain (fun x y => y ∈ next x)
  nodup : path.Nodup
  shortest : forall n, Bfs.Reaches next source n target -> path.length <= n + 1

/-- An answer that is a shortest path where there is a walk, and only there. -/
structure Answers (next : α -> List α) (source target : α) (answer : Option (List α)) :
    Prop where
  exists_iff : (exists path, answer = some path) <->
    exists n, Bfs.Reaches next source n target
  shortest : forall path, answer = some path -> IsShortest next source target path

variable {listed : List (α × Nat)} {counted : Bfs.State α} {s : State α} {maxDepth depth : Nat}
variable {nodes : List α}

theorem Follows.labelled (h : Follows next source listed counted s)
    (hcounted : Bfs.Invariant next source maxDepth depth listed counted) :
    Labelled next source s.parent (listed ++ counted.queue) where
  nodup := hcounted.visited_eq ▸ hcounted.nodup
  origin := hcounted.origin
  parents := by
    intro p hp hother
    rcases h.parents p hp hother with ⟨u, hu, hrest⟩
    exact ⟨u, List.mem_append_left _ hu, hrest⟩

/-- From an entered target the climb is a path that is as long as its depth. -/
theorem climb_shortest (hnodes : forall n y, Bfs.Reaches next source n y -> y ∈ nodes)
    (h : Follows next source listed counted s)
    (hcounted : Bfs.Invariant next source maxDepth depth listed counted)
    (htarget : (target, depth + 1) ∈ counted.queue)
    (hshortest : forall n, Bfs.Reaches next source n target -> depth + 1 <= n)
    {limit : Nat} (hlimit : nodes.length <= limit) :
    exists path, climb s.parent source limit target [target] = some path ∧
      IsShortest next source target path.reverse := by
  have hlabelled := h.labelled hcounted
  have hmem : (target, depth + 1) ∈ listed ++ counted.queue := List.mem_append_right _ htarget
  rcases hlabelled.exists_climbs (depth + 1) _ hmem rfl with ⟨above, hclimbs, hsub⟩
  have hlength : above.length = depth + 1 := hclimbs.length_eq
  have hentries : (target, depth + 1) :: above ⊆ listed ++ counted.queue :=
    List.cons_subset.mpr ⟨hmem, hsub⟩
  have hnodup := hclimbs.nodup hlabelled.nodup hentries
  cases above with
  | nil => cases hlength
  | cons u rest =>
      have hbound : (((target, depth + 1) :: u :: rest).map Prod.fst).length <= nodes.length := by
        refine (List.subperm_of_subset hnodup ?_).length_le
        intro y hy
        rcases List.mem_map.mp hy with ⟨p, hp, heq⟩
        subst heq
        exact hnodes p.2 p.1 (hcounted.reached p (hentries hp)).1
      simp only [List.length_map, List.length_cons] at hbound hlength
      refine ⟨((target, depth + 1) :: u :: rest).map Prod.fst,
        climb_eq hclimbs (by omega) [target], ?_⟩
      constructor
      · rw [List.head?_reverse]
        exact hclimbs.getLast?
      · rw [List.getLast?_reverse]
        rfl
      · rw [List.isChain_reverse]
        exact hclimbs.isChain
      · exact List.nodup_reverse.mpr hnodup
      · intro n hn
        have hle := hshortest n hn
        simp only [List.length_reverse, List.length_map, List.length_cons]
        omega

omit [DecidableEq α] in
/-- A queue that runs empty without the target has listed all that is in reach. -/
theorem not_reaches_of_empty {visited : List α} (h : s.visited = visited)
    (hcounted : Bfs.Invariant next source maxDepth depth listed
      { queue := [], visited := visited })
    (hexpanded : forall p, p ∈ listed -> Bfs.Expanded next (listed ++ []) p)
    (hunseen : target ∉ s.visited) (n : Nat) : ¬ Bfs.Reaches next source n target := by
  intro hn
  have hwider : Bfs.Invariant next source (max maxDepth n) depth listed
      { queue := [], visited := visited } :=
    { hcounted with
      reached := fun p hp => ⟨(hcounted.reached p hp).1,
        Nat.le_trans (hcounted.reached p hp).2 (Nat.le_max_left _ _)⟩ }
  have hcomplete := hwider.complete (fun p hp _ => hexpanded p hp)
  have hlisted := hcomplete.mem_iff.mpr ⟨n, Nat.le_max_right _ _, hn⟩
  have hvisited : visited = (listed ++ []).map Prod.fst := hcounted.visited_eq
  apply hunseen
  rw [h, hvisited, List.append_nil]
  exact hlisted

/-- What is listed stays expanded when one more node is. -/
theorem expanded_visitAll {p : α × Nat} {rest : List (α × Nat)} {visited : List α}
    (hexpanded : forall q, q ∈ listed -> Bfs.Expanded next (listed ++ p :: rest) q)
    (hnext : Bfs.Expanded next (listed ++ [p] ++
      ((next p.1).foldl (Bfs.visit p.2) { queue := rest, visited := visited }).queue) p) :
    forall q, q ∈ listed ++ [p] -> Bfs.Expanded next (listed ++ [p] ++
      ((next p.1).foldl (Bfs.visit p.2) { queue := rest, visited := visited }).queue) q := by
  have hlist : listed ++ p :: rest = listed ++ [p] ++ rest := by simp
  intro q hq
  cases List.mem_append.mp hq with
  | inl hold =>
      refine (hexpanded q hold).mono ?_
      rw [hlist]
      intro r hr
      cases List.mem_append.mp hr with
      | inl hlisted => exact List.mem_append_left _ hlisted
      | inr hrest =>
          exact List.mem_append_right _ (Bfs.queue_subset_visitAll p.2 (next p.1) _ hrest)
  | inr hlast =>
      rw [List.mem_singleton.mp hlast]
      exact hnext

/-- With one round more than there are nodes in reach the search ends, and with an
answer. -/
theorem search_answers (hnodes : forall n y, Bfs.Reaches next source n y -> y ∈ nodes)
    {limit : Nat} (hlimit : nodes.length <= limit) (rounds : Nat)
    (hrounds : nodes.length < listed.length + rounds)
    (h : Follows next source listed counted s)
    (hcounted : Bfs.Invariant next source maxDepth depth listed counted)
    (hexpanded : forall p, p ∈ listed -> Bfs.Expanded next (listed ++ counted.queue) p)
    (hunseen : target ∉ s.visited) :
    exists answer, search next source target limit rounds s = some answer ∧
      Answers next source target answer := by
  induction rounds generalizing listed counted s maxDepth depth with
  | zero =>
      have hlength := hcounted.length_le hnodes
      omega
  | succ rounds ih =>
      rcases counted with ⟨queue, visited⟩
      cases queue with
      | nil =>
          have hempty : s.queue = [] := h.queue_eq
          refine ⟨none, by simp only [search, hempty], ?_, fun path hpath => by cases hpath⟩
          constructor
          · rintro ⟨path, hpath⟩
            cases hpath
          · rintro ⟨n, hn⟩
            exact absurd hn (not_reaches_of_empty h.visited_eq hcounted hexpanded hunseen n)
      | cons p rest =>
          have hp := hcounted.reached p (List.mem_append_right listed List.mem_cons_self)
          have hqueue : s.queue = p.1 :: rest.map Prod.fst := h.queue_eq
          have hpopped := hcounted.pop.bounded
          have hself : (p.1, p.2) ∈ listed ++ [p] :=
            List.mem_append_right _ (List.mem_singleton_self p)
          simp only [search, hqueue]
          rcases discover_cases hself hp.1 (Nat.lt_succ_self p.2) (next p.1) (List.Subset.refl _)
              h.pop hpopped hunseen with ⟨s', hdiscover, hfollows, hunseen'⟩ |
              ⟨counted', s', hdiscover, hfollows, hcounted', htarget⟩
          · rw [hdiscover]
            have hvisit := hpopped.visitAll hp.1 (Nat.lt_succ_self p.2) (next p.1)
              (List.Subset.refl _)
            refine ih ?_ hfollows hvisit.1 (expanded_visitAll hexpanded hvisit.2) hunseen'
            rw [List.length_append, List.length_singleton]
            omega
          · have hshortest : forall n, Bfs.Reaches next source n target -> p.2 + 1 <= n := by
              intro n hn
              refine Nat.lt_of_not_le ?_
              intro hle
              rcases hcounted.entered hexpanded hn hle with ⟨d, _, hentered⟩
              apply hunseen
              rw [h.visited_eq, hcounted.visited_eq]
              exact List.mem_map_of_mem hentered
            rcases climb_shortest hnodes hfollows hcounted' htarget hshortest hlimit with
              ⟨path, hclimb, hpath⟩
            rw [hdiscover]
            simp only [hclimb]
            refine ⟨some path.reverse, rfl, ?_, ?_⟩
            · refine ⟨fun _ => ⟨p.2 + 1, ?_⟩, fun _ => ⟨path.reverse, rfl⟩⟩
              exact (hcounted'.reached _ (List.mem_append_right _ htarget)).1
            · intro path' hpath'
              cases hpath'
              exact hpath

/-- The search from its start. -/
theorem search_start (hnodes : forall n y, Bfs.Reaches next source n y -> y ∈ nodes)
    (hne : source ≠ target) {limit rounds : Nat} (hlimit : nodes.length <= limit)
    (hrounds : nodes.length < rounds) :
    exists answer, search next source target limit rounds (start source) = some answer ∧
      Answers next source target answer := by
  have hstart : Bfs.Invariant next source 0 0 [] (Bfs.start source) := Bfs.Invariant.start
  have hnone : forall p, p ∈ [] -> Bfs.Expanded next ([] ++ (Bfs.start source).queue) p :=
    fun p hp => absurd hp List.not_mem_nil
  refine search_answers hnodes hlimit rounds (by simpa using hrounds) Follows.start hstart hnone ?_
  intro hmem
  exact hne (List.mem_singleton.mp hmem).symm

end Search

end ShortestPath
end Foundation
