import Mathlib.Data.List.Dedup
import MenteDb.Foundation.Assoc

/-!
# Least recently used

A table of bounded size, listed from the least to the most recently used key.  A key is used
when it is written and when it is found.  A new key takes the place of the first of a full
table.
-/

namespace Foundation

variable {κ ν : Type} [DecidableEq κ]

/-- Without its earlier occurrences, a key that is used again comes last. -/
theorem dedup_append_singleton (ks : List κ) (k : κ) :
    (ks ++ [k]).dedup = ks.dedup.filter (fun j => decide (j ≠ k)) ++ [k] := by
  induction ks with
  | nil => simp
  | cons j rest ih =>
      rw [List.cons_append]
      by_cases hmem : j ∈ rest
      · rw [List.dedup_cons_of_mem (List.mem_append_left [k] hmem), List.dedup_cons_of_mem hmem,
          ih]
      · by_cases hk : j = k
        · rw [List.dedup_cons_of_mem (List.mem_append_right rest (List.mem_singleton.mpr hk)),
            List.dedup_cons_of_notMem hmem, List.filter_cons_of_neg (by simp [hk]), ih]
        · have hnot : j ∉ rest ++ [k] := by
            rw [List.mem_append, List.mem_singleton]
            exact not_or.mpr ⟨hmem, hk⟩
          rw [List.dedup_cons_of_notMem hnot, List.dedup_cons_of_notMem hmem,
            List.filter_cons_of_pos (by simp [hk]), ih]
          rfl

namespace Assoc

/-- Writes a key and lists it last. -/
def touch (t : Assoc κ ν) (k : κ) (v : ν) : Assoc κ ν := (t.erase k).insert k v

/-- Without the row that is listed first. -/
def dropFirst (t : Assoc κ ν) : Assoc κ ν where
  entries := t.entries.tail
  nodup := t.nodup.sublist ((List.tail_sublist t.entries).map Prod.fst)

theorem find?_touch (t : Assoc κ ν) (k : κ) (v : ν) (j : κ) :
    (t.touch k v).find? j = if j = k then some v else t.find? j := by
  unfold touch
  rw [find?_insert, find?_erase]
  split
  · rfl
  · rfl

omit [DecidableEq κ] in
theorem keys_deleteWhere_key (t : Assoc κ ν) (p : κ -> Bool) :
    (t.deleteWhere (fun k _ => p k)).keys = t.keys.filter (fun k => !p k) := by
  unfold keys deleteWhere
  rw [List.filter_map]
  rfl

theorem keys_touch (t : Assoc κ ν) (k : κ) (v : ν) :
    (t.touch k v).keys = t.keys.filter (fun j => decide (j ≠ k)) ++ [k] := by
  have hnew : (t.erase k).contains k = false := by
    rw [contains, find?_erase, if_pos rfl]
    rfl
  unfold touch insert
  rw [keys_upsert, hnew, if_neg Bool.false_ne_true, erase, keys_deleteWhere_key]
  simp only [decide_not]

omit [DecidableEq κ] in
theorem keys_dropFirst (t : Assoc κ ν) : t.dropFirst.keys = t.keys.tail := List.map_tail

theorem find?_dropFirst (t : Assoc κ ν) (j : κ) :
    t.dropFirst.find? j = if t.keys.head? = some j then none else t.find? j := by
  rcases t with ⟨entries, hnodup⟩
  cases entries with
  | nil =>
      unfold dropFirst find? keys
      rfl
  | cons e rest =>
      show ((rest.find? _).map Prod.snd) = if some e.1 = some j then none else
        (((e :: rest).find? _).map Prod.snd)
      by_cases hj : e.1 = j
      · rw [if_pos (by rw [hj]), Option.map_eq_none_iff, List.find?_eq_none]
        intro x hx
        have hfresh : e.1 ∉ rest.map Prod.fst := (List.nodup_cons.mp hnodup).1
        intro heq
        rw [hj, ← of_decide_eq_true heq] at hfresh
        exact hfresh (List.mem_map_of_mem hx)
      · rw [if_neg (fun h => hj (Option.some.inj h)), List.find?_cons_of_neg (by simp [hj])]

end Assoc

/-- A use of a table. -/
inductive Access (κ ν : Type) where
  | get (key : κ)
  | put (key : κ) (value : ν)
  | clear

namespace Access

/-- The key that is asked for or written. -/
def key? : Access κ ν -> Option κ
  | get k => some k
  | put k _ => some k
  | clear => none

/-- What is written under a key. -/
def written? (j : κ) : Access κ ν -> Option ν
  | get _ => none
  | put k v => if k = j then some v else none
  | clear => none

end Access

namespace Lru

/-- The table with room for one more key. -/
def withRoom (capacity : Nat) (t : Assoc κ ν) : Assoc κ ν :=
  if t.keys.length < capacity then t else t.dropFirst

def get (t : Assoc κ ν) (k : κ) : Assoc κ ν :=
  match t.find? k with
  | some v => t.touch k v
  | none => t

def put (capacity : Nat) (t : Assoc κ ν) (k : κ) (v : ν) : Assoc κ ν :=
  if t.contains k then t.touch k v else (withRoom capacity t).touch k v

def step (capacity : Nat) (t : Assoc κ ν) : Access κ ν -> Assoc κ ν
  | Access.get k => get t k
  | Access.put k v => put capacity t k v
  | Access.clear => Assoc.empty

def run (capacity : Nat) (accesses : List (Access κ ν)) : Assoc κ ν :=
  accesses.foldl (step capacity) Assoc.empty

theorem run_append_singleton (capacity : Nat) (past : List (Access κ ν)) (a : Access κ ν) :
    run capacity (past ++ [a]) = step capacity (run capacity past) a := by
  unfold run
  rw [List.foldl_append]
  rfl

/-!
## The size
-/

omit [DecidableEq κ] in
theorem length_withRoom_lt {capacity : Nat} (hcapacity : 1 <= capacity) {t : Assoc κ ν}
    (h : t.keys.length <= capacity) : (withRoom capacity t).keys.length < capacity := by
  unfold withRoom
  split
  · assumption
  · rw [Assoc.keys_dropFirst, List.length_tail]
    omega

theorem length_touch_le (t : Assoc κ ν) (k : κ) (v : ν) :
    (t.touch k v).keys.length <= t.keys.length + 1 := by
  rw [Assoc.keys_touch, List.length_append, List.length_singleton]
  exact Nat.succ_le_succ (List.length_filter_le _ _)

theorem length_touch_of_contains {t : Assoc κ ν} {k : κ} (h : t.contains k = true) (v : ν) :
    (t.touch k v).keys.length = t.keys.length := by
  have hnew : (t.erase k).contains k = false := by
    rw [Assoc.contains, Assoc.find?_erase, if_pos rfl]
    rfl
  unfold Assoc.touch Assoc.insert
  rw [Assoc.keys_upsert, hnew, if_neg Bool.false_ne_true, List.length_append,
    List.length_singleton]
  exact Assoc.length_keys_erase h

theorem length_step_le {capacity : Nat} (hcapacity : 1 <= capacity) {t : Assoc κ ν}
    (h : t.keys.length <= capacity) (a : Access κ ν) :
    (step capacity t a).keys.length <= capacity := by
  cases a with
  | get k =>
      show (get t k).keys.length <= capacity
      unfold get
      cases hfind : t.find? k with
      | none => exact h
      | some v =>
          show (t.touch k v).keys.length <= capacity
          rw [length_touch_of_contains (Assoc.contains_iff_exists.mpr ⟨v, hfind⟩)]
          exact h
  | put k v =>
      show (put capacity t k v).keys.length <= capacity
      unfold put
      split
      · rename_i hcontains
        rw [length_touch_of_contains hcontains]
        exact h
      · exact Nat.le_trans (length_touch_le _ k v) (length_withRoom_lt hcapacity h)
  | clear => exact Nat.zero_le capacity

/-- The table never holds more keys than it may. -/
theorem length_run_le {capacity : Nat} (hcapacity : 1 <= capacity)
    (accesses : List (Access κ ν)) : (run capacity accesses).keys.length <= capacity := by
  induction accesses using List.reverseRecOn with
  | nil => exact Nat.zero_le capacity
  | append_singleton past a ih =>
      rw [run_append_singleton]
      exact length_step_le hcapacity ih a

/-- A new key in a full table is what the first key is given up for, and nothing else is. -/
theorem contains_put {capacity : Nat} {t : Assoc κ ν} (h : t.keys.length <= capacity) (k : κ)
    (v : ν) (j : κ) :
    (put capacity t k v).contains j = true <->
      j = k ∨ (t.contains j = true ∧
        ¬ (t.contains k = false ∧ t.keys.length = capacity ∧ t.keys.head? = some j)) := by
  have htouch : forall u : Assoc κ ν, (u.touch k v).contains j = true <->
      j = k ∨ u.contains j = true := by
    intro u
    unfold Assoc.contains
    rw [Assoc.find?_touch]
    by_cases hj : j = k
    · simp [hj]
    · simp [hj]
  unfold put
  by_cases hk : t.contains k = true
  · rw [if_pos hk, htouch]
    simp [hk]
  · rw [if_neg hk, htouch]
    unfold withRoom
    by_cases hroom : t.keys.length < capacity
    · rw [if_pos hroom]
      simp [Nat.ne_of_lt hroom]
    · have hfull : t.keys.length = capacity := Nat.le_antisymm h (Nat.le_of_not_lt hroom)
      rw [if_neg hroom]
      unfold Assoc.contains at hk ⊢
      rw [Assoc.find?_dropFirst]
      by_cases hhead : t.keys.head? = some j
      · simp [hhead, hk, hfull]
      · simp [hhead]

/-!
## The order
-/

/-- Listed in the order of the last use. -/
def ByUse (used : List κ) (t : Assoc κ ν) : Prop :=
  t.keys = used.dedup.filter t.contains

/-- Keys are dropped, and the key that is used comes last. -/
theorem ByUse.use {used : List κ} {t t' : Assoc κ ν} {k : κ} {kept : κ -> Bool}
    (h : ByUse used t) (hk : kept k = false) (hkeys : t'.keys = t.keys.filter kept ++ [k]) :
    ByUse (used ++ [k]) t' := by
  have hcontains : forall j, j ≠ k -> t'.contains j = (t.contains j && kept j) := by
    intro j hj
    rw [Bool.eq_iff_iff, Bool.and_eq_true, Assoc.contains_iff_mem_keys,
      Assoc.contains_iff_mem_keys, hkeys, List.mem_append, List.mem_filter,
      List.mem_singleton]
    constructor
    · intro hmem
      rcases hmem with hmem | heq
      · exact hmem
      · exact absurd heq hj
    · exact Or.inl
  have hlast : t'.contains k = true := by
    rw [Assoc.contains_iff_mem_keys, hkeys]
    exact List.mem_append_right _ (List.mem_singleton.mpr rfl)
  unfold ByUse
  rw [hkeys, h, dedup_append_singleton, List.filter_append, List.filter_filter,
    List.filter_filter, List.filter_cons_of_pos hlast]
  congr 1
  apply List.filter_congr
  intro j _
  by_cases hj : j = k
  · simp [hj, hk]
  · rw [hcontains j hj]
    simp [hj, Bool.and_comm]

theorem ByUse.touch {used : List κ} {t : Assoc κ ν} (h : ByUse used t) (k : κ) (v : ν) :
    ByUse (used ++ [k]) (t.touch k v) :=
  h.use (by simp) (Assoc.keys_touch t k v)

/-- A key that is asked for and not found is not listed. -/
theorem ByUse.miss {used : List κ} {t : Assoc κ ν} (h : ByUse used t) {k : κ}
    (hk : t.contains k = false) : ByUse (used ++ [k]) t := by
  unfold ByUse
  rw [dedup_append_singleton, List.filter_append, List.filter_filter,
    List.filter_cons_of_neg (by rw [hk]; exact Bool.false_ne_true), List.filter_nil,
    List.append_nil]
  refine h.trans (List.filter_congr (fun j _ => ?_))
  by_cases hj : j = k
  · simp [hj, hk]
  · simp [hj]

/-- The first of different keys is dropped by its name. -/
theorem tail_eq_filter {ks : List κ} (h : ks.Nodup) :
    ks.tail = ks.filter (fun j => decide (ks.head? ≠ some j)) := by
  cases ks with
  | nil => rfl
  | cons k rest =>
      rw [List.filter_cons_of_neg (by simp), List.tail_cons]
      refine (List.filter_eq_self.mpr (fun j hj => ?_)).symm
      have hne : k ≠ j := by
        intro heq
        rw [← heq] at hj
        exact (List.nodup_cons.mp h).1 hj
      simp [hne]

theorem ByUse.dropFirst {used : List κ} {t : Assoc κ ν} (h : ByUse used t) :
    ByUse used t.dropFirst := by
  have hcontains : forall j, t.dropFirst.contains j =
      (t.contains j && decide (t.keys.head? ≠ some j)) := by
    intro j
    unfold Assoc.contains
    rw [Assoc.find?_dropFirst]
    by_cases hj : t.keys.head? = some j
    · simp [hj]
    · simp [hj]
  have hnodup : t.keys.Nodup := t.nodup
  unfold ByUse at h ⊢
  rw [Assoc.keys_dropFirst, tail_eq_filter hnodup]
  calc t.keys.filter (fun j => decide (t.keys.head? ≠ some j))
      = (used.dedup.filter t.contains).filter (fun j => decide (t.keys.head? ≠ some j)) := by
        rw [← h]
    _ = used.dedup.filter t.dropFirst.contains := by
        rw [List.filter_filter]
        refine List.filter_congr (fun j _ => ?_)
        rw [hcontains, Bool.and_comm]

theorem byUse_step (capacity : Nat) {past : List (Access κ ν)} {t : Assoc κ ν}
    (h : ByUse (past.filterMap Access.key?) t) (a : Access κ ν) :
    ByUse ((past ++ [a]).filterMap Access.key?) (step capacity t a) := by
  rw [List.filterMap_append]
  cases a with
  | get k =>
      show ByUse (_ ++ [k]) (get t k)
      unfold get
      cases hfind : t.find? k with
      | none => exact h.miss (by rw [Assoc.contains, hfind]; rfl)
      | some v => exact h.touch k v
  | put k v =>
      show ByUse (_ ++ [k]) (put capacity t k v)
      unfold put withRoom
      split
      · exact h.touch k v
      · split
        · exact h.touch k v
        · exact h.dropFirst.touch k v
  | clear =>
      show ByUse (_ ++ []) Assoc.empty
      rw [List.append_nil]
      exact (List.filter_eq_nil_iff.mpr (fun _ _ => Bool.false_ne_true)).symm

/-- The keys are listed in the order of their last use. -/
theorem byUse_run (capacity : Nat) (accesses : List (Access κ ν)) :
    ByUse (accesses.filterMap Access.key?) (run capacity accesses) := by
  induction accesses using List.reverseRecOn with
  | nil => rfl
  | append_singleton past a ih =>
      rw [run_append_singleton]
      exact byUse_step capacity ih a

/-!
## The values
-/

/-- What was written last under a key. -/
def lastWritten (accesses : List (Access κ ν)) (k : κ) : Option ν :=
  accesses.reverse.findSome? (Access.written? k)

theorem lastWritten_append_singleton (past : List (Access κ ν)) (a : Access κ ν) (k : κ) :
    lastWritten (past ++ [a]) k = (a.written? k).or (lastWritten past k) := by
  unfold lastWritten
  rw [List.reverse_append, List.reverse_singleton, List.singleton_append, List.findSome?_cons]
  cases a.written? k <;> rfl

theorem find?_withRoom {capacity : Nat} {t : Assoc κ ν} {k : κ} {v : ν}
    (h : (withRoom capacity t).find? k = some v) : t.find? k = some v := by
  unfold withRoom at h
  split at h
  · exact h
  · rw [Assoc.find?_dropFirst] at h
    split at h
    · cases h
    · exact h

theorem find?_step (capacity : Nat) {past : List (Access κ ν)} {t : Assoc κ ν}
    (h : forall k v, t.find? k = some v -> lastWritten past k = some v) (a : Access κ ν) {k : κ}
    {v : ν} (hfind : (step capacity t a).find? k = some v) :
    lastWritten (past ++ [a]) k = some v := by
  rw [lastWritten_append_singleton]
  cases a with
  | get j =>
      show lastWritten past k = some v
      apply h
      change (get t j).find? k = some v at hfind
      unfold get at hfind
      cases hj : t.find? j with
      | none =>
          rw [hj] at hfind
          exact hfind
      | some w =>
          rw [hj] at hfind
          change (t.touch j w).find? k = some v at hfind
          rw [Assoc.find?_touch] at hfind
          split at hfind
          · rename_i heq
            rw [heq, hj]
            exact hfind
          · exact hfind
  | put j w =>
      show ((if j = k then some w else none).or (lastWritten past k)) = some v
      have htouch : forall u : Assoc κ ν, (u.find? k = some v -> t.find? k = some v) ->
          (u.touch j w).find? k = some v ->
          ((if j = k then some w else none).or (lastWritten past k)) = some v := by
        intro u hu hfound
        rw [Assoc.find?_touch] at hfound
        by_cases hk : k = j
        · rw [if_pos hk] at hfound
          rw [if_pos hk.symm]
          exact hfound
        · rw [if_neg hk] at hfound
          rw [if_neg (fun heq => hk heq.symm), Option.none_or]
          exact h k v (hu hfound)
      change (put capacity t j w).find? k = some v at hfind
      unfold put at hfind
      split at hfind
      · exact htouch t id hfind
      · exact htouch (withRoom capacity t) find?_withRoom hfind
  | clear => cases hfind

/-- What is found is what was written last. -/
theorem find?_run {capacity : Nat} {accesses : List (Access κ ν)} {k : κ} {v : ν}
    (h : (run capacity accesses).find? k = some v) : lastWritten accesses k = some v := by
  induction accesses using List.reverseRecOn generalizing k v with
  | nil => cases h
  | append_singleton past a ih =>
      rw [run_append_singleton] at h
      exact find?_step capacity (fun _ _ => ih) a h

end Lru
end Foundation
