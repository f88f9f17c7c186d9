import Mathlib.Data.List.Basic
import Mathlib.Data.List.Induction
import Mathlib.Data.List.Nodup
import Mathlib.Data.List.Lookmap

/-!
# Association tables

A table is a finite map listed in insertion order.  It serves as a hash map and
as a relation with a primary key: the key columns are the key and the other
columns are the value.  Keys are pairwise distinct by construction, so no
operation can produce a table with two rows for one key.
-/

namespace Foundation

structure Assoc (κ ν : Type) where
  entries : List (κ × ν)
  nodup : (entries.map Prod.fst).Nodup

namespace Assoc

variable {κ ν : Type}

def empty : Assoc κ ν where
  entries := []
  nodup := List.nodup_nil

def keys (t : Assoc κ ν) : List κ := t.entries.map Prod.fst

/-!
## Row-wise operations

{lit}`update` is a conditional rewrite of the values and {lit}`deleteWhere` a
conditional deletion; neither touches a key.
-/

def update (t : Assoc κ ν) (p : κ -> ν -> Bool) (f : κ -> ν -> ν) : Assoc κ ν where
  entries := t.entries.map (fun e => if p e.1 e.2 then (e.1, f e.1 e.2) else e)
  nodup := by
    have hkeys :
        (t.entries.map (fun e => if p e.1 e.2 then (e.1, f e.1 e.2) else e)).map
          Prod.fst = t.entries.map Prod.fst := by
      rw [List.map_map]
      apply List.map_congr_left
      intro e _
      simp only [Function.comp_apply]
      split <;> rfl
    rw [hkeys]
    exact t.nodup

def deleteWhere (t : Assoc κ ν) (p : κ -> ν -> Bool) : Assoc κ ν where
  entries := t.entries.filter (fun e => !p e.1 e.2)
  nodup := t.nodup.sublist (List.filter_sublist.map Prod.fst)

@[simp] theorem keys_update (t : Assoc κ ν) (p : κ -> ν -> Bool)
    (f : κ -> ν -> ν) : (t.update p f).keys = t.keys := by
  simp only [keys, update, List.map_map]
  apply List.map_congr_left
  intro e _
  simp only [Function.comp_apply]
  split <;> rfl

variable [DecidableEq κ]

def find? (t : Assoc κ ν) (k : κ) : Option ν :=
  (t.entries.find? (fun e => decide (e.1 = k))).map Prod.snd

def contains (t : Assoc κ ν) (k : κ) : Bool := (t.find? k).isSome

def erase (t : Assoc κ ν) (k : κ) : Assoc κ ν :=
  t.deleteWhere (fun k' _ => decide (k' = k))

theorem find?_eq_some_iff {t : Assoc κ ν} {k : κ} {v : ν} :
    t.find? k = some v <-> (k, v) ∈ t.entries := by
  rcases t with ⟨entries, hnodup⟩
  simp only [find?]
  induction entries with
  | nil => simp
  | cons e rest ih =>
      have hrest : (rest.map Prod.fst).Nodup := (List.nodup_cons.mp hnodup).2
      have hfresh : e.1 ∉ rest.map Prod.fst := (List.nodup_cons.mp hnodup).1
      rw [List.find?_cons]
      by_cases hk : e.1 = k
      · simp only [hk, decide_true, Option.map_some, Option.some.injEq]
        constructor
        · intro hv
          subst hv
          rw [← hk]
          exact List.mem_cons_self
        · intro hmem
          rcases List.mem_cons.mp hmem with heq | hin
          · rw [← heq]
          · rw [hk] at hfresh
            exact absurd (List.mem_map_of_mem hin) hfresh
      · simp only [hk, decide_false]
        rw [ih hrest, List.mem_cons]
        constructor
        · exact Or.inr
        · intro hmem
          rcases hmem with heq | hin
          · rw [← heq] at hk
            exact absurd rfl hk
          · exact hin

theorem find?_eq_none_iff {t : Assoc κ ν} {k : κ} :
    t.find? k = none <-> k ∉ t.keys := by
  rw [Option.eq_none_iff_forall_ne_some]
  constructor
  · intro hnone hmem
    rcases List.mem_map.mp hmem with ⟨e, he, hek⟩
    subst hek
    exact hnone e.2 (find?_eq_some_iff.mpr he)
  · intro hmem v hv
    exact hmem (List.mem_map_of_mem (find?_eq_some_iff.mp hv))

theorem contains_iff_mem_keys {t : Assoc κ ν} {k : κ} :
    t.contains k = true <-> k ∈ t.keys := by
  have hnone := find?_eq_none_iff (t := t) (k := k)
  rw [contains, Option.isSome_iff_ne_none, ne_eq, hnone, not_not]

theorem contains_iff_exists {t : Assoc κ ν} {k : κ} :
    t.contains k = true <-> exists v, t.find? k = some v := by
  rw [contains, Option.isSome_iff_exists]

theorem find?_congr_of_getD {t u : Assoc κ ν} {k : κ} {d : ν}
    (hvalue : (t.find? k).getD d = (u.find? k).getD d)
    (hcontains : t.contains k = true <-> u.contains k = true) : t.find? k = u.find? k := by
  unfold contains at hcontains
  cases ht : t.find? k with
  | none =>
      rw [ht] at hcontains
      cases hu : u.find? k with
      | none => rfl
      | some w => simp [hu] at hcontains
  | some v =>
      rw [ht] at hcontains hvalue
      cases hu : u.find? k with
      | none => simp [hu] at hcontains
      | some w =>
          rw [hu] at hvalue
          exact congrArg some hvalue

@[simp] theorem find?_empty (k : κ) : (empty : Assoc κ ν).find? k = none := rfl

@[simp] theorem contains_empty (k : κ) :
    (empty : Assoc κ ν).contains k = false := rfl

@[simp] theorem find?_update (t : Assoc κ ν) (p : κ -> ν -> Bool)
    (f : κ -> ν -> ν) (k : κ) :
    (t.update p f).find? k =
      (t.find? k).map (fun v => if p k v then f k v else v) := by
  ext w
  rw [find?_eq_some_iff]
  simp only [update, List.mem_map, Option.map_eq_some_iff]
  constructor
  · rintro ⟨e, he, heq⟩
    refine ⟨e.2, ?_, ?_⟩
    · rw [find?_eq_some_iff]
      split at heq <;> cases heq <;> exact he
    · split at heq <;> cases heq <;> simp_all
  · rintro ⟨v, hv, hw⟩
    refine ⟨(k, v), find?_eq_some_iff.mp hv, ?_⟩
    split at hw <;> simp_all

@[simp] theorem find?_deleteWhere (t : Assoc κ ν) (p : κ -> ν -> Bool) (k : κ) :
    (t.deleteWhere p).find? k = (t.find? k).filter (fun v => !p k v) := by
  ext w
  rw [find?_eq_some_iff, Option.filter_eq_some_iff, find?_eq_some_iff]
  simp [deleteWhere]

theorem find?_erase (t : Assoc κ ν) (k j : κ) :
    (t.erase k).find? j = if j = k then none else t.find? j := by
  rw [erase, find?_deleteWhere]
  by_cases h : j = k
  · simp [h]
  · cases t.find? j <;> simp [h]

theorem length_keys_erase {t : Assoc κ ν} {k : κ} (h : t.contains k = true) :
    (t.erase k).keys.length + 1 = t.keys.length := by
  have hkeys : (t.erase k).keys = t.keys.erase k := by
    have hnodup : t.keys.Nodup := t.nodup
    rw [hnodup.erase_eq_filter]
    simp only [erase, deleteWhere, keys, List.filter_map]
    refine congrArg (List.map Prod.fst) (List.filter_congr (fun e _ => ?_))
    by_cases hk : e.1 = k
    · simp [hk]
    · simp [hk]
  have hmem := contains_iff_mem_keys.mp h
  rw [hkeys, List.length_erase_of_mem hmem]
  exact Nat.sub_add_cancel (List.length_pos_of_mem hmem)

/-!
## Insert or update

{lit}`upsert` rewrites the value in place when the key is present and appends a
new row otherwise, so the listing order of existing rows never changes.
-/

def upsert (t : Assoc κ ν) (k : κ) (f : Option ν -> ν) : Assoc κ ν :=
  if h : t.contains k = true then
    t.update (fun k' _ => decide (k' = k)) (fun _ v => f (some v))
  else
    { entries := t.entries ++ [(k, f none)]
      nodup := by
        have hfresh : k ∉ t.keys := fun hk => h (contains_iff_mem_keys.mpr hk)
        rw [List.map_append, List.nodup_append]
        refine ⟨t.nodup, by simp, ?_⟩
        intro a ha b hb hab
        have hbk : b = k := by simpa using hb
        rw [hab, hbk] at ha
        exact hfresh ha }

def insert (t : Assoc κ ν) (k : κ) (v : ν) : Assoc κ ν := t.upsert k (fun _ => v)

theorem entries_upsert_of_not_contains {t : Assoc κ ν} {k : κ}
    (f : Option ν -> ν) (h : t.contains k = false) :
    (t.upsert k f).entries = t.entries ++ [(k, f none)] := by
  simp [upsert, h]

theorem find?_upsert (t : Assoc κ ν) (k : κ) (f : Option ν -> ν) (j : κ) :
    (t.upsert k f).find? j = if j = k then some (f (t.find? k)) else t.find? j := by
  by_cases h : t.contains k = true
  · rcases contains_iff_exists.mp h with ⟨v, hv⟩
    rw [upsert, dif_pos h, find?_update]
    by_cases hj : j = k
    · subst hj
      simp [hv]
    · simp [hj]
  · have hfalse : t.contains k = false := by simpa using h
    have hnone : t.find? k = none := by simpa [contains] using hfalse
    ext w
    rw [find?_eq_some_iff, entries_upsert_of_not_contains f hfalse]
    rw [List.mem_append, ← find?_eq_some_iff]
    by_cases hj : j = k
    · subst hj
      simp [hnone, eq_comm]
    · simp [hj]

theorem contains_upsert (t : Assoc κ ν) (k : κ) (f : Option ν -> ν) (j : κ) :
    (t.upsert k f).contains j = (decide (j = k) || t.contains j) := by
  rw [contains, find?_upsert]
  by_cases hj : j = k
  · simp [hj]
  · simp [hj, contains]

theorem find?_insert (t : Assoc κ ν) (k : κ) (v : ν) (j : κ) :
    (t.insert k v).find? j = if j = k then some v else t.find? j :=
  find?_upsert t k (fun _ => v) j

/-!
### Order of the rows

Two tables with the same rows may list them in different orders.
-/

theorem entries_perm {t u : Assoc κ ν} (h : forall k, t.find? k = u.find? k) :
    t.entries.Perm u.entries := by
  rw [List.perm_ext_iff_of_nodup (List.Nodup.of_map _ t.nodup) (List.Nodup.of_map _ u.nodup)]
  rintro ⟨k, v⟩
  rw [← find?_eq_some_iff, ← find?_eq_some_iff, h k]

/-- A loop over rows acts on each key as a loop over one value. -/
theorem find?_foldl {α : Type} {f : Assoc κ ν -> α -> Assoc κ ν} {j : κ}
    {g : Option ν -> α -> Option ν}
    (hf : forall t x, (f t x).find? j = g (t.find? j) x) (xs : List α) (t : Assoc κ ν) :
    (xs.foldl f t).find? j = xs.foldl g (t.find? j) := by
  induction xs generalizing t with
  | nil => rfl
  | cons x rest ih => rw [List.foldl_cons, List.foldl_cons, ih, hf]

/-- Of several rows inserted under one key the last stays. -/
theorem find?_foldl_insert (xs : List (κ × ν)) (t : Assoc κ ν) (j : κ) :
    (xs.foldl (fun t x => t.insert x.1 x.2) t).find? j =
      ((xs.reverse.find? (fun x => decide (x.1 = j))).map Prod.snd).or (t.find? j) := by
  induction xs generalizing t with
  | nil => rfl
  | cons x rest ih =>
      rw [List.foldl_cons, ih, find?_insert, List.reverse_cons, List.find?_append]
      cases hrest : rest.reverse.find? (fun x => decide (x.1 = j)) with
      | some y => rfl
      | none =>
          by_cases hj : j = x.1
          · simp [hj]
          · have hne : x.1 ≠ j := fun heq => hj heq.symm
            simp [hj, hne]

theorem contains_foldl_insert_rows (xs : List (κ × ν)) (t : Assoc κ ν) (j : κ) :
    (xs.foldl (fun t x => t.insert x.1 x.2) t).contains j = true <->
      j ∈ xs.map Prod.fst ∨ t.contains j = true := by
  rw [contains, find?_foldl_insert, Option.isSome_or, Bool.or_eq_true, Option.isSome_map,
    List.find?_isSome, List.mem_map]
  have hmem : (exists x, x ∈ xs.reverse ∧ decide (x.1 = j) = true) <->
      exists x, x ∈ xs ∧ x.1 = j := by
    simp only [List.mem_reverse, decide_eq_true_eq]
  rw [hmem]
  rfl

theorem contains_foldl_insert {α : Type} (key : α -> κ) (xs : List α) (t : Assoc κ Unit)
    (j : κ) :
    (xs.foldl (fun t x => t.insert (key x) ()) t).contains j = true <->
      (exists x, x ∈ xs ∧ j = key x) ∨ t.contains j = true := by
  induction xs generalizing t with
  | nil => simp
  | cons x rest ih =>
      rw [List.foldl_cons, ih, insert, contains_upsert, Bool.or_eq_true, decide_eq_true_eq,
        ← or_assoc]
      have hcons : ((exists y, y ∈ rest ∧ j = key y) ∨ j = key x) <->
          exists y, y ∈ x :: rest ∧ j = key y := by
        rw [List.exists_mem_cons_iff, or_comm]
      rw [hcons]

theorem keys_upsert (t : Assoc κ ν) (k : κ) (f : Option ν -> ν) :
    (t.upsert k f).keys = if t.contains k then t.keys else t.keys ++ [k] := by
  by_cases h : t.contains k = true
  · rw [upsert, dif_pos h, if_pos h, keys_update]
  · rw [upsert, dif_neg h, if_neg h]
    simp [keys]

/-- Elements with new and different keys are appended in their order. -/
theorem entries_foldl_upsert {α : Type} (key : α -> κ) (f : α -> Option ν -> ν) (xs : List α)
    (t : Assoc κ ν) (hnodup : (xs.map key).Nodup) (hfresh : forall x, x ∈ xs -> key x ∉ t.keys) :
    (xs.foldl (fun t x => t.upsert (key x) (f x)) t).entries =
      t.entries ++ xs.map (fun x => (key x, f x none)) := by
  induction xs generalizing t with
  | nil => simp
  | cons x rest ih =>
      have hparts := List.nodup_cons.mp hnodup
      have hx : t.contains (key x) = false := by
        rw [Bool.eq_false_iff]
        intro hin
        exact hfresh x List.mem_cons_self (contains_iff_mem_keys.mp hin)
      have hentries := entries_upsert_of_not_contains (f x) hx
      have hkeys : (t.upsert (key x) (f x)).keys = t.keys ++ [key x] := by
        rw [keys_upsert, hx]
        rfl
      rw [List.foldl_cons, ih _ hparts.2, hentries, List.map_cons, List.append_assoc]
      · rfl
      · intro y hy hmem
        rw [hkeys, List.mem_append, List.mem_singleton] at hmem
        rcases hmem with hold | heq
        · exact hfresh y (List.mem_cons_of_mem x hy) hold
        · exact hparts.1 (by rw [← heq]; exact List.mem_map_of_mem hy)

/-!
### Grouping

Elements with one key are listed under it in their order; an element without a key is left
out.
-/

section Gather

variable {α : Type} (key : α -> Option κ) (val : α -> ν)

def gather (xs : List α) : Assoc κ (List ν) :=
  xs.foldl (fun t x =>
    match key x with
    | none => t
    | some k => t.upsert k (fun vs => vs.getD [] ++ [val x])) empty

theorem gather_append_singleton (xs : List α) (x : α) :
    gather key val (xs ++ [x]) =
      match key x with
      | none => gather key val xs
      | some k => (gather key val xs).upsert k (fun vs => vs.getD [] ++ [val x]) := by
  unfold gather
  rw [List.foldl_append]
  rfl

theorem getD_find?_gather (xs : List α) (k : κ) :
    ((gather key val xs).find? k).getD [] =
      (xs.filter (fun x => decide (key x = some k))).map val := by
  induction xs using List.reverseRecOn with
  | nil => rfl
  | append_singleton past x ih =>
      rw [gather_append_singleton, List.filter_append, List.map_append, ← ih]
      cases hkey : key x with
      | none => simp [hkey]
      | some j =>
          simp only
          rw [find?_upsert]
          by_cases hj : k = j
          · rw [if_pos hj, hj]
            simp [hkey]
          · have hne : ¬ j = k := fun heq => hj heq.symm
            simp [hkey, hj, hne]

theorem contains_gather_iff (xs : List α) (k : κ) :
    (gather key val xs).contains k = true <-> exists x, x ∈ xs ∧ key x = some k := by
  induction xs using List.reverseRecOn with
  | nil => simp [gather]
  | append_singleton past x ih =>
      rw [gather_append_singleton]
      cases hkey : key x with
      | none => simp [ih, or_and_right, exists_or, hkey]
      | some j =>
          simp only
          rw [contains_upsert, Bool.or_eq_true, decide_eq_true_eq, ih]
          have hlast : (exists y, y = x ∧ key y = some k) <-> k = j := by
            rw [exists_eq_left, hkey, Option.some_inj, eq_comm]
          simp only [List.mem_append, List.mem_singleton, or_and_right, exists_or]
          rw [hlast, or_comm]

end Gather

end Assoc
end Foundation
