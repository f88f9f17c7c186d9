import Mathlib.Data.List.Basic
import Mathlib.Logic.Function.Basic

/-!
# Machines that answer

A machine changes its state with each input and answers it.  Many copies of a machine, one for
each key, are a machine again, and each copy sees its own inputs only.
-/

namespace Foundation

/-- An input changes the state, and is answered with some outputs. -/
structure Machine (σ ι ο : Type) where
  next : σ -> ι -> σ
  answer : σ -> ι -> List ο

namespace Machine

variable {σ ι ο : Type}

def after (m : Machine σ ι ο) (s : σ) (inputs : List ι) : σ := inputs.foldl m.next s

def answers (m : Machine σ ι ο) (s : σ) : List ι -> List ο
  | [] => []
  | x :: rest => m.answer s x ++ m.answers (m.next s x) rest

variable (m : Machine σ ι ο)

theorem after_concat (s : σ) (past : List ι) (x : ι) :
    m.after s (past ++ [x]) = m.next (m.after s past) x := by
  unfold after
  rw [List.foldl_append]
  rfl

theorem answers_append (s : σ) (past rest : List ι) :
    m.answers s (past ++ rest) = m.answers s past ++ m.answers (m.after s past) rest := by
  induction past generalizing s with
  | nil => rfl
  | cons x past ih =>
      show m.answer s x ++ m.answers (m.next s x) (past ++ rest) = _
      rw [ih, ← List.append_assoc]
      rfl

theorem answers_concat (s : σ) (past : List ι) (x : ι) :
    m.answers s (past ++ [x]) = m.answers s past ++ m.answer (m.after s past) x := by
  rw [answers_append]
  show _ ++ (m.answer (m.after s past) x ++ []) = _
  rw [List.append_nil]

/-!
## A machine for each key
-/

section Keys

variable {α : Type} [DecidableEq α]

/-- An input is for one of the keys. -/
def perKey : Machine (α -> σ) (α × ι) (α × ο) where
  next s p := Function.update s p.1 (m.next (s p.1) p.2)
  answer s p := (m.answer (s p.1) p.2).map (fun o => (p.1, o))

/-- What is marked with a key. -/
def ofKey {β : Type} (a : α) (pairs : List (α × β)) : List β :=
  pairs.filterMap (fun p => if p.1 = a then some p.2 else none)

theorem ofKey_cons_self {β : Type} (a : α) (x : β) (rest : List (α × β)) :
    ofKey a ((a, x) :: rest) = x :: ofKey a rest :=
  List.filterMap_cons_some (if_pos rfl)

theorem ofKey_cons_of_ne {β : Type} {a b : α} (h : b ≠ a) (x : β) (rest : List (α × β)) :
    ofKey a ((b, x) :: rest) = ofKey a rest :=
  List.filterMap_cons_none (if_neg h)

theorem ofKey_append {β : Type} (a : α) (left right : List (α × β)) :
    ofKey a (left ++ right) = ofKey a left ++ ofKey a right := List.filterMap_append

theorem ofKey_map_self {β : Type} (a : α) (l : List β) :
    ofKey a (l.map (fun o => (a, o))) = l := by
  induction l with
  | nil => rfl
  | cons x rest ih =>
      rw [List.map_cons, ofKey_cons_self, ih]

theorem ofKey_map_of_ne {β : Type} {a b : α} (h : b ≠ a) (l : List β) :
    ofKey a (l.map (fun o => (b, o))) = [] := by
  induction l with
  | nil => rfl
  | cons x rest ih =>
      rw [List.map_cons, ofKey_cons_of_ne h, ih]

theorem mem_ofKey {β : Type} {a : α} {x : β} {pairs : List (α × β)} :
    x ∈ ofKey a pairs <-> (a, x) ∈ pairs := by
  unfold ofKey
  rw [List.mem_filterMap]
  constructor
  · rintro ⟨⟨b, y⟩, hmem, heq⟩
    rcases Option.ite_none_right_eq_some.mp heq with ⟨hkey, hvalue⟩
    cases hvalue
    cases hkey
    exact hmem
  · intro hmem
    exact ⟨(a, x), hmem, if_pos rfl⟩

/-- The state of a key is that of one machine with the inputs for the key. -/
theorem after_perKey (s : α -> σ) (inputs : List (α × ι)) (a : α) :
    (m.perKey.after s inputs) a = m.after (s a) (ofKey a inputs) := by
  induction inputs generalizing s with
  | nil => rfl
  | cons p rest ih =>
      rcases p with ⟨b, x⟩
      show (m.perKey.after (Function.update s b (m.next (s b) x)) rest) a = _
      rw [ih]
      by_cases h : b = a
      · rw [h, Function.update_self, ofKey_cons_self]
        rfl
      · rw [Function.update_of_ne (fun heq => h heq.symm), ofKey_cons_of_ne h]

/-- A key is answered as if the other keys had no inputs. -/
theorem answers_perKey (s : α -> σ) (inputs : List (α × ι)) (a : α) :
    ofKey a (m.perKey.answers s inputs) = m.answers (s a) (ofKey a inputs) := by
  induction inputs generalizing s with
  | nil => rfl
  | cons p rest ih =>
      rcases p with ⟨b, x⟩
      show ofKey a ((m.answer (s b) x).map (fun o => (b, o)) ++
        m.perKey.answers (Function.update s b (m.next (s b) x)) rest) = _
      rw [ofKey_append, ih]
      by_cases h : b = a
      · rw [h, ofKey_map_self, Function.update_self, ofKey_cons_self]
        rfl
      · rw [ofKey_map_of_ne h, Function.update_of_ne (fun heq => h heq.symm),
          ofKey_cons_of_ne h, List.nil_append]

end Keys

end Machine

end Foundation
