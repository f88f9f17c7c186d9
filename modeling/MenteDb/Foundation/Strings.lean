import Mathlib.Algebra.GroupWithZero.Nat
import Mathlib.Data.List.Basic
import Mathlib.Data.List.DropRight

/-!
# Texts as lists

Cutting and rewriting a text, over any alphabet.  The words of a text are the maximal
runs without a separator; joining words and cutting again gives the same words.
-/

namespace Foundation
namespace Strings

variable {α : Type}

/-!
## Cutting and rewriting
-/

section Patterns

variable [BEq α]

def stripPrefix (pattern s : List α) : Option (List α) :=
  if pattern.isPrefixOf s then some (s.drop pattern.length) else none

/-- What stands before and after the first occurrence. -/
def splitOnce (pattern : List α) : List α -> Option (List α × List α)
  | [] => if pattern.isEmpty then some ([], []) else none
  | c :: rest =>
      if pattern.isPrefixOf (c :: rest) then some ([], (c :: rest).drop pattern.length)
      else (splitOnce pattern rest).map (fun parts => (c :: parts.1, parts.2))

/-- Replace the occurrences found from left to right; the number counts what is left of
the occurrence found last. -/
def replaceFrom (pattern replacement : List α) : Nat -> List α -> List α
  | _, [] => []
  | skip + 1, _ :: rest => replaceFrom pattern replacement skip rest
  | 0, c :: rest =>
      if pattern.isPrefixOf (c :: rest) then
        replacement ++ replaceFrom pattern replacement (pattern.length - 1) rest
      else c :: replaceFrom pattern replacement 0 rest

def replace (pattern replacement s : List α) : List α := replaceFrom pattern replacement 0 s

/-- Drop the pattern from the front as often as it stands there, at most so many times. -/
def trimStartUpTo (pattern : List α) : Nat -> List α -> List α
  | 0, s => s
  | n + 1, s =>
      if pattern.isPrefixOf s then trimStartUpTo pattern n (s.drop pattern.length) else s

def trimStartMatches (pattern s : List α) : List α := trimStartUpTo pattern s.length s

/-- The pieces between the occurrences found from left to right; the number counts what is
left of the occurrence found last. -/
def splitFrom (pattern : List α) : Nat -> List α -> List α -> List (List α)
  | _, piece, [] => [piece]
  | skip + 1, piece, _ :: rest => splitFrom pattern skip piece rest
  | 0, piece, c :: rest =>
      if pattern.isPrefixOf (c :: rest) then
        piece :: splitFrom pattern (pattern.length - 1) [] rest
      else splitFrom pattern 0 (piece ++ [c]) rest

def split (pattern s : List α) : List (List α) := splitFrom pattern 0 [] s

/-- Without the first occurrence of the pattern. -/
def removeFirst (pattern s : List α) : List α :=
  match splitOnce pattern s with
  | none => s
  | some parts => parts.1 ++ parts.2

theorem splitOnce_eq_some [LawfulBEq α] {pattern s u v : List α}
    (h : splitOnce pattern s = some (u, v)) : s = u ++ (pattern ++ v) := by
  induction s generalizing u with
  | nil =>
      unfold splitOnce at h
      split at h
      · rename_i hempty
        cases h
        rw [List.isEmpty_iff.mp hempty]
        rfl
      · cases h
  | cons c rest ih =>
      unfold splitOnce at h
      split at h
      · rename_i hprefix
        cases h
        exact (List.prefix_iff_eq_append.mp (List.isPrefixOf_iff_prefix.mp hprefix)).symm
      · rcases Option.map_eq_some_iff.mp h with ⟨⟨w, v'⟩, hrest, hparts⟩
        cases hparts
        rw [ih hrest]
        rfl

theorem splitOnce_isSome [LawfulBEq α] (u pattern v : List α) :
    (splitOnce pattern (u ++ (pattern ++ v))).isSome = true := by
  have hfound : forall s t : List α, pattern <+: t ->
      (splitOnce pattern (s ++ t)).isSome = true := by
    intro s t ht
    induction s with
    | nil =>
        cases t with
        | nil =>
            rw [List.prefix_nil.mp ht]
            rfl
        | cons c rest =>
            rw [List.nil_append, splitOnce, if_pos (List.isPrefixOf_iff_prefix.mpr ht)]
            rfl
    | cons c rest ih =>
        rw [List.cons_append, splitOnce]
        split
        · rfl
        · rw [Option.isSome_map]
          exact ih
  exact hfound u (pattern ++ v) (List.prefix_append pattern v)

/-- What occurs in a text is removed once. -/
theorem removeFirst_append [LawfulBEq α] (u pattern v : List α) :
    exists u' v', u ++ (pattern ++ v) = u' ++ (pattern ++ v') ∧
      removeFirst pattern (u ++ (pattern ++ v)) = u' ++ v' := by
  rcases Option.isSome_iff_exists.mp (splitOnce_isSome u pattern v) with ⟨⟨u', v'⟩, hsplit⟩
  refine ⟨u', v', splitOnce_eq_some hsplit, ?_⟩
  unfold removeFirst
  rw [hsplit]

end Patterns

def trimEndMatches (p : α -> Bool) (s : List α) : List α := (s.reverse.dropWhile p).reverse

def trimMatches (p : α -> Bool) (s : List α) : List α := trimEndMatches p (s.dropWhile p)

theorem dropWhile_of_initial {p : α -> Bool} {s t : List α} (h : t <+: s.dropWhile p) :
    t.dropWhile p = t := by
  cases t with
  | nil => rfl
  | cons c rest =>
      rcases h with ⟨u, hu⟩
      have hhead := List.head?_dropWhile_not p s
      rw [← hu] at hhead
      exact List.dropWhile_cons_of_neg (Bool.eq_false_iff.mp hhead)

theorem trimMatches_trimMatches (p : α -> Bool) (s : List α) :
    trimMatches p (trimMatches p s) = trimMatches p s := by
  show List.rdropWhile p (List.dropWhile p (List.rdropWhile p (s.dropWhile p))) =
    List.rdropWhile p (s.dropWhile p)
  rw [dropWhile_of_initial (List.rdropWhile_prefix p (s.dropWhile p)),
    List.rdropWhile_idempotent]

theorem rdropWhile_of_final {p : α -> Bool} {s t : List α} (h : t <:+ s.rdropWhile p) :
    t.rdropWhile p = t := by
  have hreverse : t.reverse <+: s.reverse.dropWhile p := by
    rw [← List.reverse_suffix, List.reverse_reverse]
    exact h
  unfold List.rdropWhile
  rw [dropWhile_of_initial hreverse, List.reverse_reverse]

/-!
### Parts of a trimmed text

The parts of a trimmed text before and after a piece have white space on one side each.
-/

section Parts

variable {p : α -> Bool} {s : List α}

theorem trimMatches_of_initial (hs : s.dropWhile p = s) {left : List α} (h : left <+: s) :
    trimMatches p left = left.rdropWhile p := by
  rw [← hs] at h
  unfold trimMatches
  rw [dropWhile_of_initial h]
  rfl

theorem trimMatches_of_final (hs : s.rdropWhile p = s) {right : List α} (h : right <:+ s) :
    trimMatches p right = right.dropWhile p := by
  rw [← hs] at h
  exact rdropWhile_of_final ((List.dropWhile_suffix p).trans h)

theorem rdropWhile_append_rtakeWhile (left : List α) :
    left.rdropWhile p ++ left.rtakeWhile p = left := by
  unfold List.rdropWhile List.rtakeWhile
  rw [← List.reverse_append, List.takeWhile_append_dropWhile, List.reverse_reverse]

theorem trimMatches_eq_nil_iff {w : List α} :
    trimMatches p w = [] <-> forall c, c ∈ w -> p c = true := by
  show List.rdropWhile p (w.dropWhile p) = [] <-> _
  rw [List.rdropWhile_eq_nil_iff]
  constructor
  · intro h
    rw [← List.dropWhile_eq_nil_iff]
    cases hdrop : w.dropWhile p with
    | nil => rfl
    | cons c rest =>
        have hhead := List.head?_dropWhile_not p w
        rw [hdrop] at hhead
        have hc := h c (by rw [hdrop]; exact List.mem_cons_self)
        rw [show p c = false from hhead] at hc
        cases hc
  · intro h c hc
    exact h c ((List.dropWhile_sublist p).subset hc)

theorem rdropWhile_append_of_all {a : List α} (ha : forall c, c ∈ a -> p c = true)
    (u : List α) : (u ++ a).rdropWhile p = u.rdropWhile p := by
  unfold List.rdropWhile
  rw [List.reverse_append, List.dropWhile_append_of_pos]
  intro c hc
  exact ha c (List.mem_reverse.mp hc)

/-- Two pieces of a trimmed text leave the same trimmed parts when they differ by white space
around them. -/
theorem trimmed_parts_iff {P : List α -> Prop} (hfront : s.dropWhile p = s)
    (hback : s.rdropWhile p = s) {left mid right : List α} (h : s = left ++ (mid ++ right)) :
    (exists u m v, s = u ++ (m ++ v) ∧ P m ∧ trimMatches p left = trimMatches p u ∧
        trimMatches p right = trimMatches p v) <->
      exists a m b, left.rtakeWhile p ++ (mid ++ right.takeWhile p) = a ++ (m ++ b) ∧
        (forall c, c ∈ a -> p c = true) ∧ (forall c, c ∈ b -> p c = true) ∧ P m := by
  have hparts : forall u m v : List α, s = u ++ (m ++ v) ->
      trimMatches p u = u.rdropWhile p ∧ trimMatches p v = v.dropWhile p ∧
        s = u.rdropWhile p ++ ((u.rtakeWhile p ++ (m ++ v.takeWhile p)) ++ v.dropWhile p) := by
    intro u m v heq
    refine ⟨trimMatches_of_initial hfront ⟨m ++ v, heq.symm⟩,
      trimMatches_of_final hback ⟨u ++ m, by rw [heq, List.append_assoc]⟩, ?_⟩
    conv => lhs; rw [heq, ← rdropWhile_append_rtakeWhile (p := p) u,
      ← List.takeWhile_append_dropWhile (p := p) (l := v)]
    simp only [List.append_assoc]
  rcases hparts left mid right h with ⟨hleft, hright, hwhole⟩
  constructor
  · intro hcut
    rcases hcut with ⟨u, m, v, heq, hP, hu, hv⟩
    rcases hparts u m v heq with ⟨hu', hv', hwhole'⟩
    rw [hleft, hu'] at hu
    rw [hright, hv'] at hv
    rw [hwhole, ← hu, ← hv] at hwhole'
    refine ⟨u.rtakeWhile p, m, v.takeWhile p, ?_, fun c => List.mem_rtakeWhile_imp,
      fun c => List.mem_takeWhile_imp, hP⟩
    exact List.append_cancel_right (List.append_cancel_left hwhole')
  · intro hcut
    rcases hcut with ⟨a, m, b, heq, ha, hb, hP⟩
    have hcovers : s = (left.rdropWhile p ++ a) ++ (m ++ (b ++ right.dropWhile p)) := by
      rw [hwhole, heq]
      simp only [List.append_assoc]
    rcases hparts _ _ _ hcovers with ⟨hu, hv, _⟩
    refine ⟨left.rdropWhile p ++ a, m, b ++ right.dropWhile p, hcovers, hP, ?_, ?_⟩
    · rw [hleft, hu, rdropWhile_append_of_all ha, List.rdropWhile_idempotent]
    · rw [hright, hv, List.dropWhile_append_of_pos hb, List.dropWhile_idempotent]

end Parts

/-!
## Words
-/

def words (p : α -> Bool) (s : List α) : List (List α) :=
  (s.splitOnP p).filter (fun w => !w.isEmpty)

def join (sep : α) (ws : List (List α)) : List α := [sep].intercalate ws

/-- A run without separators. -/
def IsWord (p : α -> Bool) (w : List α) : Prop := w ≠ [] ∧ forall c, c ∈ w -> p c = false

theorem join_cons_cons (sep : α) (w v : List α) (ws : List (List α)) :
    join sep (w :: v :: ws) = w ++ sep :: join sep (v :: ws) := by
  unfold join
  rw [List.intercalate_cons_cons, List.append_assoc, List.singleton_append]

theorem mem_join {sep c : α} {ws : List (List α)} (h : c ∈ join sep ws) :
    c = sep ∨ exists w, w ∈ ws ∧ c ∈ w := by
  induction ws with
  | nil => exact absurd h List.not_mem_nil
  | cons w rest ih =>
      cases rest with
      | nil =>
          unfold join at h
          rw [List.intercalate_singleton] at h
          exact Or.inr ⟨w, List.mem_cons_self, h⟩
      | cons v others =>
          rw [join_cons_cons] at h
          rcases List.mem_append.mp h with h | h
          · exact Or.inr ⟨w, List.mem_cons_self, h⟩
          · rcases List.mem_cons.mp h with h | h
            · exact Or.inl h
            · rcases ih h with h | ⟨u, hu, hc⟩
              · exact Or.inl h
              · exact Or.inr ⟨u, List.mem_cons_of_mem w hu, hc⟩

theorem exists_mem_splitOnP_iff {p : α -> Bool} {s : List α} {c : α} :
    (exists piece, piece ∈ s.splitOnP p ∧ c ∈ piece) <-> c ∈ s ∧ p c = false := by
  induction s with
  | nil => simp
  | cons a rest ih =>
      rw [List.splitOnP_cons_eq_if_modifyHead]
      by_cases ha : p a = true
      · rw [if_pos ha]
        constructor
        · rintro ⟨piece, hpiece, hc⟩
          rcases List.mem_cons.mp hpiece with heq | hmem
          · rw [heq] at hc
            cases hc
          · have hrest := ih.mp ⟨piece, hmem, hc⟩
            exact ⟨List.mem_cons_of_mem a hrest.1, hrest.2⟩
        · intro h
          rcases List.mem_cons.mp h.1 with heq | hmem
          · rw [heq, ha] at h
            cases h.2
          · rcases ih.mpr ⟨hmem, h.2⟩ with ⟨piece, hpiece, hc⟩
            exact ⟨piece, List.mem_cons_of_mem [] hpiece, hc⟩
      · rw [if_neg ha]
        cases hsplit : rest.splitOnP p with
        | nil => exact absurd hsplit (List.splitOnP_ne_nil p rest)
        | cons first others =>
            rw [hsplit] at ih
            rw [List.modifyHead_cons]
            have hhead : (exists piece, piece ∈ (a :: first) :: others ∧ c ∈ piece) <->
                c = a ∨ exists piece, piece ∈ first :: others ∧ c ∈ piece := by
              simp only [List.mem_cons, exists_eq_or_imp, or_assoc]
            rw [hhead, ih, List.mem_cons]
            constructor
            · intro h
              rcases h with heq | hmem
              · rw [heq]
                exact ⟨Or.inl rfl, Bool.eq_false_iff.mpr ha⟩
              · exact ⟨Or.inr hmem.1, hmem.2⟩
            · intro h
              exact h.1.imp_right (fun hmem => ⟨hmem, h.2⟩)

theorem not_separator_of_mem_splitOnP {p : α -> Bool} {s piece : List α} {c : α}
    (h : piece ∈ s.splitOnP p) (hc : c ∈ piece) : p c = false :=
  (exists_mem_splitOnP_iff.mp ⟨piece, h, hc⟩).2

theorem isWord_of_mem_words {p : α -> Bool} {s w : List α} (h : w ∈ words p s) : IsWord p w := by
  rcases List.mem_filter.mp h with ⟨hpiece, hempty⟩
  constructor
  · intro hnil
    rw [hnil] at hempty
    cases hempty
  · intro c hc
    exact not_separator_of_mem_splitOnP hpiece hc

/-- Joined words are cut where they were joined. -/
theorem words_join {p : α -> Bool} {sep : α} (hsep : p sep = true) {ws : List (List α)}
    (hws : forall w, w ∈ ws -> IsWord p w) : words p (join sep ws) = ws := by
  induction ws with
  | nil =>
      unfold words join
      rw [List.intercalate_nil, List.splitOnP_nil]
      rfl
  | cons w rest ih =>
      have hw := hws w List.mem_cons_self
      have hne : (!w.isEmpty) = true := by
        simp [hw.1]
      cases rest with
      | nil =>
          unfold words join
          rw [List.intercalate_singleton, List.splitOnP_eq_singleton hw.2]
          simp [hne]
      | cons v others =>
          have hrest := ih (fun u hu => hws u (List.mem_cons_of_mem w hu))
          unfold words at hrest ⊢
          rw [join_cons_cons, List.splitOnP_append_cons_of_forall_mem hw.2 sep hsep,
            List.filter_cons, if_pos hne, hrest]

/-- Two runs up to a separator are one. -/
theorem append_cons_cancel {p : α -> Bool} {sep : α} (hsep : p sep = true) {u v a b : List α}
    (hu : forall c, c ∈ u -> p c = false) (hv : forall c, c ∈ v -> p c = false)
    (h : u ++ sep :: a = v ++ sep :: b) : u = v ∧ a = b := by
  induction u generalizing v with
  | nil =>
      cases v with
      | nil => exact ⟨rfl, (List.cons.inj h).2⟩
      | cons c rest =>
          have hc := hv c List.mem_cons_self
          rw [← (List.cons.inj h).1, hsep] at hc
          cases hc
  | cons c rest ih =>
      cases v with
      | nil =>
          have hc := hu c List.mem_cons_self
          rw [(List.cons.inj h).1, hsep] at hc
          cases hc
      | cons d others =>
          rcases List.cons.inj h with ⟨heq, htail⟩
          have hrest := ih (fun x hx => hu x (List.mem_cons_of_mem c hx))
            (fun x hx => hv x (List.mem_cons_of_mem d hx)) htail
          rw [heq, hrest.1]
          exact ⟨rfl, hrest.2⟩

/-- Joined words that begin with a word and a separator are that word and others. -/
theorem join_eq_append {p : α -> Bool} {sep : α} (hsep : p sep = true) {ws : List (List α)}
    (hws : forall w, w ∈ ws -> IsWord p w) {first rest : List α}
    (hfirst : forall c, c ∈ first -> p c = false)
    (h : join sep ws = (first ++ [sep]) ++ rest) :
    exists others, ws = first :: others ∧ rest = join sep others := by
  rw [List.append_assoc, List.singleton_append] at h
  cases ws with
  | nil =>
      unfold join at h
      rw [List.intercalate_nil] at h
      have hlen := congrArg List.length h
      simp at hlen
  | cons w others =>
      have hw := hws w List.mem_cons_self
      cases others with
      | nil =>
          unfold join at h
          rw [List.intercalate_singleton] at h
          have hmem : sep ∈ w := by
            rw [h]
            exact List.mem_append_right first List.mem_cons_self
          rw [hw.2 sep hmem] at hsep
          cases hsep
      | cons v others =>
          rw [join_cons_cons] at h
          rcases append_cons_cancel hsep hw.2 hfirst h with ⟨heq, hrest⟩
          exact ⟨v :: others, by rw [heq], hrest.symm⟩

/-!
## Counting words
-/

def wordCount (p : α -> Bool) (s : List α) : Nat := (words p s).length

theorem splitOnP_append_cons {p : α -> Bool} {sep : α} (hsep : p sep = true) (u v : List α) :
    (u ++ sep :: v).splitOnP p = u.splitOnP p ++ v.splitOnP p := by
  induction u with
  | nil => rw [List.nil_append, List.splitOnP_cons_eq_if_modifyHead, if_pos hsep,
      List.splitOnP_nil, List.singleton_append]
  | cons c rest ih =>
      rw [List.cons_append, List.splitOnP_cons_eq_if_modifyHead, ih,
        List.splitOnP_cons_eq_if_modifyHead]
      by_cases hc : p c = true
      · rw [if_pos hc, if_pos hc, List.cons_append]
      · rw [if_neg hc, if_neg hc]
        cases hsplit : rest.splitOnP p with
        | nil => exact absurd hsplit (List.splitOnP_ne_nil p rest)
        | cons first others => rfl

theorem wordCount_append_cons {p : α -> Bool} {sep : α} (hsep : p sep = true) (u v : List α) :
    wordCount p (u ++ sep :: v) = wordCount p u + wordCount p v := by
  unfold wordCount words
  rw [splitOnP_append_cons hsep, List.filter_append, List.length_append]

@[simp] theorem wordCount_nil (p : α -> Bool) : wordCount p [] = 0 := by
  unfold wordCount words
  rw [List.splitOnP_nil]
  rfl

theorem IsWord.words {p : α -> Bool} {w : List α} (h : IsWord p w) : words p w = [w] := by
  unfold Strings.words
  rw [List.splitOnP_eq_singleton h.2]
  simp [h.1]

theorem IsWord.wordCount {p : α -> Bool} {w : List α} (h : IsWord p w) : wordCount p w = 1 := by
  unfold Strings.wordCount
  rw [h.words]
  rfl

theorem IsWord.append {p : α -> Bool} {w v : List α} (hw : IsWord p w)
    (hv : forall c, c ∈ v -> p c = false) : IsWord p (w ++ v) := by
  refine ⟨List.append_ne_nil_of_left_ne_nil hw.1 v, ?_⟩
  intro c hc
  rcases List.mem_append.mp hc with hc | hc
  · exact hw.2 c hc
  · exact hv c hc

/-- A word before a separator. -/
theorem IsWord.wordCount_cons {p : α -> Bool} {sep : α} (hsep : p sep = true) {w : List α}
    (h : IsWord p w) (s : List α) :
    Strings.wordCount p (w ++ sep :: s) = 1 + Strings.wordCount p s := by
  rw [wordCount_append_cons hsep, h.wordCount]

/-- A character before a word is part of it. -/
theorem wordCount_cons_cons {p : α -> Bool} {a c : α} (ha : p a = false) (hc : p c = false)
    (rest : List α) : wordCount p (a :: c :: rest) = wordCount p (c :: rest) := by
  unfold wordCount words
  rw [List.splitOnP_cons_eq_if_modifyHead, if_neg (Bool.eq_false_iff.mp ha),
    List.splitOnP_cons_eq_if_modifyHead, if_neg (Bool.eq_false_iff.mp hc)]
  cases hsplit : rest.splitOnP p with
  | nil => rfl
  | cons first others => rfl

theorem wordCount_glued {p : α -> Bool} {w : List α} (hw : forall c, c ∈ w -> p c = false) {c : α}
    (hc : p c = false) (rest : List α) :
    wordCount p (w ++ c :: rest) = wordCount p (c :: rest) := by
  induction w with
  | nil => rfl
  | cons a w ih =>
      have hsolid := ih (fun b hb => hw b (List.mem_cons_of_mem a hb))
      have ha := hw a List.mem_cons_self
      cases w with
      | nil => exact wordCount_cons_cons ha hc rest
      | cons b w =>
          have hb := hw b (List.mem_cons_of_mem a List.mem_cons_self)
          rw [← hsolid]
          exact wordCount_cons_cons ha hb (w ++ c :: rest)

/-- A word before a text is a word of its own, or part of the first word. -/
theorem IsWord.wordCount_append {p : α -> Bool} {w : List α} (h : IsWord p w) (s : List α) :
    Strings.wordCount p (w ++ s) =
      Strings.wordCount p s + (if s.head?.all p then 1 else 0) := by
  cases s with
  | nil =>
      rw [List.append_nil, h.wordCount, wordCount_nil]
      rfl
  | cons c rest =>
      by_cases hc : p c = true
      · rw [h.wordCount_cons hc, List.head?_cons, Option.all_some, if_pos hc]
        have hempty := wordCount_append_cons hc [] rest
        rw [List.nil_append, wordCount_nil] at hempty
        rw [hempty]
        omega
      · rw [wordCount_glued h.2 (Bool.eq_false_iff.mpr hc), List.head?_cons, Option.all_some,
          if_neg hc, Nat.add_zero]

theorem wordCount_join {p : α -> Bool} {sep : α} (hsep : p sep = true) (lines : List (List α)) :
    wordCount p (join sep lines) = (lines.map (wordCount p)).sum := by
  induction lines with
  | nil => exact wordCount_nil p
  | cons line rest ih =>
      cases rest with
      | nil =>
          unfold join
          rw [List.intercalate_singleton, List.map_singleton, List.sum_singleton]
      | cons next others =>
          rw [join_cons_cons, wordCount_append_cons hsep, ih, List.map_cons (l := next :: others),
            List.sum_cons]

end Strings
end Foundation
