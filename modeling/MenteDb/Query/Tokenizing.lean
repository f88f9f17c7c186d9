import MenteDb.Query.Lexemes

/-!
# Whole runs of the lexer

The loop of the lexer stands at the beginning of a lexeme or a blank in every turn.
From that follows when it panics, and how the tokens of a successful run lie in the
text.
-/

namespace MenteDb
namespace Query

open Foundation
open Utf8
open Relation

/-!
## Lexemes are pieces of the text
-/

theorem takeWhile_ne_nil {α : Type} {p : α -> Bool} {v : List α} (h : v.head?.any p = true) :
    v.takeWhile p ≠ [] := by
  cases v with
  | nil => cases h
  | cons c rest =>
      have hc : p c = true := h
      rw [List.takeWhile_cons_of_pos hc]
      exact List.cons_ne_nil _ _

theorem takeWhile_piece {α : Type} (p : α -> Bool) (v : List α) :
    exists rest, v = v.takeWhile p ++ rest :=
  ⟨v.dropWhile p, List.takeWhile_append_dropWhile.symm⟩

/-- Strings have their quotes, and a closing bracket is one. -/
structure Spelled (kind : TokenKind) (w : List Char) : Prop where
  quotes : kind = TokenKind.stringLit -> exists inner, w = '"' :: (inner ++ ['"'])
  bracket : kind = TokenKind.rBracket -> w = [']']

/-- What the lexemes have in common. -/
structure IsLexeme (v : List Char) (kind : TokenKind) (w : List Char) : Prop where
  ne_nil : w ≠ []
  piece : exists rest, v = w ++ rest
  not_eof : kind ≠ TokenKind.eof
  spelled : Spelled kind w

theorem IsLexeme.of_other {v w : List Char} {kind : TokenKind} (hne : w ≠ [])
    (hpiece : exists rest, v = w ++ rest) (heof : kind ≠ TokenKind.eof)
    (hstring : kind ≠ TokenKind.stringLit) (hbracket : kind ≠ TokenKind.rBracket) :
    IsLexeme v kind w :=
  ⟨hne, hpiece, heof, fun h => absurd h hstring, fun h => absurd h hbracket⟩

theorem isLexeme_string {rest w : List Char} {kind : TokenKind}
    (h : stringLexeme ('"' :: rest) = some (kind, w)) : IsLexeme ('"' :: rest) kind w := by
  unfold stringLexeme at h
  rcases Option.map_eq_some_iff.mp h with ⟨inner, hinner, heq⟩
  cases heq
  rcases quoted_prefix hinner with ⟨after, hafter⟩
  refine ⟨List.cons_ne_nil _ _, ⟨after, ?_⟩, by decide, fun _ => ⟨inner, rfl⟩, fun h => by cases h⟩
  rw [List.tail_cons] at hafter
  rw [hafter]
  simp

theorem isLexeme_twoChar {v w : List Char} {kind : TokenKind}
    (h : twoCharLexeme v = some (kind, w)) : IsLexeme v kind w := by
  unfold twoCharLexeme at h
  rcases Option.map_eq_some_iff.mp h with ⟨found, hfound, heq⟩
  cases heq
  rcases twoCharKind_eq_some hfound with ⟨a, b, hw, _, _, heof, hstring, hbracket⟩
  have hne : v.take 2 ≠ [] := by
    rw [hw]
    exact List.cons_ne_nil _ _
  exact IsLexeme.of_other hne ⟨v.drop 2, (List.take_append_drop 2 v).symm⟩ heof hstring hbracket

theorem isLexeme_single {c : Char} {rest w : List Char} {kind : TokenKind}
    (h : singleLexeme c = some (kind, w)) : IsLexeme (c :: rest) kind w := by
  unfold singleLexeme at h
  split at h
  · rename_i hascii
    rcases Option.map_eq_some_iff.mp h with ⟨found, hfound, heq⟩
    cases heq
    rcases singleKind_eq_some hfound with ⟨_, heof, hstring, hbracket⟩
    refine ⟨List.cons_ne_nil _ _, ⟨rest, rfl⟩, heof, fun hkind => absurd hkind hstring, ?_⟩
    intro hkind
    rw [toUInt8_inj hascii rfl (hbracket hkind)]
  · cases h

theorem continuesWord_of_beginsWord {v : List Char} (h : v.head?.any (onChar beginsWord) = true) :
    v.head?.any (onChar continuesWord) = true := by
  cases v with
  | nil => cases h
  | cons c rest =>
      have hc : onChar beginsWord c = true := h
      unfold onChar at hc
      rcases Bool.and_eq_true_iff.mp hc with ⟨hascii, hbegins⟩
      show onChar continuesWord c = true
      unfold onChar continuesWord
      rw [hascii, hbegins]
      rfl

theorem isLexeme_uuid {v w : List Char} {kind : TokenKind}
    (h : uuidLexeme v = some (kind, w)) : IsLexeme v kind w := by
  unfold uuidLexeme at h
  split at h
  · rename_i huuid
    cases h
    refine IsLexeme.of_other ?_ (takeWhile_piece _ v) (by decide) (by decide) (by decide)
    intro hnil
    have hlike := (Bool.and_eq_true_iff.mp huuid).2
    rw [hnil] at hlike
    cases hlike
  · cases h

theorem wholePart_ne_nil {v : List Char} (h : (v.head?.any isDigit ||
    (decide (v.head? = some '-') && v.tail.head?.any isDigit)) = true) : wholePart v ≠ [] := by
  unfold wholePart
  split
  · exact List.cons_ne_nil _ _
  · rename_i hminus
    rw [decide_eq_false hminus, Bool.false_and, Bool.or_false] at h
    exact takeWhile_ne_nil h

theorem isLexeme_number {v w : List Char} {kind : TokenKind}
    (h : numberLexeme v = some (kind, w)) : IsLexeme v kind w := by
  unfold numberLexeme at h
  split at h
  · rename_i hstart
    have hne := wholePart_ne_nil hstart
    have hv := wholePart_prefix v
    generalize v.drop (wholePart v).length = after at hv h
    simp only at h
    split at h
    · rename_i hfrac
      cases h
      have hdot : after.head? = some '.' :=
        of_decide_eq_true (Bool.and_eq_true_iff.mp hfrac).1
      cases after with
      | nil => cases hdot
      | cons d more =>
          have hd : d = '.' := Option.some.inj hdot
          refine IsLexeme.of_other ?_ ⟨more.dropWhile isDigit, ?_⟩ (by decide) (by decide)
            (by decide)
          · intro hnil
            exact hne (List.append_eq_nil_iff.mp hnil).1
          · rw [List.tail_cons, List.append_assoc, List.cons_append,
              List.takeWhile_append_dropWhile, ← hd]
            exact hv
    · cases h
      exact IsLexeme.of_other hne ⟨after, hv⟩ (by decide) (by decide) (by decide)
  · cases h

theorem wordKind_other (w : List Char) : wordKind w ≠ TokenKind.eof ∧
    wordKind w ≠ TokenKind.stringLit ∧ wordKind w ≠ TokenKind.rBracket := by
  have htable : forall entry, entry ∈ keywords -> entry.2 ≠ TokenKind.eof ∧
      entry.2 ≠ TokenKind.stringLit ∧ entry.2 ≠ TokenKind.rBracket := by decide
  unfold wordKind
  cases hlookup : keywords.lookup (lowercase w) with
  | none => exact ⟨by decide, by decide, by decide⟩
  | some kind => exact htable _ (mem_of_lookup hlookup)

theorem isLexeme_word {v w : List Char} {kind : TokenKind}
    (h : wordLexeme v = some (kind, w)) : IsLexeme v kind w := by
  unfold wordLexeme at h
  split at h
  · rename_i hbegins
    cases h
    rcases wordKind_other (wordRun v) with ⟨heof, hstring, hbracket⟩
    exact IsLexeme.of_other (takeWhile_ne_nil (continuesWord_of_beginsWord hbegins))
      (takeWhile_piece _ v) heof hstring hbracket
  · cases h

theorem isLexeme_of_frontLexeme {v w : List Char} {kind : TokenKind}
    (h : frontLexeme v = some (kind, w)) : IsLexeme v kind w := by
  cases v with
  | nil => cases h
  | cons c rest =>
      simp only [frontLexeme] at h
      split at h
      · rename_i hquote
        rw [hquote] at h ⊢
        exact isLexeme_string h
      · rw [Option.or_eq_some_iff, Option.or_eq_some_iff, Option.or_eq_some_iff,
          Option.or_eq_some_iff] at h
        rcases h with (((h | h) | h) | h) | h
        · exact isLexeme_twoChar h
        · exact isLexeme_single h.2
        · exact isLexeme_uuid h.2
        · exact isLexeme_number h.2
        · exact isLexeme_word h.2

/-!
## What a turn can do
-/

/-- The lexer at a character: it panics, reports an error, or moves over a blank or a
lexeme. -/
inductive TurnCase (u v : List Char) : Prop where
  | cut (hcut : cutsCharacter v = true)
      (hturn : lexerTurn (u ++ v) (size u) = Except.error Stop.panic)
  | fail (e : MenteError) (hcut : cutsCharacter v = false) (hdrop : dropLexeme v = none)
      (hturn : lexerTurn (u ++ v) (size u) = Except.error (Stop.error e))
  | blank (c : Char) (rest : List Char) (hv : v = c :: rest) (hblank : isBlank c = true)
      (hcut : cutsCharacter v = false) (hdrop : dropLexeme v = some rest)
      (hturn : lexerTurn (u ++ v) (size u) = Except.ok (none, size (u ++ [c])))
  | lexeme (kind : TokenKind) (w rest : List Char) (hv : v = w ++ rest)
      (hlexeme : IsLexeme v kind w) (hcut : cutsCharacter v = false)
      (hdrop : dropLexeme v = some rest)
      (hturn : lexerTurn (u ++ v) (size u) =
        Except.ok (some ⟨kind, String.ofList w, size u⟩, size (u ++ w)))

theorem turnCase (u : List Char) {v : List Char} (hv : v ≠ []) : TurnCase u v := by
  cases v with
  | nil => exact absurd rfl hv
  | cons c rest =>
      have hturn := lexerTurn_eq u c rest
      by_cases hblank : isBlank c = true
      · have hsize : size (u ++ [c]) = size u + 1 := by
          rw [size_append]
          exact congrArg (size u + ·) (ascii_of_onChar hblank)
        rw [if_pos hblank, ← hsize] at hturn
        refine TurnCase.blank c rest rfl hblank ?_ ?_ hturn
        · simp [cutsCharacter, hblank]
        · simp [dropLexeme, hblank]
      · rw [if_neg hblank] at hturn
        have hdrop : dropLexeme (c :: rest) =
            (frontLexeme (c :: rest)).map (fun found => (c :: rest).drop found.2.length) := by
          simp only [dropLexeme, if_neg hblank]
        by_cases hcut : cutsCharacter (c :: rest) = true
        · rw [if_pos hcut] at hturn
          exact TurnCase.cut hcut hturn
        · rw [if_neg hcut] at hturn
          have hcut' := Bool.eq_false_iff.mpr hcut
          cases hfront : frontLexeme (c :: rest) with
          | none =>
              rw [hfront] at hturn hdrop
              by_cases hquote : c = '"'
              · simp only [if_pos hquote] at hturn
                exact TurnCase.fail _ hcut' hdrop hturn
              · simp only [if_neg hquote] at hturn
                exact TurnCase.fail _ hcut' hdrop hturn
          | some found =>
              rcases found with ⟨kind, w⟩
              rw [hfront] at hturn hdrop
              have hlexeme := isLexeme_of_frontLexeme hfront
              rcases hlexeme.piece with ⟨after, hafter⟩
              refine TurnCase.lexeme kind w after hafter hlexeme hcut' ?_ ?_
              · rw [hdrop, Option.map_some, hafter, List.drop_left]
              · rw [hturn, size_append]
                rfl

/-!
## When the lexer returns
-/

/-- A result or an error. -/
def Returns {α : Type} (outcome : Checked α) : Prop :=
  (exists a, outcome = Except.ok a) ∨ exists e, outcome = Except.error (Stop.error e)

theorem tokenizeLoop_nil (u : List Char) (fuel : Nat) (tokens : List Token) :
    tokenizeLoop u fuel (size u) tokens =
      Except.ok (tokens ++ [⟨TokenKind.eof, "", size u⟩]) := by
  unfold tokenizeLoop
  rw [length_encode, if_neg (Nat.lt_irrefl _)]
  rfl

theorem tokenizeLoop_succ (u : List Char) {v : List Char} (hv : v ≠ []) (fuel : Nat)
    (tokens : List Token) :
    tokenizeLoop (u ++ v) (fuel + 1) (size u) tokens =
      (lexerTurn (u ++ v) (size u)).bind (fun turn =>
        tokenizeLoop (u ++ v) fuel turn.2 (tokens ++ turn.1.toList)) := by
  have hpos : 0 < size v := Nat.pos_of_ne_zero (fun h => hv (size_eq_zero h))
  conv => lhs; unfold tokenizeLoop
  rw [length_encode, size_append, if_pos (by omega)]
  rfl

theorem lexemeStart_cons {v v' : List Char} (h : dropLexeme v = some v') (P : List Char -> Prop) :
    (forall rest, LexemeStart v rest -> P rest) <->
      P v ∧ forall rest, LexemeStart v' rest -> P rest := by
  constructor
  · intro hall
    exact ⟨hall v ReflTransGen.refl, fun rest hrest => hall rest (ReflTransGen.head h hrest)⟩
  · intro hparts rest hrest
    rcases ReflTransGen.cases_head hrest with heq | ⟨next, hnext, hmore⟩
    · rw [← heq]
      exact hparts.1
    · rw [h] at hnext
      cases hnext
      exact hparts.2 rest hmore

theorem lexemeStart_end {v : List Char} (h : dropLexeme v = none) (P : List Char -> Prop) :
    (forall rest, LexemeStart v rest -> P rest) <-> P v := by
  constructor
  · intro hall
    exact hall v ReflTransGen.refl
  · intro hv rest hrest
    rcases ReflTransGen.cases_head hrest with heq | ⟨next, hnext, _⟩
    · rw [← heq]
      exact hv
    · rw [h] at hnext
      cases hnext

theorem tokenizeLoop_returns_iff (fuel : Nat) (u v : List Char) (tokens : List Token)
    (hfuel : v.length <= fuel) :
    Returns (tokenizeLoop (u ++ v) fuel (size u) tokens) <->
      forall rest, LexemeStart v rest -> cutsCharacter rest = false := by
  induction fuel generalizing u v tokens with
  | zero =>
      have hnil : v = [] := List.eq_nil_of_length_eq_zero (Nat.le_zero.mp hfuel)
      rw [hnil, List.append_nil, tokenizeLoop_nil,
        lexemeStart_end rfl (fun rest => cutsCharacter rest = false)]
      exact ⟨fun _ => rfl, fun _ => Or.inl ⟨_, rfl⟩⟩
  | succ fuel ih =>
      by_cases hv : v = []
      · rw [hv, List.append_nil, tokenizeLoop_nil,
          lexemeStart_end rfl (fun rest => cutsCharacter rest = false)]
        exact ⟨fun _ => rfl, fun _ => Or.inl ⟨_, rfl⟩⟩
      · rw [tokenizeLoop_succ u hv]
        cases turnCase u hv with
        | cut hcut hturn =>
            rw [hturn]
            constructor
            · intro h
              rcases h with ⟨_, h⟩ | ⟨_, h⟩
              · cases h
              · cases h
            · intro h
              have hfalse := h v ReflTransGen.refl
              rw [hcut] at hfalse
              cases hfalse
        | fail e hcut hdrop hturn =>
            rw [hturn, lexemeStart_end hdrop (fun rest => cutsCharacter rest = false)]
            exact ⟨fun _ => hcut, fun _ => Or.inr ⟨e, rfl⟩⟩
        | blank c rest heq hblank hcut hdrop hturn =>
            rw [hturn, lexemeStart_cons hdrop (fun rest => cutsCharacter rest = false)]
            have hmore := ih (u ++ [c]) rest (tokens ++ []) (by
              rw [heq, List.length_cons] at hfuel
              omega)
            rw [List.append_assoc, List.singleton_append, ← heq] at hmore
            exact hmore.trans ⟨fun h => ⟨hcut, h⟩, fun h => h.2⟩
        | lexeme kind w rest heq hlexeme hcut hdrop hturn =>
            rw [hturn, lexemeStart_cons hdrop (fun rest => cutsCharacter rest = false)]
            have hw := List.length_pos_of_ne_nil hlexeme.ne_nil
            have hmore := ih (u ++ w) rest (tokens ++ [⟨kind, String.ofList w, size u⟩]) (by
              rw [heq, List.length_append] at hfuel
              omega)
            rw [List.append_assoc, ← heq] at hmore
            exact hmore.trans ⟨fun h => ⟨hcut, h⟩, fun h => h.2⟩

/-- The lexer returns exactly when no lexeme starts with a character that its first two
bytes cut. -/
theorem tokenize_returns_iff (input : String) :
    Returns (tokenize input) <->
      forall rest, LexemeStart input.toList rest -> cutsCharacter rest = false := by
  have hfuel : input.toList.length <= (encode input.toList).length := by
    rw [length_encode]
    exact length_le_size _
  exact tokenizeLoop_returns_iff _ [] input.toList [] hfuel

/-- A one-byte letter before a letter of two bytes. -/
theorem tokenize_cuts_character : ¬ Returns (tokenize "aé") := by
  have hpanic : tokenize "aé" = Except.error Stop.panic := by decide +kernel
  intro h
  rcases h with ⟨_, h⟩ | ⟨_, h⟩
  · rw [hpanic] at h
    cases h
  · rw [hpanic] at h
    cases h

/-!
## How the tokens lie in the text
-/

/-- The first byte behind a token. -/
def Token.stop (t : Token) : Nat := t.position + size t.lexeme.toList

/-- The token has this byte. -/
def Token.Covers (t : Token) (i : Nat) : Prop := t.position <= i ∧ i < t.stop

/-- Tokens in order and without overlap, each the slice at its position, with nothing but
white space before the given byte that no token has. -/
structure TilesUpTo (text : List Char) (upto : Nat) (tokens : List Token) : Prop where
  ordered : tokens.Pairwise (fun a b => a.position < b.position ∧ a.stop <= b.position)
  slices : forall t, t ∈ tokens -> slice text t.position t.stop = some t.lexeme.toList
  gaps : forall i b, i < upto -> (encode text)[i]? = some b ->
    (forall t, t ∈ tokens -> ¬ t.Covers i) -> isAsciiWhitespace b = true

/-- Tokens that tile the text and end with the only end token, behind the last byte. -/
structure Tiles (text : List Char) (tokens : List Token) : Prop
    extends TilesUpTo text (encode text).length tokens where
  ends : exists words last, tokens = words ++ [last] ∧
    last = ⟨TokenKind.eof, "", (encode text).length⟩ ∧
    forall t, t ∈ words -> t.kind ≠ TokenKind.eof

/-- What the loop keeps: the tokens so far tile what was read, and none is the end. -/
structure ReadSoFar (text : List Char) (upto : Nat) (tokens : List Token) : Prop
    extends TilesUpTo text upto tokens where
  within : forall t, t ∈ tokens -> t.position < t.stop ∧ t.stop <= upto
  no_eof : forall t, t ∈ tokens -> t.kind ≠ TokenKind.eof
  spelled : forall t, t ∈ tokens -> Spelled t.kind t.lexeme.toList

theorem readSoFar_nil (text : List Char) : ReadSoFar text 0 [] where
  ordered := List.Pairwise.nil
  slices _ ht := absurd ht List.not_mem_nil
  gaps i _ hi := absurd hi (Nat.not_lt_zero i)
  within _ ht := absurd ht List.not_mem_nil
  no_eof _ ht := absurd ht List.not_mem_nil
  spelled _ ht := absurd ht List.not_mem_nil

theorem ReadSoFar.blank {u rest : List Char} {c : Char} {tokens : List Token}
    (h : ReadSoFar (u ++ c :: rest) (size u) tokens) (hblank : isBlank c = true) :
    ReadSoFar (u ++ c :: rest) (size (u ++ [c])) tokens where
  ordered := h.ordered
  slices := h.slices
  gaps i b hi hbyte huncovered := by
    have hsize : size (u ++ [c]) = size u + 1 := by
      rw [size_append]
      exact congrArg (size u + ·) (ascii_of_onChar hblank)
    rw [hsize] at hi
    rcases Nat.lt_succ_iff_lt_or_eq.mp hi with hlt | heq
    · exact h.gaps i b hlt hbyte huncovered
    · rw [heq, getElem?_encode] at hbyte
      have hany := any_head_encode asciiOnly_isAsciiWhitespace (c :: rest)
      rw [hbyte] at hany
      exact hany.trans hblank
  within t ht := by
    have hle := (h.within t ht).2
    rw [size_append]
    exact ⟨(h.within t ht).1, by omega⟩
  no_eof := h.no_eof
  spelled := h.spelled

theorem ReadSoFar.lexeme {u w rest : List Char} {kind : TokenKind} {tokens : List Token}
    (h : ReadSoFar (u ++ (w ++ rest)) (size u) tokens) (hlexeme : IsLexeme (w ++ rest) kind w) :
    ReadSoFar (u ++ (w ++ rest)) (size (u ++ w))
      (tokens ++ [⟨kind, String.ofList w, size u⟩]) := by
  have hstop : Token.stop ⟨kind, String.ofList w, size u⟩ = size (u ++ w) := by
    unfold Token.stop
    rw [String.toList_ofList, size_append]
  have hpos : 0 < size w :=
    Nat.pos_of_ne_zero (fun hzero => hlexeme.ne_nil (size_eq_zero hzero))
  have hmem : forall {P : Token -> Prop}, (forall t, t ∈ tokens -> P t) ->
      P ⟨kind, String.ofList w, size u⟩ ->
      forall t, t ∈ tokens ++ [⟨kind, String.ofList w, size u⟩] -> P t := by
    intro P hold hnew t ht
    rcases List.mem_append.mp ht with ht | ht
    · exact hold t ht
    · rw [List.mem_singleton.mp ht]
      exact hnew
  refine ⟨⟨?_, ?_, ?_⟩, ?_, ?_, ?_⟩
  · rw [List.pairwise_append]
    refine ⟨h.ordered, List.pairwise_singleton _ _, ?_⟩
    intro a ha b hb
    rw [List.mem_singleton.mp hb]
    have hwithin := h.within a ha
    exact ⟨Nat.lt_of_lt_of_le hwithin.1 hwithin.2, hwithin.2⟩
  · apply hmem h.slices
    rw [hstop, String.toList_ofList]
    exact slice_eq_some.mpr ⟨u, rest, rfl, rfl, (size_append u w).symm⟩
  · intro i b hi hbyte huncovered
    by_cases hlt : i < size u
    · refine h.gaps i b hlt hbyte ?_
      intro t ht
      exact huncovered t (List.mem_append_left _ ht)
    · have hnew := huncovered _ (List.mem_append_right tokens List.mem_cons_self)
      unfold Token.Covers at hnew
      rw [hstop] at hnew
      exact absurd ⟨Nat.not_lt.mp hlt, hi⟩ hnew
  · apply hmem
    · intro t ht
      have hwithin := h.within t ht
      rw [size_append]
      exact ⟨hwithin.1, by omega⟩
    · rw [hstop, size_append]
      exact ⟨Nat.lt_add_of_pos_right hpos, Nat.le_refl _⟩
  · exact hmem h.no_eof hlexeme.not_eof
  · apply hmem h.spelled
    rw [String.toList_ofList]
    exact hlexeme.spelled

/-- The tokens of a run, without the last one, are what the loop has read. -/
theorem readSoFar_of_tokenizeLoop (fuel : Nat) (u v : List Char) {tokens result : List Token}
    (hread : ReadSoFar (u ++ v) (size u) tokens)
    (h : tokenizeLoop (u ++ v) fuel (size u) tokens = Except.ok result) :
    exists words, ReadSoFar (u ++ v) (size (u ++ v)) words ∧
      result = words ++ [⟨TokenKind.eof, "", size (u ++ v)⟩] := by
  induction fuel generalizing u v tokens with
  | zero =>
      by_cases hv : v = []
      · rw [hv, List.append_nil] at h hread ⊢
        rw [tokenizeLoop_nil] at h
        cases h
        exact ⟨tokens, hread, rfl⟩
      · have hpos : 0 < size v := Nat.pos_of_ne_zero (fun hzero => hv (size_eq_zero hzero))
        unfold tokenizeLoop at h
        rw [length_encode, size_append, if_pos (by omega)] at h
        cases h
  | succ fuel ih =>
      by_cases hv : v = []
      · rw [hv, List.append_nil] at h hread ⊢
        rw [tokenizeLoop_nil] at h
        cases h
        exact ⟨tokens, hread, rfl⟩
      · rw [tokenizeLoop_succ u hv] at h
        cases turnCase u hv with
        | cut hcut hturn =>
            rw [hturn] at h
            cases h
        | fail e hcut hdrop hturn =>
            rw [hturn] at h
            cases h
        | blank c rest heq hblank hcut hdrop hturn =>
            rw [hturn] at h
            have htext : u ++ v = u ++ [c] ++ rest := by
              rw [heq, List.append_assoc, List.singleton_append]
            rw [heq] at hread
            have hstep := hread.blank hblank
            rw [← heq, htext] at hstep
            rw [htext] at h ⊢
            have hloop : tokenizeLoop (u ++ [c] ++ rest) fuel (size (u ++ [c])) (tokens ++ []) =
                Except.ok result := h
            rw [List.append_nil] at hloop
            exact ih (u ++ [c]) rest hstep hloop
        | lexeme kind w rest heq hlexeme hcut hdrop hturn =>
            rw [hturn] at h
            have htext : u ++ v = u ++ w ++ rest := by
              rw [heq, List.append_assoc]
            rw [heq] at hread hlexeme
            have hstep := hread.lexeme hlexeme
            rw [← heq, htext] at hstep
            rw [htext] at h ⊢
            exact ih (u ++ w) rest hstep h

theorem readSoFar_of_tokenize {input : String} {tokens : List Token}
    (h : tokenize input = Except.ok tokens) :
    exists words, ReadSoFar input.toList (size input.toList) words ∧
      tokens = words ++ [⟨TokenKind.eof, "", size input.toList⟩] :=
  readSoFar_of_tokenizeLoop _ [] input.toList (readSoFar_nil _) h

/-- The tokens of a query tile it. -/
theorem tokenize_tiles {input : String} {tokens : List Token}
    (h : tokenize input = Except.ok tokens) : Tiles input.toList tokens := by
  rcases readSoFar_of_tokenize h with ⟨words, hread, htokens⟩
  have hempty : (⟨TokenKind.eof, "", size input.toList⟩ : Token).stop = size input.toList := rfl
  rw [htokens]
  refine ⟨⟨?_, ?_, ?_⟩, ?_⟩
  · rw [List.pairwise_append]
    refine ⟨hread.ordered, List.pairwise_singleton _ _, ?_⟩
    intro a ha b hb
    rw [List.mem_singleton.mp hb]
    have hwithin := hread.within a ha
    exact ⟨Nat.lt_of_lt_of_le hwithin.1 hwithin.2, hwithin.2⟩
  · intro t ht
    rcases List.mem_append.mp ht with ht | ht
    · exact hread.slices t ht
    · rw [List.mem_singleton.mp ht, hempty]
      exact slice_eq_some.mpr ⟨input.toList, [], by simp, rfl, rfl⟩
  · intro i b hi hbyte huncovered
    rw [length_encode] at hi
    exact hread.gaps i b hi hbyte (fun t ht => huncovered t (List.mem_append_left _ ht))
  · rw [length_encode]
    exact ⟨words, _, rfl, rfl, hread.no_eof⟩

/-- A filter with a string of two characters. -/
theorem tokenize_tiles_filter :
    tokenize "tag = \"é→\" " = Except.ok [⟨TokenKind.tag, "tag", 0⟩, ⟨TokenKind.eq, "=", 4⟩,
        ⟨TokenKind.stringLit, "\"é→\"", 6⟩, ⟨TokenKind.eof, "", 14⟩] ∧
      Tiles "tag = \"é→\" ".toList [⟨TokenKind.tag, "tag", 0⟩, ⟨TokenKind.eq, "=", 4⟩,
        ⟨TokenKind.stringLit, "\"é→\"", 6⟩, ⟨TokenKind.eof, "", 14⟩] := by
  have hrun : tokenize "tag = \"é→\" " = Except.ok [⟨TokenKind.tag, "tag", 0⟩,
      ⟨TokenKind.eq, "=", 4⟩, ⟨TokenKind.stringLit, "\"é→\"", 6⟩,
      ⟨TokenKind.eof, "", 14⟩] := by decide +kernel
  exact ⟨hrun, tokenize_tiles hrun⟩

end Query
end MenteDb
