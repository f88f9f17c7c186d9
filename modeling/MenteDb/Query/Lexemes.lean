import MenteDb.Query.Lexer
import Mathlib.Logic.Relation

/-!
# Lexemes

The lexical structure of a query in terms of its characters: the lexeme at the front
of a text, and where further lexemes start.  One turn of the lexer at the position of
a character reads the lexeme there, unless the two bytes it looks at first end inside
a character.
-/

namespace MenteDb
namespace Query

open Foundation
open Utf8
open Relation

/-!
## The lexeme at the front of a text
-/

def isBlank (c : Char) : Bool := onChar isAsciiWhitespace c

def isDigit (c : Char) : Bool := onChar isAsciiDigit c

/-- The characters up to the closing quote; a backslash protects the next one. -/
def quoted : List Char -> Option (List Char)
  | [] => none
  | c :: rest =>
      if c = '"' then some []
      else if c = '\\' then
        match rest with
        | [] => none
        | d :: rest => (quoted rest).map (fun w => c :: d :: w)
      else (quoted rest).map (fun w => c :: w)

def stringLexeme (v : List Char) : Option (TokenKind × List Char) :=
  (quoted v.tail).map (fun w => (TokenKind.stringLit, '"' :: (w ++ ['"'])))

def twoCharLexeme (v : List Char) : Option (TokenKind × List Char) :=
  (twoCharKind (v.take 2)).map (fun kind => (kind, v.take 2))

def singleLexeme (c : Char) : Option (TokenKind × List Char) :=
  if c.utf8Size = 1 then (singleKind c.toUInt8).map (fun kind => (kind, [c])) else none

def wordRun (v : List Char) : List Char := v.takeWhile (onChar continuesWord)

def uuidLexeme (v : List Char) : Option (TokenKind × List Char) :=
  if v.head?.any (onChar isAsciiHexdigit) && isUuidLike (wordRun v) then
    some (TokenKind.uuidLit, wordRun v)
  else none

/-- The sign and the digits before a fraction. -/
def wholePart (v : List Char) : List Char :=
  if v.head? = some '-' then '-' :: v.tail.takeWhile isDigit else v.takeWhile isDigit

/-- A fraction needs a digit behind the dot. -/
def hasFraction (rest : List Char) : Bool :=
  decide (rest.head? = some '.') && rest.tail.head?.any isDigit

def numberLexeme (v : List Char) : Option (TokenKind × List Char) :=
  if v.head?.any isDigit || (decide (v.head? = some '-') && v.tail.head?.any isDigit) then
    let rest := v.drop (wholePart v).length
    if hasFraction rest then
      some (TokenKind.floatLit, wholePart v ++ '.' :: rest.tail.takeWhile isDigit)
    else some (TokenKind.integerLit, wholePart v)
  else none

def wordLexeme (v : List Char) : Option (TokenKind × List Char) :=
  if v.head?.any (onChar beginsWord) then some (wordKind (wordRun v), wordRun v) else none

/-- The kind and the characters of the lexeme that a text begins with. -/
def frontLexeme (v : List Char) : Option (TokenKind × List Char) :=
  match v with
  | [] => none
  | c :: _ =>
      if c = '"' then stringLexeme v
      else
        ((((twoCharLexeme v).or (singleLexeme c)).or (uuidLexeme v)).or (numberLexeme v)).or
          (wordLexeme v)

/-- The text behind a blank or a lexeme. -/
def dropLexeme (v : List Char) : Option (List Char) :=
  match v with
  | [] => none
  | c :: rest =>
      if isBlank c then some rest
      else (frontLexeme v).map (fun found => v.drop found.2.length)

/-- Blanks and lexemes lead from the beginning of the text to this rest of it. -/
def LexemeStart (text rest : List Char) : Prop :=
  ReflTransGen (fun v v' => dropLexeme v = some v') text rest

/-- Two bytes end inside a character: an ASCII character before a longer one, or a
character of three or four bytes. -/
def pairEndsInside (c : Char) (rest : List Char) : Bool :=
  decide (2 < c.utf8Size) ||
    (decide (c.utf8Size = 1) && rest.head?.any (fun d => decide (1 < d.utf8Size)))

/-- A text that begins with neither a blank nor a quote, and whose first two bytes end
inside a character. -/
def cutsCharacter (v : List Char) : Bool :=
  match v with
  | [] => false
  | c :: rest => !isBlank c && decide (c ≠ '"') && pairEndsInside c rest

/-!
## Scanning
-/

theorem asciiOnly_isAsciiWhitespace : AsciiOnly isAsciiWhitespace :=
  ((((asciiOnly_beq (by decide)).or (asciiOnly_beq (by decide))).or
    (asciiOnly_beq (by decide))).or (asciiOnly_beq (by decide))).or (asciiOnly_beq (by decide))

theorem asciiOnly_isAsciiDigit : AsciiOnly isAsciiDigit := asciiOnly_range (by decide)

theorem asciiOnly_isAsciiHexdigit : AsciiOnly isAsciiHexdigit :=
  (asciiOnly_isAsciiDigit.or (asciiOnly_range (by decide))).or (asciiOnly_range (by decide))

theorem asciiOnly_beginsWord : AsciiOnly beginsWord :=
  ((asciiOnly_isAsciiDigit.or (asciiOnly_range (by decide))).or
    (asciiOnly_range (by decide))).or (asciiOnly_beq (by decide))

theorem asciiOnly_continuesWord : AsciiOnly continuesWord :=
  asciiOnly_beginsWord.or (asciiOnly_beq (by decide))

theorem advanceWhile_eq {p : UInt8 -> Bool} (hp : AsciiOnly p) (u v : List Char) :
    advanceWhile p (encode (u ++ v)) (size u) = size u + size (v.takeWhile (onChar p)) := by
  unfold advanceWhile
  rw [drop_encode, takeWhile_encode hp, length_encode]

theorem sliceOf_eq (u w z : List Char) :
    sliceOf (u ++ (w ++ z)) (size u) (size u + size w) = Except.ok w := by
  unfold sliceOf
  rw [slice_eq_some.mpr ⟨u, z, rfl, rfl, rfl⟩]

theorem sliceOf_takeWhile (p : Char -> Bool) (u v : List Char) :
    sliceOf (u ++ v) (size u) (size u + size (v.takeWhile p)) = Except.ok (v.takeWhile p) := by
  have hcut : v = v.takeWhile p ++ v.dropWhile p := List.takeWhile_append_dropWhile.symm
  have heq := sliceOf_eq u (v.takeWhile p) (v.dropWhile p)
  rw [← hcut] at heq
  exact heq

/-!
## Strings
-/

theorem stringEnd_high {bs : List UInt8} (h : forall b, b ∈ bs -> 128 <= b.toNat)
    (rest : List UInt8) (pos : Nat) :
    stringEnd (bs ++ rest) pos = stringEnd rest (pos + bs.length) := by
  induction bs generalizing pos with
  | nil => rfl
  | cons b bs ih =>
      have hb := h b List.mem_cons_self
      have hquote : b ≠ '"'.toUInt8 := by
        intro heq
        rw [heq] at hb
        exact absurd hb (by decide)
      have hslash : b ≠ '\\'.toUInt8 := by
        intro heq
        rw [heq] at hb
        exact absurd hb (by decide)
      rw [List.cons_append]
      conv => lhs; unfold stringEnd
      rw [if_neg hquote, if_neg hslash, ih (fun x hx => h x (List.mem_cons_of_mem b hx)),
        List.length_cons]
      congr 1
      omega

/-- A character that is neither a quote nor a backslash is passed over. -/
theorem stringEnd_char {c : Char} (hquote : c ≠ '"') (hslash : c ≠ '\\') (rest : List Char)
    (pos : Nat) :
    stringEnd (encode (c :: rest)) pos = stringEnd (encode rest) (pos + c.utf8Size) := by
  by_cases hc : c.utf8Size = 1
  · rw [encode_cons_ascii hc, hc]
    have hq : c.toUInt8 ≠ '"'.toUInt8 := fun h => hquote (toUInt8_inj hc rfl h)
    have hs : c.toUInt8 ≠ '\\'.toUInt8 := fun h => hslash (toUInt8_inj hc rfl h)
    conv => lhs; unfold stringEnd
    rw [if_neg hq, if_neg hs]
  · rw [encode_cons, stringEnd_high (fun b hb => high_of_mem hc hb),
      String.length_utf8EncodeChar]

/-- A character behind a backslash is passed over. -/
theorem stringEnd_escape (d : Char) (rest : List Char) (pos : Nat) :
    stringEnd (encode ('\\' :: d :: rest)) pos =
      stringEnd (encode rest) (pos + 1 + d.utf8Size) := by
  have hslash : encode ('\\' :: d :: rest) = '\\'.toUInt8 :: encode (d :: rest) :=
    encode_cons_ascii rfl _
  rw [hslash]
  cases hd : String.utf8EncodeChar d with
  | nil => exact absurd hd String.utf8EncodeChar_ne_nil
  | cons b bs =>
      have hlen : bs.length + 1 = d.utf8Size := by
        rw [← String.length_utf8EncodeChar, hd, List.length_cons]
      rw [encode_cons, hd, List.cons_append]
      conv => lhs; unfold stringEnd
      rw [if_neg (by decide), if_pos rfl]
      simp only
      by_cases hwide : d.utf8Size = 1
      · have hnil : bs = [] := List.eq_nil_of_length_eq_zero (by omega)
        rw [hnil, hwide]
        rfl
      · have hhigh : forall x, x ∈ bs -> 128 <= x.toNat := by
          intro x hx
          apply high_of_mem hwide
          rw [hd]
          exact List.mem_cons_of_mem b hx
        rw [stringEnd_high hhigh]
        congr 1
        omega

theorem stringEnd_of_quoted {v w : List Char} (h : quoted v = some w) (pos : Nat) :
    stringEnd (encode v) pos = pos + size w := by
  induction v using quoted.induct generalizing w pos with
  | case1 => cases h
  | case2 rest =>
      unfold quoted at h
      cases h
      rw [encode_cons_ascii rfl]
      unfold stringEnd
      rw [if_pos rfl]
      rfl
  | case3 => cases h
  | case4 d rest hne ih =>
      unfold quoted at h
      rw [if_neg (by decide), if_pos rfl] at h
      rcases Option.map_eq_some_iff.mp h with ⟨w', hw', heq⟩
      rw [stringEnd_escape, ih hw', ← heq, size_cons, size_cons, Nat.add_assoc, Nat.add_assoc]
      rfl
  | case5 c rest hquote hslash ih =>
      unfold quoted at h
      rw [if_neg hquote, if_neg hslash] at h
      rcases Option.map_eq_some_iff.mp h with ⟨w', hw', heq⟩
      rw [stringEnd_char hquote hslash, ih hw', ← heq, size_cons, Nat.add_assoc]

theorem stringEnd_of_not_quoted {v : List Char} (h : quoted v = none) (pos : Nat) :
    pos + size v <= stringEnd (encode v) pos := by
  induction v using quoted.induct generalizing pos with
  | case1 => exact Nat.le_refl _
  | case2 rest =>
      unfold quoted at h
      cases h
  | case3 => exact Nat.le_succ _
  | case4 d rest hne ih =>
      unfold quoted at h
      rw [if_neg (by decide), if_pos rfl] at h
      have hle := ih (Option.map_eq_none_iff.mp h) (pos + 1 + d.utf8Size)
      rw [stringEnd_escape, size_cons, size_cons]
      have hone : Char.utf8Size '\\' = 1 := rfl
      omega
  | case5 c rest hquote hslash ih =>
      unfold quoted at h
      rw [if_neg hquote, if_neg hslash] at h
      have hle := ih (Option.map_eq_none_iff.mp h) (pos + c.utf8Size)
      rw [stringEnd_char hquote hslash, size_cons]
      omega

/-- A closed string stands at the front of the text. -/
theorem quoted_prefix {v w : List Char} (h : quoted v = some w) :
    exists rest, v = w ++ '"' :: rest := by
  induction v using quoted.induct generalizing w with
  | case1 => cases h
  | case2 rest =>
      unfold quoted at h
      cases h
      exact ⟨rest, rfl⟩
  | case3 => cases h
  | case4 d rest hne ih =>
      unfold quoted at h
      rw [if_neg (by decide), if_pos rfl] at h
      rcases Option.map_eq_some_iff.mp h with ⟨w', hw', heq⟩
      rcases ih hw' with ⟨rest', hrest⟩
      exact ⟨rest', by rw [← heq, hrest]; rfl⟩
  | case5 c rest hquote hslash ih =>
      unfold quoted at h
      rw [if_neg hquote, if_neg hslash] at h
      rcases Option.map_eq_some_iff.mp h with ⟨w', hw', heq⟩
      rcases ih hw' with ⟨rest', hrest⟩
      exact ⟨rest', by rw [← heq, hrest]; rfl⟩

/-!
## The readers
-/

def tokenAt (pos : Nat) (lexeme : TokenKind × List Char) : Token × Nat :=
  (⟨lexeme.1, String.ofList lexeme.2, pos⟩, pos + size lexeme.2)

theorem readString_eq (u rest : List Char) :
    readString (u ++ '"' :: rest) (size u) =
      match stringLexeme ('"' :: rest) with
      | some lexeme => Except.ok (tokenAt (size u) lexeme)
      | none => queryError "unterminated string literal" := by
  have hsize : size u + 1 = size (u ++ ['"']) := by
    rw [size_append]
    rfl
  have hdrop : (encode (u ++ '"' :: rest)).drop (size u + 1) = encode rest := by
    rw [List.append_cons u '"' rest, hsize, drop_encode]
  have hlength : (encode (u ++ '"' :: rest)).length = size u + 1 + size rest := by
    rw [length_encode, size_append, size_cons, ← Nat.add_assoc]
    rfl
  unfold readString stringLexeme
  simp only [hdrop, hlength, List.tail_cons]
  cases hquoted : quoted rest with
  | none =>
      rw [if_pos (stringEnd_of_not_quoted hquoted _)]
      rfl
  | some w =>
      rcases quoted_prefix hquoted with ⟨z, hz⟩
      have hrest : size rest = size w + (1 + size z) := by
        rw [hz, size_append, size_cons]
        rfl
      have hslice := sliceOf_eq u ('"' :: (w ++ ['"'])) z
      have htext : u ++ ('"' :: (w ++ ['"']) ++ z) = u ++ '"' :: rest := by
        rw [hz]
        simp
      have hstop : size ('"' :: (w ++ ['"'])) = 1 + size w + 1 := by
        rw [size_cons, size_append, Nat.add_assoc]
        rfl
      rw [htext, hstop, ← Nat.add_assoc, ← Nat.add_assoc] at hslice
      rw [stringEnd_of_quoted hquoted, if_neg (by omega), hslice]
      simp only [Option.map_some, tokenAt, hstop]
      rw [← Nat.add_assoc, ← Nat.add_assoc]
      rfl

/-- The operators of two characters are ASCII. -/
theorem twoCharKind_eq_some {w : List Char} {kind : TokenKind} (h : twoCharKind w = some kind) :
    exists a b, w = [a, b] ∧ a.utf8Size = 1 ∧ b.utf8Size = 1 ∧ kind ≠ TokenKind.eof ∧
      kind ≠ TokenKind.stringLit ∧ kind ≠ TokenKind.rBracket := by
  unfold twoCharKind at h
  split at h
  · rename_i hw
    cases h
    exact ⟨_, _, hw, rfl, rfl, by decide, by decide, by decide⟩
  split at h
  · rename_i hw
    cases h
    exact ⟨_, _, hw, rfl, rfl, by decide, by decide, by decide⟩
  split at h
  · rename_i hw
    cases h
    exact ⟨_, _, hw, rfl, rfl, by decide, by decide, by decide⟩
  split at h
  · rename_i hw
    cases h
    exact ⟨_, _, hw, rfl, rfl, by decide, by decide, by decide⟩
  split at h
  · rename_i hw
    cases h
    exact ⟨_, _, hw, rfl, rfl, by decide, by decide, by decide⟩
  cases h

theorem twoCharKind_singleton (c : Char) : twoCharKind [c] = none := by
  cases h : twoCharKind [c] with
  | none => rfl
  | some kind =>
      rcases twoCharKind_eq_some h with ⟨a, b, heq, _⟩
      cases heq

theorem twoCharLexeme_of_wide {c : Char} (hc : c.utf8Size ≠ 1) (rest : List Char) :
    twoCharLexeme (c :: rest) = none := by
  unfold twoCharLexeme
  cases h : twoCharKind ((c :: rest).take 2) with
  | none => rfl
  | some kind =>
      rcases twoCharKind_eq_some h with ⟨a, b, heq, ha, _⟩
      rw [List.take_succ_cons] at heq
      rw [(List.cons.inj heq).1] at hc
      exact absurd ha hc

theorem map_twoCharKind (w : List Char) (pos : Nat) :
    (twoCharKind w).map (fun kind => ((⟨kind, String.ofList w, pos⟩, pos + 2) : Token × Nat)) =
      ((twoCharKind w).map (fun kind => (kind, w))).map (tokenAt pos) := by
  cases h : twoCharKind w with
  | none => rfl
  | some kind =>
      rcases twoCharKind_eq_some h with ⟨a, b, hw, ha, hb, _⟩
      have hsize : size w = 2 := by
        rw [hw, size_cons, size_cons, ha, hb]
        rfl
      simp only [Option.map_some, tokenAt, hsize]

theorem readTwoChar_eq (u : List Char) (c : Char) (rest : List Char) :
    readTwoChar (u ++ c :: rest) (size u) =
      if pairEndsInside c rest then Except.error Stop.panic
      else Except.ok ((twoCharLexeme (c :: rest)).map (tokenAt (size u))) := by
  have hpos := Char.utf8Size_pos c
  have hlength : (encode (u ++ c :: rest)).length = size u + (c.utf8Size + size rest) := by
    rw [length_encode, size_append, size_cons]
  unfold readTwoChar sliceOf
  rw [hlength, slice_append]
  by_cases hc : c.utf8Size = 1
  · unfold pairEndsInside
    cases rest with
    | nil =>
        rw [if_neg (by simp [hc]), if_neg (by simp [hc])]
        unfold twoCharLexeme
        rw [List.take_of_length_le (by simp), twoCharKind_singleton]
        rfl
    | cons d rest =>
        have hdpos := Char.utf8Size_pos d
        rw [size_cons, if_pos (by omega)]
        by_cases hd : d.utf8Size = 1
        · rw [if_neg (by simp [hc, hd])]
          have htake : takeBytes (c :: d :: rest) 2 = some [c, d] :=
            takeBytes_eq_some.mpr ⟨by simp [hc, hd], rest, rfl⟩
          rw [htake]
          exact congrArg Except.ok (map_twoCharKind [c, d] (size u))
        · have hwide : 1 < d.utf8Size := by omega
          rw [if_pos (by simp [hc, hwide])]
          have htake : takeBytes (c :: d :: rest) 2 = none := by
            rw [takeBytes_cons_of_le (by omega), hc, takeBytes_cons_of_lt (by omega) hwide]
            rfl
          rw [htake]
          rfl
  · rw [if_pos (by omega), twoCharLexeme_of_wide hc]
    unfold pairEndsInside
    by_cases htwo : c.utf8Size = 2
    · rw [if_neg (by simp [htwo])]
      have htake : takeBytes (c :: rest) 2 = some [c] :=
        takeBytes_eq_some.mpr ⟨by simp [htwo], rest, rfl⟩
      rw [htake]
      show Except.ok ((twoCharKind [c]).map _) = _
      rw [twoCharKind_singleton]
      rfl
    · have hwide : 2 < c.utf8Size := by omega
      rw [if_pos (by simp [hwide])]
      rw [takeBytes_cons_of_lt (by omega) hwide]
      rfl

theorem mem_of_lookup {α β : Type} [BEq α] [LawfulBEq α] {table : List (α × β)} {key : α}
    {value : β} (h : table.lookup key = some value) : (key, value) ∈ table := by
  rcases List.lookup_eq_some_iff.mp h with ⟨before, after, htable, _⟩
  rw [htable]
  exact List.mem_append_right before List.mem_cons_self

/-- The operators of one character are ASCII. -/
theorem singleKind_eq_some {b : UInt8} {kind : TokenKind} (h : singleKind b = some kind) :
    b.toNat < 128 ∧ kind ≠ TokenKind.eof ∧ kind ≠ TokenKind.stringLit ∧
      (kind = TokenKind.rBracket -> b = ']'.toUInt8) := by
  have htable : forall entry, entry ∈ singleKinds -> entry.1.toNat < 128 ∧
      entry.2 ≠ TokenKind.eof ∧ entry.2 ≠ TokenKind.stringLit ∧
      (entry.2 = TokenKind.rBracket -> entry.1 = ']'.toUInt8) := by decide
  exact htable (b, kind) (mem_of_lookup h)

theorem singleKind_of_high {b : UInt8} (h : 128 <= b.toNat) : singleKind b = none := by
  cases hkind : singleKind b with
  | none => rfl
  | some kind => exact absurd (singleKind_eq_some hkind).1 (Nat.not_lt.mpr h)

/-- The first byte of a character, as the byte tests see it. -/
structure FirstByte (c : Char) (b : UInt8) : Prop where
  mem : b ∈ String.utf8EncodeChar c
  test : forall p, AsciiOnly p -> p b = onChar p c

theorem FirstByte.eq_of_ascii {c : Char} {b : UInt8} (h : FirstByte c b) (hc : c.utf8Size = 1) :
    b = c.toUInt8 := by
  have hmem := h.mem
  rw [String.utf8EncodeChar_eq_singleton hc] at hmem
  exact List.mem_singleton.mp hmem

theorem readSingle_eq (u : List Char) {c : Char} {b : UInt8} (hb : FirstByte c b)
    (rest : List Char) :
    readSingle (u ++ c :: rest) (size u) b =
      Except.ok ((singleLexeme c).map (tokenAt (size u))) := by
  unfold readSingle singleLexeme
  by_cases hc : c.utf8Size = 1
  · rw [if_pos hc, hb.eq_of_ascii hc]
    cases singleKind c.toUInt8 with
    | none => rfl
    | some kind =>
        have hslice := sliceOf_eq u [c] rest
        have hsize : size [c] = 1 := hc
        rw [hsize, List.singleton_append] at hslice
        rw [hslice]
        simp only [Option.map_some, tokenAt, hsize]
        rfl
  · rw [if_neg hc, singleKind_of_high (high_of_mem hc hb.mem)]
    rfl

theorem readUuid_eq (u : List Char) {c : Char} {b : UInt8} (hb : FirstByte c b)
    (rest : List Char) :
    readUuid (u ++ c :: rest) (size u) b =
      Except.ok ((uuidLexeme (c :: rest)).map (tokenAt (size u))) := by
  have hhead : ((c :: rest).head?.any (onChar isAsciiHexdigit)) = isAsciiHexdigit b :=
    (hb.test _ asciiOnly_isAsciiHexdigit).symm
  unfold readUuid uuidLexeme wordRun
  simp only [hhead, advanceWhile_eq asciiOnly_continuesWord, sliceOf_takeWhile]
  cases isAsciiHexdigit b with
  | false => rfl
  | true =>
      rw [Bool.true_and, if_pos rfl]
      by_cases huuid : isUuidLike ((c :: rest).takeWhile (onChar continuesWord)) = true
      · rw [if_pos huuid]
        exact if_pos huuid
      · rw [if_neg huuid]
        exact if_neg huuid

theorem readWord_eq (u : List Char) {c : Char} {b : UInt8} (hb : FirstByte c b)
    (rest : List Char) :
    readWord (u ++ c :: rest) (size u) b =
      Except.ok ((wordLexeme (c :: rest)).map (tokenAt (size u))) := by
  have hhead : ((c :: rest).head?.any (onChar beginsWord)) = beginsWord b :=
    (hb.test _ asciiOnly_beginsWord).symm
  unfold readWord wordLexeme wordRun
  simp only [hhead, advanceWhile_eq asciiOnly_continuesWord, sliceOf_takeWhile]
  cases beginsWord b with
  | false => rfl
  | true => rfl

/-!
## Numbers
-/

theorem wholePart_prefix (v : List Char) :
    v = wholePart v ++ v.drop (wholePart v).length := by
  have hcut : exists rest, v = wholePart v ++ rest := by
    unfold wholePart
    split
    · rename_i hminus
      cases v with
      | nil => cases hminus
      | cons c tail =>
          have hc : c = '-' := Option.some.inj hminus
          refine ⟨tail.dropWhile isDigit, ?_⟩
          rw [hc, List.tail_cons, List.cons_append, List.takeWhile_append_dropWhile]
    · exact ⟨v.dropWhile isDigit, List.takeWhile_append_dropWhile.symm⟩
  rcases hcut with ⟨rest, hrest⟩
  have hdrop : ((wholePart v) ++ rest).drop (wholePart v).length = rest := List.drop_left
  rw [← hrest] at hdrop
  rw [hdrop]
  exact hrest

theorem getElem?_encode_eq (u v : List Char) {a : Char} (ha : a.utf8Size = 1) :
    (encode (u ++ v))[size u]? = some a.toUInt8 <-> v.head? = some a := by
  rw [getElem?_encode]
  exact head_encode_eq ha v

theorem digitAt_eq (u v : List Char) :
    digitAt (encode (u ++ v)) (size u) = v.head?.any isDigit := by
  unfold digitAt
  rw [getElem?_encode]
  exact any_head_encode asciiOnly_isAsciiDigit v

/-- The digits behind an optional sign. -/
theorem wholeEnd_eq (u v : List Char) :
    advanceWhile isAsciiDigit (encode (u ++ v))
        (if (encode (u ++ v))[size u]? = some '-'.toUInt8 then size u + 1 else size u) =
      size (u ++ wholePart v) := by
  unfold wholePart
  by_cases hminus : v.head? = some '-'
  · rw [if_pos ((getElem?_encode_eq u v rfl).mpr hminus), if_pos hminus]
    cases v with
    | nil => cases hminus
    | cons c tail =>
        have hc : c = '-' := Option.some.inj hminus
        have hsize : size u + 1 = size (u ++ ['-']) := by
          rw [size_append]
          rfl
        rw [hc, List.append_cons u '-' tail, hsize, advanceWhile_eq asciiOnly_isAsciiDigit,
          ← size_append, List.append_assoc]
        rfl
  · rw [if_neg (fun h => hminus ((getElem?_encode_eq u v rfl).mp h)), if_neg hminus,
      advanceWhile_eq asciiOnly_isAsciiDigit, size_append]
    rfl

theorem numberEnd_eq (u v : List Char) :
    numberEnd (encode (u ++ v)) (size u) =
      if hasFraction (v.drop (wholePart v).length) then
        (size u + size (wholePart v ++
          '.' :: (v.drop (wholePart v).length).tail.takeWhile isDigit), true)
      else (size u + size (wholePart v), false) := by
  unfold numberEnd
  simp only
  rw [wholeEnd_eq]
  generalize hrest : v.drop (wholePart v).length = rest
  have hv : u ++ v = (u ++ wholePart v) ++ rest := by
    rw [List.append_assoc, ← hrest, ← wholePart_prefix v]
  rw [hv]
  unfold hasFraction
  by_cases hdot : rest.head? = some '.'
  · cases rest with
    | nil => cases hdot
    | cons c more =>
        have hc : c = '.' := Option.some.inj hdot
        have hsize : size (u ++ wholePart v) + 1 = size (u ++ wholePart v ++ ['.']) := by
          rw [size_append (u ++ wholePart v)]
          rfl
        rw [decide_eq_true ((getElem?_encode_eq _ _ rfl).mpr hdot), decide_eq_true hdot,
          Bool.true_and, Bool.true_and, List.tail_cons, hc,
          List.append_cons (u ++ wholePart v) '.' more, hsize, digitAt_eq,
          advanceWhile_eq asciiOnly_isAsciiDigit]
        simp only [size_append, size_cons, size_nil, Nat.add_assoc, Nat.zero_add]
        rfl
  · have hbyte : ¬ (encode (u ++ wholePart v ++ rest))[size (u ++ wholePart v)]? =
        some '.'.toUInt8 := fun h => hdot ((getElem?_encode_eq _ _ rfl).mp h)
    rw [decide_eq_false hbyte, decide_eq_false hdot, Bool.false_and, Bool.false_and, size_append]
    rfl

theorem readNumber_eq (u : List Char) {c : Char} {b : UInt8} (hb : FirstByte c b)
    (rest : List Char) :
    readNumber (u ++ c :: rest) (size u) b =
      Except.ok ((numberLexeme (c :: rest)).map (tokenAt (size u))) := by
  have hdigit : isAsciiDigit b = isDigit c := hb.test _ asciiOnly_isAsciiDigit
  have hminus : (b == '-'.toUInt8) = decide (c = '-') := by
    rw [hb.test (fun b => b == '-'.toUInt8) (asciiOnly_beq (by decide)), onChar_beq rfl]
  have hnext : c = '-' -> digitAt (encode (u ++ c :: rest)) (size u + 1) =
      rest.head?.any isDigit := by
    intro hc
    have hsize : size u + 1 = size (u ++ ['-']) := by
      rw [size_append]
      rfl
    rw [hc, List.append_cons u '-' rest, hsize, digitAt_eq]
  have hstart : (isAsciiDigit b ||
      b == '-'.toUInt8 && digitAt (encode (u ++ c :: rest)) (size u + 1)) =
        ((c :: rest).head?.any isDigit || decide ((c :: rest).head? = some '-') &&
          (c :: rest).tail.head?.any isDigit) := by
    rw [hdigit, hminus]
    by_cases hc : c = '-'
    · rw [hnext hc, hc]
      rfl
    · have hne : ¬ (c :: rest).head? = some '-' := fun h => hc (Option.some.inj h)
      rw [decide_eq_false hc, decide_eq_false hne]
      rfl
  unfold readNumber numberLexeme
  simp only [hstart, numberEnd_eq]
  split
  · have hv := wholePart_prefix (c :: rest)
    generalize hrest : (c :: rest).drop (wholePart (c :: rest)).length = after at hv
    by_cases hfrac : hasFraction after = true
    · simp only [hfrac, if_true]
      have hdot : after.head? = some '.' :=
        of_decide_eq_true (Bool.and_eq_true_iff.mp hfrac).1
      cases after with
      | nil => cases hdot
      | cons d more =>
          have hd : d = '.' := Option.some.inj hdot
          have hmore : more = more.takeWhile isDigit ++ more.dropWhile isDigit :=
            List.takeWhile_append_dropWhile.symm
          have hslice := sliceOf_eq u (wholePart (c :: rest) ++ '.' :: more.takeWhile isDigit)
            (more.dropWhile isDigit)
          rw [List.append_assoc (wholePart (c :: rest)), List.cons_append, ← hmore, ← hd, ← hv]
            at hslice
          rw [List.tail_cons, ← hd, hslice]
          rfl
    · simp only [hfrac, Bool.false_eq_true, if_false]
      have hslice := sliceOf_eq u (wholePart (c :: rest)) after
      rw [← hv] at hslice
      rw [hslice]
      rfl
  · rfl

/-!
## One turn
-/

/-- Readers that only say what they found. -/
theorem firstOf_map (pos : Nat) (lexemes : List (Option (TokenKind × List Char))) :
    firstOf (lexemes.map (fun lexeme => Except.ok (lexeme.map (tokenAt pos)))) =
      Except.ok ((lexemes.foldl Option.or none).map (tokenAt pos)) := by
  induction lexemes with
  | nil => rfl
  | cons lexeme rest ih =>
      cases lexeme with
      | none => exact ih
      | some found =>
          have hfold : (rest.foldl Option.or (some found)) = some found := by
            clear ih
            induction rest with
            | nil => rfl
            | cons next rest ih => exact ih
          show Except.ok (some (tokenAt pos found)) = Except.ok ((rest.foldl Option.or _).map _)
          rw [Option.none_or, hfold]
          rfl

/-- What one turn of the lexer does at the position of a character. -/
theorem lexerTurn_eq (u : List Char) (c : Char) (rest : List Char) :
    lexerTurn (u ++ c :: rest) (size u) =
      if isBlank c then Except.ok (none, size u + 1)
      else if cutsCharacter (c :: rest) then Except.error Stop.panic
      else
        match frontLexeme (c :: rest) with
        | some lexeme => Except.ok (some (tokenAt (size u) lexeme).1, (tokenAt (size u) lexeme).2)
        | none =>
            if c = '"' then queryError "unterminated string literal"
            else queryError (unexpectedCharacter
              ((encode (c :: rest)).headD 0) (size u)) := by
  rcases test_head c rest with ⟨b, bytes, henc, hmem, htest⟩
  have hb : FirstByte c b := ⟨hmem, htest⟩
  have hblank : isAsciiWhitespace b = isBlank c := htest _ asciiOnly_isAsciiWhitespace
  have hquote : (b = '"'.toUInt8) = (c = '"') := by
    have hbeq := htest (fun b => b == '"'.toUInt8) (asciiOnly_beq (by decide))
    rw [onChar_beq rfl] at hbeq
    rw [eq_iff_iff, ← beq_iff_eq, hbeq, decide_eq_true_iff]
  unfold lexerTurn
  rw [drop_encode, henc]
  simp only [hblank, hquote]
  by_cases hc : isBlank c = true
  · rw [if_pos hc, if_pos hc]
    rfl
  · rw [if_neg hc, if_neg hc]
    by_cases hq : c = '"'
    · have hcuts : cutsCharacter (c :: rest) = false := by
        unfold cutsCharacter
        simp [hq]
      rw [if_pos hq, hcuts, if_neg Bool.false_ne_true, hq, readString_eq]
      unfold frontLexeme
      rw [if_pos rfl]
      cases stringLexeme ('"' :: rest) with
      | none => rfl
      | some lexeme => rfl
    · have hcuts : cutsCharacter (c :: rest) = pairEndsInside c rest := by
        unfold cutsCharacter
        simp [hq, hc]
      rw [if_neg hq, hcuts, readTwoChar_eq, readSingle_eq u hb, readUuid_eq u hb,
        readNumber_eq u hb, readWord_eq u hb]
      by_cases hinside : pairEndsInside c rest = true
      · rw [if_pos hinside, if_pos hinside]
        rfl
      · rw [if_neg hinside, if_neg hinside]
        have hfirst := firstOf_map (size u) [twoCharLexeme (c :: rest), singleLexeme c,
          uuidLexeme (c :: rest), numberLexeme (c :: rest), wordLexeme (c :: rest)]
        have hfront : frontLexeme (c :: rest) = [twoCharLexeme (c :: rest), singleLexeme c,
            uuidLexeme (c :: rest), numberLexeme (c :: rest),
            wordLexeme (c :: rest)].foldl Option.or none := by
          simp only [frontLexeme, if_neg hq, List.foldl_cons, List.foldl_nil, Option.none_or]
        rw [← hfront] at hfirst
        simp only [List.map_cons, List.map_nil] at hfirst
        rw [hfirst]
        cases frontLexeme (c :: rest) with
        | none =>
            rw [if_neg hq]
            rfl
        | some lexeme => rfl

end Query
end MenteDb
