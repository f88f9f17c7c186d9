import MenteDb.Query.Acceptance

/-!
# Quoted texts

A tag in a query goes through the lexer, the parser and the planner.  The lexer knows
that a backslash protects a quote; the parser takes the text between the quotes as it
stands, and takes it for an identifier when it spells one.
-/

namespace MenteDb
namespace Query

open Foundation
open Utf8

variable {F : Type}

/-!
## The entry point
-/

/-- The plan of the text of a query. -/
def mqlParse [Scalar F] (ops : LiteralOps F) (input : String) : Checked (QueryPlan F) := do
  let tokens <- tokenize input
  let statement <- parse ops tokens
  match plan statement with
  | Except.ok found => return found
  | Except.error e => Except.error (Stop.error e)

/-- A backslash before each backslash and each quote. -/
def quote (s : List Char) : List Char :=
  s.flatMap (fun c => if c = '"' ∨ c = '\\' then ['\\', c] else [c])

def tagQuery (s : String) : String :=
  "RECALL memories WHERE tag = \"" ++ String.ofList (quote s.toList) ++ "\""

/-!
## Texts and tokens
-/

/-- The tokens of the rest of a text, lexeme by lexeme, behind what was read. -/
inductive Lexes : List Char -> List Char -> List Token -> Prop where
  | done {u : List Char} : Lexes u [] []
  | blank {u rest : List Char} {c : Char} {tokens : List Token} : isBlank c = true ->
      Lexes (u ++ [c]) rest tokens -> Lexes u (c :: rest) tokens
  | lexeme {u w rest : List Char} {c : Char} {kind : TokenKind} {tokens : List Token} :
      isBlank c = false -> cutsCharacter (c :: (w ++ rest)) = false ->
      frontLexeme (c :: (w ++ rest)) = some (kind, c :: w) -> Lexes (u ++ c :: w) rest tokens ->
        Lexes u (c :: (w ++ rest)) (⟨kind, String.ofList (c :: w), size u⟩ :: tokens)

theorem tokenizeLoop_of_lexes {u v : List Char} {tokens : List Token} (h : Lexes u v tokens)
    (fuel : Nat) (read : List Token) (hfuel : v.length <= fuel) :
    tokenizeLoop (u ++ v) fuel (size u) read =
      Except.ok (read ++ tokens ++ [⟨TokenKind.eof, "", size (u ++ v)⟩]) := by
  induction h generalizing fuel read with
  | done => rw [List.append_nil, List.append_nil, tokenizeLoop_nil]
  | @blank u rest c tokens hblank _ ih =>
      cases fuel with
      | zero => cases hfuel
      | succ fuel =>
          have hsize : size u + 1 = size (u ++ [c]) := by
            rw [size_append]
            exact congrArg (size u + ·) (ascii_of_onChar hblank).symm
          have hmore := ih fuel read (Nat.le_of_succ_le_succ hfuel)
          rw [List.append_assoc, List.singleton_append] at hmore
          rw [tokenizeLoop_succ u (List.cons_ne_nil c rest), lexerTurn_eq, if_pos hblank, hsize]
          show tokenizeLoop _ fuel _ (read ++ []) = _
          rw [List.append_nil]
          exact hmore
  | @lexeme u w rest c kind tokens hblank hcut hfront _ ih =>
      cases fuel with
      | zero => cases hfuel
      | succ fuel =>
          have hshort : rest.length <= fuel := by
            rw [List.length_cons, List.length_append] at hfuel
            omega
          have hmore := ih fuel (read ++ [⟨kind, String.ofList (c :: w), size u⟩]) hshort
          rw [List.append_assoc, List.cons_append, size_append] at hmore
          rw [tokenizeLoop_succ u (List.cons_ne_nil _ _), lexerTurn_eq, if_neg (by simp [hblank]),
            if_neg (by simp [hcut]), hfront, List.append_cons read]
          exact hmore

theorem tokenize_of_lexes {input : String} {tokens : List Token}
    (h : Lexes [] input.toList tokens) :
    tokenize input = Except.ok (tokens ++ [⟨TokenKind.eof, "", size input.toList⟩]) := by
  refine tokenizeLoop_of_lexes h _ [] ?_
  rw [length_encode]
  exact length_le_size _

/-!
## Words and strings
-/

/-- A character that begins a word and nothing else. -/
def startsWordOnly (c : Char) : Bool :=
  onChar beginsWord c && !onChar isAsciiHexdigit c && !isDigit c && decide (c ≠ '"') &&
    decide (c ≠ '-') && (singleLexeme c).isNone && !isBlank c

theorem frontLexeme_word {c d : Char} {w rest : List Char} (hc : startsWordOnly c = true)
    (htwo : twoCharKind [c, d] = none) (hw : (c :: d :: w).all (onChar continuesWord) = true)
    (hrest : rest.head?.any (onChar continuesWord) = false) :
    frontLexeme (c :: (d :: w ++ rest)) = some (wordKind (c :: d :: w), c :: d :: w) := by
  unfold startsWordOnly at hc
  simp only [Bool.and_eq_true, Bool.not_eq_true', decide_eq_true_eq,
    Option.isNone_iff_eq_none] at hc
  rcases hc with ⟨⟨⟨⟨⟨⟨hbegins, hhex⟩, hdigit⟩, hquote⟩, hminus⟩, hsingle⟩, _⟩
  have hrun : wordRun (c :: (d :: w ++ rest)) = c :: d :: w := by
    show (c :: d :: w ++ rest).takeWhile (onChar continuesWord) = c :: d :: w
    rw [List.takeWhile_append_of_pos (List.all_eq_true.mp hw)]
    cases rest with
    | nil => exact List.append_nil _
    | cons e rest =>
        have he : onChar continuesWord e = false := hrest
        rw [List.takeWhile_cons, he]
        exact List.append_nil _
  have hpair : twoCharLexeme (c :: (d :: w ++ rest)) = none := by
    show (twoCharKind [c, d]).map _ = none
    rw [htwo]
    rfl
  have huuid : uuidLexeme (c :: (d :: w ++ rest)) = none := by
    unfold uuidLexeme
    rw [List.head?_cons, Option.any_some, hhex]
    rfl
  have hnumber : numberLexeme (c :: (d :: w ++ rest)) = none := by
    unfold numberLexeme
    rw [if_neg]
    simp [hdigit, hminus]
  have hword : wordLexeme (c :: (d :: w ++ rest)) = some (wordKind (c :: d :: w), c :: d :: w) := by
    unfold wordLexeme
    rw [List.head?_cons, Option.any_some, if_pos hbegins, hrun]
  unfold frontLexeme
  simp only [if_neg hquote, hpair, hsingle, huuid, hnumber, hword, Option.none_or]

theorem Lexes.word {u rest : List Char} {c d : Char} {w : List Char} {kind : TokenKind}
    {tokens : List Token} (hc : startsWordOnly c = true) (htwo : twoCharKind [c, d] = none)
    (hd : d.utf8Size = 1) (hw : (c :: d :: w).all (onChar continuesWord) = true)
    (hkind : wordKind (c :: d :: w) = kind) (hrest : Lexes (u ++ c :: d :: w ++ [' ']) rest tokens) :
    Lexes u (c :: (d :: w ++ ' ' :: rest))
      (⟨kind, String.ofList (c :: d :: w), size u⟩ :: tokens) := by
  have hstop : (' ' :: rest).head?.any (onChar continuesWord) = false := rfl
  have hfront := frontLexeme_word hc htwo hw hstop
  rw [hkind] at hfront
  unfold startsWordOnly at hc
  simp only [Bool.and_eq_true, Bool.not_eq_true'] at hc
  refine Lexes.lexeme hc.2 ?_ hfront (Lexes.blank rfl hrest)
  have hsize : c.utf8Size = 1 := ascii_of_onChar hc.1.1.1.1.1.1
  simp [cutsCharacter, pairEndsInside, hsize, hd]

theorem quote_cons_special {c : Char} (hc : c = '"' ∨ c = '\\') (s : List Char) :
    quote (c :: s) = '\\' :: c :: quote s := by
  unfold quote
  rw [List.flatMap_cons, if_pos hc]
  rfl

theorem quote_cons_other {c : Char} (hc : ¬ (c = '"' ∨ c = '\\')) (s : List Char) :
    quote (c :: s) = c :: quote s := by
  unfold quote
  rw [List.flatMap_cons, if_neg hc]
  rfl

theorem quoted_quote (s rest : List Char) : quoted (quote s ++ '"' :: rest) = some (quote s) := by
  induction s with
  | nil =>
      show quoted ('"' :: rest) = some []
      unfold quoted
      rw [if_pos rfl]
  | cons c s ih =>
      by_cases hc : c = '"' ∨ c = '\\'
      · rw [quote_cons_special hc, List.cons_append, List.cons_append]
        unfold quoted
        rw [if_neg (by decide), if_pos rfl]
        show (quoted _).map _ = _
        rw [ih]
        rfl
      · rw [quote_cons_other hc, List.cons_append]
        rw [not_or] at hc
        unfold quoted
        rw [if_neg hc.1, if_neg hc.2, ih]
        rfl

theorem length_le_quote (s : List Char) : s.length <= (quote s).length := by
  induction s with
  | nil => exact Nat.le_refl 0
  | cons c s ih =>
      by_cases hc : c = '"' ∨ c = '\\'
      · rw [quote_cons_special hc]
        exact Nat.succ_le_succ (Nat.le_succ_of_le ih)
      · rw [quote_cons_other hc]
        exact Nat.succ_le_succ ih

theorem quote_eq_self_iff (s : List Char) :
    quote s = s <-> forall c, c ∈ s -> c ≠ '"' ∧ c ≠ '\\' := by
  induction s with
  | nil => exact ⟨fun _ c hc => absurd hc List.not_mem_nil, fun _ => rfl⟩
  | cons c s ih =>
      by_cases hc : c = '"' ∨ c = '\\'
      · rw [quote_cons_special hc]
        constructor
        · intro h
          have hlength := congrArg List.length h
          have hle := length_le_quote s
          simp only [List.length_cons] at hlength
          omega
        · intro h
          exact absurd hc (not_or.mpr (h c List.mem_cons_self))
      · rw [quote_cons_other hc, List.cons.injEq, ih, List.forall_mem_cons]
        exact ⟨fun h => ⟨not_or.mp hc, h.2⟩, fun h => ⟨rfl, h.2⟩⟩

theorem Lexes.string {u : List Char} (s : List Char) :
    Lexes u ('"' :: (quote s ++ ['"']))
      [⟨TokenKind.stringLit, String.ofList ('"' :: (quote s ++ ['"'])), size u⟩] := by
  have hfront : frontLexeme ('"' :: (quote s ++ ['"'] ++ [])) =
      some (TokenKind.stringLit, '"' :: (quote s ++ ['"'])) := by
    rw [List.append_nil]
    simp only [frontLexeme, if_true, stringLexeme, List.tail_cons, quoted_quote, Option.map_some]
  have hlexes := Lexes.lexeme (u := u) rfl rfl hfront Lexes.done
  rw [List.append_nil] at hlexes
  exact hlexes

/-!
## The query
-/

theorem toList_tagQuery (s : String) :
    (tagQuery s).toList =
      'R' :: ('E' :: ['C', 'A', 'L', 'L'] ++ ' ' ::
        ('m' :: ('e' :: ['m', 'o', 'r', 'i', 'e', 's'] ++ ' ' ::
          ('W' :: ('H' :: ['E', 'R', 'E'] ++ ' ' ::
            ('t' :: ('a' :: ['g'] ++ ' ' ::
              ('=' :: ([] ++ ' ' :: ('"' :: (quote s.toList ++ ['"']))))))))))) := by
  unfold tagQuery
  simp

theorem tokenize_tagQuery (s : String) :
    exists last, tokenize (tagQuery s) = Except.ok
      ([⟨TokenKind.recallKw, "RECALL", 0⟩, ⟨TokenKind.memories, "memories", 7⟩,
        ⟨TokenKind.whereKw, "WHERE", 16⟩, ⟨TokenKind.tag, "tag", 22⟩, ⟨TokenKind.eq, "=", 26⟩,
        ⟨TokenKind.stringLit, String.ofList ('"' :: (quote s.toList ++ ['"'])), 28⟩] ++
        [last]) := by
  refine ⟨_, tokenize_of_lexes ?_⟩
  rw [toList_tagQuery]
  refine Lexes.word (by decide +kernel) (by decide) (by decide) (by decide +kernel)
    (by decide +kernel) ?_
  refine Lexes.word (by decide +kernel) (by decide) (by decide) (by decide +kernel)
    (by decide +kernel) ?_
  refine Lexes.word (by decide +kernel) (by decide) (by decide) (by decide +kernel)
    (by decide +kernel) ?_
  refine Lexes.word (by decide +kernel) (by decide) (by decide) (by decide +kernel)
    (by decide +kernel) ?_
  refine Lexes.lexeme rfl rfl rfl (Lexes.blank rfl ?_)
  exact Lexes.string s.toList

variable [Scalar F]

omit [Scalar F] in
theorem planRecall_tag (value : Value F) :
    planRecall ⟨[⟨Field.tag, Operator.eq, value⟩], none, none, none⟩ =
      Except.ok (QueryPlan.tagScan (textOf value).toList [] (some defaultLimit)) := by
  have htags : List.filterMap (fun f : Filter F => textOf f.value)
      [⟨Field.tag, Operator.eq, value⟩] = (textOf value).toList := by
    rw [List.filterMap_cons, List.filterMap_nil]
    cases textOf value with
    | none => rfl
    | some text => rfl
  rw [← htags]
  refine planRecall_of_tagsOnly ?_ ?_ ?_
  · rfl
  · intro f hf
    rw [List.mem_singleton.mp hf]
    exact Operator.noConfusion
  · exact ⟨List.cons_ne_nil _ _, rfl⟩

theorem mqlParse_of_parse {ops : LiteralOps F} {input : String} {tokens : List Token}
    {statement : Statement F} {found : QueryPlan F} (htokens : tokenize input = Except.ok tokens)
    (hparse : parse ops tokens = Except.ok statement) (hplan : plan statement = Except.ok found) :
    mqlParse ops input = Except.ok found := by
  unfold mqlParse
  rw [htokens]
  show (parse ops tokens >>= _) = _
  rw [hparse]
  show (match plan statement with
    | Except.ok found => (pure found : Checked (QueryPlan F))
    | Except.error e => Except.error (Stop.error e)) = _
  rw [hplan]
  rfl

/-- The tag is the text between the quotes, unless it spells an identifier. -/
theorem mqlParse_tagQuery (ops : LiteralOps F) (s : String) :
    mqlParse ops (tagQuery s) = Except.ok (QueryPlan.tagScan
      (textOf (textValue ops (String.ofList (quote s.toList)))).toList []
      (some defaultLimit)) := by
  rcases tokenize_tagQuery s with ⟨last, hrun⟩
  have hs := shaped_of_tokenize hrun
  have hinner : unquoted
      ⟨TokenKind.stringLit, String.ofList ('"' :: (quote s.toList ++ ['"'])), 28⟩ =
      String.ofList (quote s.toList) := by
    unfold unquoted
    rw [String.toList_ofList, List.tail_cons, List.dropLast_concat]
  have hvalue : valueOf ops Field.tag
      ⟨TokenKind.stringLit, String.ofList ('"' :: (quote s.toList ++ ['"'])), 28⟩ =
      some (textValue ops (String.ofList (quote s.toList))) := by
    rw [← hinner]
    rfl
  have hfilter : FilterOf ops TriedAsNumber [⟨TokenKind.tag, "tag", 22⟩, ⟨TokenKind.eq, "=", 26⟩,
      ⟨TokenKind.stringLit, String.ofList ('"' :: (quote s.toList ++ ['"'])), 28⟩]
      ⟨Field.tag, Operator.eq, textValue ops (String.ofList (quote s.toList))⟩ :=
    FilterOf.filter rfl rfl (ValueOf.single hvalue)
  have hwhere : Clause TokenKind.whereKw (FiltersOf ops TriedAsNumber)
      [⟨TokenKind.whereKw, "WHERE", 16⟩, ⟨TokenKind.tag, "tag", 22⟩, ⟨TokenKind.eq, "=", 26⟩,
        ⟨TokenKind.stringLit, String.ofList ('"' :: (quote s.toList ++ ['"'])), 28⟩]
      (some [⟨Field.tag, Operator.eq, textValue ops (String.ofList (quote s.toList))⟩]) :=
    Clause.present rfl (Separated.last hfilter)
  have hmemories : OptionalWord TokenKind.memories [⟨TokenKind.memories, "memories", 7⟩] :=
    OptionalWord.present rfl
  have hparse := parse_of_derives hs (Derives.recall (k := ⟨TokenKind.recallKw, "RECALL", 0⟩) rfl
    hmemories Clause.absent hwhere Clause.absent Clause.absent)
  exact mqlParse_of_parse hrun hparse (planRecall_tag _)

/-- A quoted tag comes back if and only if nothing in it had to be quoted and it spells
no identifier. -/
theorem quoted_tag_round_trip_iff (ops : LiteralOps F) (s : String) :
    (exists filters limit, mqlParse ops (tagQuery s) =
        Except.ok (QueryPlan.tagScan [s] filters limit)) <->
      (forall c, c ∈ s.toList -> c ≠ '"' ∧ c ≠ '\\') ∧ ops.parseUuid s = none := by
  rw [mqlParse_tagQuery, ← quote_eq_self_iff]
  constructor
  · intro h
    rcases h with ⟨filters, limit, hplan⟩
    have htags := (QueryPlan.tagScan.inj (Except.ok.inj hplan)).1
    unfold textValue at htags
    cases huuid : ops.parseUuid (String.ofList (quote s.toList)) with
    | some uuid =>
        rw [huuid] at htags
        cases htags
    | none =>
        rw [huuid] at htags
        have htext : String.ofList (quote s.toList) = s := (List.cons.inj htags).1
        rw [htext] at huuid
        refine ⟨?_, huuid⟩
        have hlist := congrArg String.toList htext
        rw [String.toList_ofList] at hlist
        exact hlist
  · intro h
    refine ⟨[], some defaultLimit, ?_⟩
    unfold textValue
    rw [h.1, String.ofList_toList, h.2]
    rfl

/-- The backslash before a quote stays in the tag. -/
theorem quoted_quote_is_kept :
    ¬ exists filters limit, mqlParse bareOps (tagQuery "\"") =
      Except.ok (QueryPlan.tagScan ["\""] filters limit) := by
  rw [mqlParse_tagQuery]
  intro h
  rcases h with ⟨filters, limit, hplan⟩
  have htags : ["\\\""] = ["\""] := (QueryPlan.tagScan.inj (Except.ok.inj hplan)).1
  exact absurd htags (by decide)

end Query
end MenteDb
