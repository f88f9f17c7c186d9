import MenteDb.Query.Grammar

/-!
# What the parser reads

For every function of the parser, which pieces of the tokens it reads as what, and
which token it stops before.  The lemmas for the parts are put together along the
structure of the functions.
-/

namespace MenteDb
namespace Query

open Foundation
open Utf8
open Scan

variable {F : Type}

/-!
## Looking and moving
-/

def headKind (r : List Token) : Option TokenKind := r.head?.map Token.kind

section Primitives

variable {tokens : List Token}

theorem outcome_bind_of_ok {α β : Type} {x : Parser α} {f : α -> Parser β} {pos p : Nat} {a : α}
    (h : (x pos).outcome = Except.ok (a, p)) : ((x >>= f) pos).outcome = (f a p).outcome := by
  show (Scan.bind x f pos).outcome = _
  unfold Scan.bind
  rw [h]

theorem outcome_peek {tok : Token} {rest : List Token} (h : tok :: rest <:+ tokens) :
    (peek tokens (startOf tokens (tok :: rest))).outcome =
      Except.ok (tok, startOf tokens (tok :: rest)) := by
  have hle := h.length_le
  rw [List.length_cons] at hle
  have hmin : min (startOf tokens (tok :: rest)) (tokens.length - 1) =
      startOf tokens (tok :: rest) := by
    unfold startOf
    rw [List.length_cons]
    omega
  have hget : tokens[startOf tokens (tok :: rest)]? = some tok := by
    rw [← List.head?_drop, drop_startOf h]
    rfl
  unfold peek
  rw [outcome_bind_of_ok (x := Scan.position) rfl, hmin, hget]
  rfl

theorem outcome_advance {tok : Token} {rest : List Token} (h : tok :: rest <:+ tokens) :
    (advance tokens (startOf tokens (tok :: rest))).outcome =
      Except.ok (tok, startOf tokens rest) := by
  have hle := h.length_le
  rw [List.length_cons] at hle
  have hlt : startOf tokens (tok :: rest) < tokens.length := by
    unfold startOf
    rw [List.length_cons]
    omega
  have hnext : startOf tokens (tok :: rest) + 1 = startOf tokens rest := by
    unfold startOf
    rw [List.length_cons]
    omega
  unfold advance
  rw [outcome_bind_of_ok (outcome_peek h), outcome_bind_of_ok (x := Scan.position) rfl,
    if_pos hlt, outcome_bind_of_ok (x := Scan.moveTo _) rfl, hnext]
  rfl

theorem outcome_atKind {kind : TokenKind} {r : List Token} (hr : r <:+ tokens) (hne : r ≠ []) :
    (atKind tokens kind (startOf tokens r)).outcome =
      Except.ok (decide (headKind r = some kind), startOf tokens r) := by
  cases r with
  | nil => exact absurd rfl hne
  | cons tok rest =>
      unfold atKind
      rw [outcome_bind_of_ok (outcome_peek hr)]
      show Except.ok (decide (tok.kind = kind), _) = _
      have hiff : (tok.kind = kind) = (headKind (tok :: rest) = some kind) := by
        rw [eq_iff_iff]
        exact Option.some_inj.symm
      simp only [hiff]

variable (hs : Shaped tokens)

include hs

theorem Shaped.rest_ne_nil {tok : Token} {rest : List Token} (h : tok :: rest <:+ tokens)
    (hkind : tok.kind ≠ TokenKind.eof) : rest ≠ [] := by
  intro hnil
  rcases hs.ends with ⟨t, last, htokens, hlast, _, _⟩
  rw [hnil, htokens] at h
  rcases h with ⟨before, hbefore⟩
  have heq := (List.append_inj' hbefore rfl).2
  rw [(List.cons.inj heq).1] at hkind
  exact hkind hlast

theorem Shaped.eof_of_single {tok : Token} (h : [tok] <:+ tokens) :
    tok.kind = TokenKind.eof ∧ tok.lexeme = "" := by
  rcases hs.ends with ⟨t, last, htokens, hkind, hlexeme, _⟩
  rw [htokens] at h
  rcases h with ⟨before, hbefore⟩
  have heq := (List.append_inj' hbefore rfl).2
  rw [(List.cons.inj heq).1]
  exact ⟨hkind, hlexeme⟩

/-- A token that the end token is not taken for. -/
theorem reads_advance_bind {α : Type} {n : Nat} {k : Token -> Parser α} {f : Token -> Option α}
    (hk : forall tok, tok ∈ tokens -> forall q a p,
      (k tok q).outcome = Except.ok (a, p) <-> f tok = some a ∧ p = q)
    (hf : forall tok, tok.kind = TokenKind.eof -> tok.lexeme = "" -> f tok = none) :
    Reads tokens n (advance tokens >>= k) (fun u a _ => exists tok, u = [tok] ∧ f tok = some a) := by
  intro r hr hne _ a p
  cases r with
  | nil => exact absurd rfl hne
  | cons tok rest =>
      rw [outcome_bind_of_ok (outcome_advance hr), hk tok (hr.mem List.mem_cons_self)]
      constructor
      · intro h
        refine ⟨[tok], rest, rfl, ?_, ⟨tok, rfl, h.1⟩, h.2⟩
        intro hnil
        rw [hnil] at hr
        have heof := hs.eof_of_single hr
        rw [hf tok heof.1 heof.2] at h
        cases h.1
      · intro h
        rcases h with ⟨u, r', heq, _, ⟨tok', hu, hread⟩, hp⟩
        rw [hu] at heq
        rcases List.cons.inj heq with ⟨htok, hrest⟩
        rw [htok, hrest]
        exact ⟨hread, hp⟩

theorem reads_expect {n : Nat} {kind : TokenKind} (hkind : kind ≠ TokenKind.eof) :
    Reads tokens n (expect tokens kind) (fun u tok _ => u = [tok] ∧ tok.kind = kind) := by
  intro r hr hne _ a p
  cases r with
  | nil => exact absurd rfl hne
  | cons tok rest =>
      unfold expect
      rw [outcome_bind_of_ok (outcome_peek hr)]
      by_cases hmatch : tok.kind = kind
      · rw [if_neg (not_not.mpr hmatch), outcome_advance hr]
        constructor
        · intro h
          cases h
          exact ⟨[a], rest, rfl, hs.rest_ne_nil hr (hmatch ▸ hkind), ⟨rfl, hmatch⟩, rfl⟩
        · intro h
          rcases h with ⟨u, r', heq, _, ⟨hu, _⟩, hp⟩
          rw [hu] at heq
          rcases List.cons.inj heq with ⟨htok, hrest⟩
          rw [htok, hp, hrest]
          rfl
      · rw [if_pos hmatch]
        constructor
        · intro h
          cases h
        · intro h
          rcases h with ⟨u, r', heq, _, ⟨hu, htok⟩, _⟩
          rw [hu] at heq
          rw [(List.cons.inj heq).1] at hmatch
          exact absurd htok hmatch

omit hs in
/-- A test of the next token that does not move. -/
theorem reads_ifAt {α : Type} {n : Nat} {kind : TokenKind} {x y : Parser α}
    {yes no : List Token -> α -> List Token -> Prop} (hx : Reads tokens n x yes)
    (hy : Reads tokens n y no) :
    Reads tokens n (atKind tokens kind >>= fun found => if found = true then x else y)
      (fun u a r => (headKind (u ++ r) = some kind ∧ yes u a r) ∨
        (headKind (u ++ r) ≠ some kind ∧ no u a r)) := by
  intro r hr hne hlen a p
  rw [outcome_bind_of_ok (outcome_atKind hr hne)]
  by_cases hhead : headKind r = some kind
  · rw [if_pos (decide_eq_true hhead), hx r hr hne hlen a p]
    constructor
    · intro h
      rcases h with ⟨u, r', heq, hne', hread, hp⟩
      exact ⟨u, r', heq, hne', Or.inl ⟨heq ▸ hhead, hread⟩, hp⟩
    · intro h
      rcases h with ⟨u, r', heq, hne', hread | hread, hp⟩
      · exact ⟨u, r', heq, hne', hread.2, hp⟩
      · exact absurd (heq ▸ hhead) hread.1
  · rw [if_neg (by rw [decide_eq_false hhead]; exact Bool.false_ne_true), hy r hr hne hlen a p]
    constructor
    · intro h
      rcases h with ⟨u, r', heq, hne', hread, hp⟩
      exact ⟨u, r', heq, hne', Or.inr ⟨heq ▸ hhead, hread⟩, hp⟩
    · intro h
      rcases h with ⟨u, r', heq, hne', hread | hread, hp⟩
      · exact absurd hread.1 (heq ▸ hhead)
      · exact ⟨u, r', heq, hne', hread.2, hp⟩

/-- A keyword that is passed over, with what follows it. -/
theorem reads_keyword {α : Type} {n m : Nat} {kind : TokenKind} (hkind : kind ≠ TokenKind.eof)
    {x y : Parser α} {yes no : List Token -> α -> List Token -> Prop}
    (hx : Reads tokens m x yes) (hm : n <= m + 1) (hy : Reads tokens n y no) :
    Reads tokens n (atKind tokens kind >>= fun found =>
        if found = true then advance tokens >>= fun _ => x else y)
      (fun u a r => (exists tok v, u = tok :: v ∧ tok.kind = kind ∧ yes v a r) ∨
        (headKind (u ++ r) ≠ some kind ∧ no u a r)) := by
  intro r hr hne hlen a p
  rw [outcome_bind_of_ok (outcome_atKind hr hne)]
  cases r with
  | nil => exact absurd rfl hne
  | cons tok rest =>
      by_cases hhead : headKind (tok :: rest) = some kind
      · have htok : tok.kind = kind := Option.some.inj hhead
        have hsuffix : rest <:+ tokens := (List.suffix_cons tok rest).trans hr
        have hrest := hs.rest_ne_nil hr (htok ▸ hkind)
        rw [List.length_cons] at hlen
        rw [if_pos (decide_eq_true hhead), outcome_bind_of_ok (outcome_advance hr),
          hx rest hsuffix hrest (by omega) a p]
        constructor
        · intro h
          rcases h with ⟨v, r', heq, hne', hread, hp⟩
          exact ⟨tok :: v, r', by rw [heq]; rfl, hne', Or.inl ⟨tok, v, rfl, htok, hread⟩, hp⟩
        · intro h
          rcases h with ⟨u, r', heq, hne', ⟨tok', v, hu, _, hread⟩ | hread, hp⟩
          · rw [hu, List.cons_append] at heq
            exact ⟨v, r', (List.cons.inj heq).2, hne', hread, hp⟩
          · rw [← heq] at hread
            exact absurd hhead hread.1
      · rw [if_neg (by rw [decide_eq_false hhead]; exact Bool.false_ne_true),
          hy (tok :: rest) hr hne hlen a p]
        constructor
        · intro h
          rcases h with ⟨u, r', heq, hne', hread, hp⟩
          exact ⟨u, r', heq, hne', Or.inr ⟨heq ▸ hhead, hread⟩, hp⟩
        · intro h
          rcases h with ⟨u, r', heq, hne', ⟨tok', v, hu, htok', _⟩ | hread, hp⟩
          · rw [hu, List.cons_append] at heq
            rw [(List.cons.inj heq).1] at hhead
            exact absurd (congrArg some htok') hhead
          · exact ⟨u, r', heq, hne', hread.2, hp⟩

end Primitives

/-!
## Single tokens
-/

section Tokens

variable {tokens : List Token} (ops : LiteralOps F) (hs : Shaped tokens)

theorem outcome_orError {α : Type} (found : Option α) (message : String) (q p : Nat) (a : α) :
    (orError found message q).outcome = Except.ok (a, p) <-> found = some a ∧ p = q := by
  cases found with
  | none =>
      constructor
      · intro h
        cases h
      · intro h
        cases h.1
  | some b =>
      constructor
      · intro h
        cases h
        exact ⟨rfl, rfl⟩
      · intro h
        rw [h.2, ← Option.some.inj h.1]
        rfl

theorem reads_orError {α : Type} {n : Nat} (found : Option α) (message : String) :
    Reads tokens n (orError found message) (fun u a _ => u = [] ∧ found = some a) := by
  cases found with
  | none =>
      refine Reads.congr (Reads.never _) ?_
      intro u b r
      simp
  | some a =>
      refine Reads.congr (Reads.pure a) ?_
      intro u b r
      simp [eq_comm]

theorem Shaped.sliceOf_quoted (hs : Shaped tokens) {tok : Token} (htok : tok ∈ tokens)
    (hkind : tok.kind = TokenKind.stringLit) :
    sliceOf tok.lexeme.toList 1 (size tok.lexeme.toList - 1) =
      Except.ok tok.lexeme.toList.tail.dropLast := by
  rcases (hs.spelled tok htok).quotes hkind with ⟨inner, hinner⟩
  have hsize : size tok.lexeme.toList - 1 = size ['"'] + size inner := by
    rw [hinner, size_cons, size_append]
    have hone : Char.utf8Size '"' = 1 := rfl
    have hquote : size ['"'] = 1 := rfl
    omega
  rw [hsize, hinner, List.tail_cons, List.dropLast_concat]
  exact sliceOf_eq ['"'] inner ['"']

theorem Shaped.outcome_stripQuotes (hs : Shaped tokens) {tok : Token} (htok : tok ∈ tokens)
    (hkind : tok.kind = TokenKind.stringLit) (q : Nat) :
    (stripQuotes tok q).outcome = Except.ok (unquoted tok, q) := by
  unfold stripQuotes
  rw [hs.sliceOf_quoted htok hkind]
  rfl

include hs

theorem reads_parseField {n : Nat} :
    Reads tokens n (parseField tokens) (fun u field _ =>
      exists tok, u = [tok] ∧ fieldOf tok = some field) := by
  refine reads_advance_bind hs ?_ ?_
  · intro tok _ q a p
    exact outcome_orError (fieldOf tok) _ q p a
  · intro tok hkind _
    unfold fieldOf
    rw [hkind]

theorem reads_parseOperator {n : Nat} :
    Reads tokens n (parseOperator tokens) (fun u op _ =>
      exists tok, u = [tok] ∧ operatorOf tok = some op) := by
  refine reads_advance_bind hs ?_ ?_
  · intro tok _ q a p
    exact outcome_orError (operatorOf tok) _ q p a
  · intro tok hkind _
    unfold operatorOf
    rw [hkind]

theorem reads_parseCount {n : Nat} (what : String) :
    Reads tokens n (parseCount tokens what) (fun u count _ => CountOf u count) := by
  refine Reads.congr (reads_advance_bind (f := countOf) hs ?_ ?_) ?_
  · intro tok _ q a p
    exact outcome_orError (countOf tok) _ q p a
  · intro tok _ hlexeme
    unfold countOf
    rw [hlexeme]
    rfl
  · intro u count r
    constructor
    · intro h
      rcases h with ⟨tok, hu, hcount⟩
      rw [hu]
      exact CountOf.count hcount
    · intro h
      cases h with
      | count hcount => exact ⟨_, rfl, hcount⟩

/-- Every token whose lexeme is a number is taken for one. -/
theorem reads_parseEntry {n : Nat} (what : String) :
    Reads tokens n (parseEntry ops tokens what) (fun u x _ => EntryOf ops TriedAsNumber u x) := by
  refine Reads.congr (reads_advance_bind (f := fun tok =>
    if tok.kind = TokenKind.rBracket then none else ops.parseF32 tok.lexeme) hs ?_ ?_) ?_
  · intro tok htok q a p
    rw [outcome_orError]
    by_cases hbracket : tok.kind = TokenKind.rBracket
    · have hnone : ops.parseF32 tok.lexeme = none := by
        unfold LiteralOps.parseF32
        rw [(hs.spelled tok htok).bracket hbracket]
        rfl
      rw [if_pos hbracket, hnone]
    · rw [if_neg hbracket]
  · intro tok hkind hlexeme
    rw [hkind, if_neg (by decide), hlexeme]
    rfl
  · intro u x r
    constructor
    · intro h
      rcases h with ⟨tok, hu, hx⟩
      rw [hu]
      split at hx
      · cases hx
      · rename_i hbracket
        exact EntryOf.entry hbracket hx
    · intro h
      cases h with
      | entry hbracket hx => exact ⟨_, rfl, (if_neg hbracket).trans hx⟩

theorem reads_parseName {n : Nat} (expected : String) :
    Reads tokens n (parseName tokens expected) (fun u name _ =>
      exists tok, u = [tok] ∧ nameOf tok = some name) := by
  refine reads_advance_bind hs ?_ ?_
  · intro tok htok q a p
    unfold nameOf
    by_cases hident : tok.kind = TokenKind.identifier
    · rw [if_pos hident, if_pos hident]
      constructor
      · intro h
        cases h
        exact ⟨rfl, rfl⟩
      · intro h
        rw [h.2, ← Option.some.inj h.1]
        rfl
    · rw [if_neg hident, if_neg hident]
      by_cases hstring : tok.kind = TokenKind.stringLit
      · rw [if_pos hstring, if_pos hstring, hs.outcome_stripQuotes htok hstring]
        constructor
        · intro h
          cases h
          exact ⟨rfl, rfl⟩
        · intro h
          rw [h.2, ← Option.some.inj h.1]
      · rw [if_neg hstring, if_neg hstring]
        constructor
        · intro h
          cases h
        · intro h
          cases h.1
  · intro tok hkind _
    unfold nameOf
    rw [hkind, if_neg (by decide), if_neg (by decide)]

/-- A name that is looked up in a table. -/
theorem reads_named {α : Type} {n : Nat} (expected : String) (table : String -> Option α)
    (message : String -> String) :
    Reads tokens n (parseName tokens expected >>= fun name =>
        orError (table name) (message name))
      (fun u a _ => exists tok, u = [tok] ∧ (nameOf tok).bind table = some a) := by
  refine Reads.congr (Reads.bind (m := n) (reads_parseName hs expected)
    (fun name => reads_orError (table name) (message name)) ?_) ?_
  · intro u a r _
    omega
  · intro u b r
    constructor
    · intro h
      rcases h with ⟨name, v, w, hu, ⟨tok, hv, hname⟩, hw, hfound⟩
      refine ⟨tok, by rw [hu, hv, hw]; rfl, ?_⟩
      rw [hname]
      exact hfound
    · intro h
      rcases h with ⟨tok, hu, hfound⟩
      rcases Option.bind_eq_some_iff.mp hfound with ⟨name, hname, htable⟩
      exact ⟨name, [tok], [], hu, ⟨tok, rfl, hname⟩, rfl, htable⟩

theorem reads_parseEdgeType {n : Nat} :
    Reads tokens n (parseEdgeType tokens) (fun u edgeType _ =>
      exists tok, u = [tok] ∧ edgeTypeOf tok = some edgeType) :=
  reads_named hs "edge type" (fun name => edgeTypeNamed (lowercase name.toList))
    (fun name => "unknown edge type: " ++ name)

theorem reads_parseUuid {n : Nat} :
    Reads tokens n (parseUuid ops tokens) (fun u id _ =>
      exists tok, u = [tok] ∧ uuidOf ops tok = some id) := by
  refine reads_advance_bind hs ?_ ?_
  · intro tok htok q a p
    unfold uuidOf
    by_cases huuid : tok.kind = TokenKind.uuidLit
    · rw [if_pos huuid, if_pos huuid]
      exact outcome_orError _ _ q p a
    · rw [if_neg huuid, if_neg huuid]
      by_cases hstring : tok.kind = TokenKind.stringLit
      · rw [if_pos hstring, if_pos hstring,
          outcome_bind_of_ok (hs.outcome_stripQuotes htok hstring q)]
        exact outcome_orError _ _ q p a
      · rw [if_neg hstring, if_neg hstring]
        constructor
        · intro h
          cases h
        · intro h
          cases h.1
  · intro tok hkind _
    unfold uuidOf
    rw [hkind, if_neg (by decide), if_neg (by decide)]

end Tokens

/-!
## Items with separators
-/

/-- Separators, each with an item behind it. -/
inductive MoreOf {α : Type} (separator : TokenKind) (item : List Token -> α -> Prop) :
    List Token -> List α -> Prop where
  | nil : MoreOf separator item [] []
  | cons {sep : Token} {t rest : List Token} {a : α} {items : List α} : sep.kind = separator ->
      item t a -> MoreOf separator item rest items ->
        MoreOf separator item (sep :: (t ++ rest)) (a :: items)

theorem separated_iff {α : Type} {separator : TokenKind} {item : List Token -> α -> Prop}
    {u : List Token} {items : List α} :
    Separated separator item u items <->
      exists t rest a more, u = t ++ rest ∧ items = a :: more ∧ item t a ∧
        MoreOf separator item rest more := by
  constructor
  · intro h
    induction h with
    | last hitem => exact ⟨_, [], _, [], (List.append_nil _).symm, rfl, hitem, MoreOf.nil⟩
    | cons hitem hsep _ ih =>
        rcases ih with ⟨t, rest, a, more, hu, hitems, hfirst, hmore⟩
        rw [hu, hitems]
        exact ⟨_, _, _, _, rfl, rfl, hitem, MoreOf.cons hsep hfirst hmore⟩
  · intro h
    rcases h with ⟨t, rest, a, more, hu, hitems, hitem, hmore⟩
    rw [hu, hitems]
    clear hu hitems
    induction hmore generalizing t a with
    | nil =>
        rw [List.append_nil]
        exact Separated.last hitem
    | cons hsep hnext _ ih => exact Separated.cons hitem hsep (ih _ _ hnext)

section Sequences

variable {tokens : List Token} (hs : Shaped tokens)

include hs

theorem reads_parseMore {α : Type} {separator : TokenKind} (hsep : separator ≠ TokenKind.eof)
    {item : Parser α} {reading : List Token -> α -> Prop}
    (hitem : forall n, Reads tokens n item (fun u a _ => reading u a)) (n : Nat) (items : List α) :
    Reads tokens n (parseMore tokens separator item n items) (fun u found r =>
      exists more, found = items ++ more ∧ MoreOf separator reading u more ∧
        headKind r ≠ some separator) := by
  induction n generalizing items with
  | zero =>
      intro r _ hne hlen
      exact absurd (List.eq_nil_of_length_eq_zero (Nat.le_zero.mp hlen)) hne
  | succ n ih =>
      have hnext := Reads.andThen (hitem n) (fun a => ih (items ++ [a]))
      have hloop := reads_keyword (n := n + 1) hs hsep hnext (Nat.le_refl _) (Reads.pure items)
      unfold parseMore
      refine Reads.congr hloop ?_
      intro u found r
      constructor
      · intro h
        rcases h with ⟨sep, v, hu, hkind, a, t, rest, hv, hread, more, hfound, hmore, hend⟩ |
          ⟨hhead, hu, hfound⟩
        · refine ⟨a :: more, ?_, ?_, hend⟩
          · rw [hfound, List.append_assoc]
            rfl
          · rw [hu, hv]
            exact MoreOf.cons hkind hread hmore
        · rw [hu, List.nil_append] at hhead
          refine ⟨[], by rw [hfound, List.append_nil], ?_, hhead⟩
          rw [hu]
          exact MoreOf.nil
      · intro h
        rcases h with ⟨more, hfound, hmore, hend⟩
        cases hmore with
        | nil => exact Or.inr ⟨hend, rfl, by rw [hfound, List.append_nil]⟩
        | cons hkind hread hmore =>
            refine Or.inl ⟨_, _, rfl, hkind, _, _, _, rfl, hread, _, ?_, hmore, hend⟩
            rw [hfound, List.append_assoc]
            rfl

end Sequences

/-!
## Vectors, values and filters
-/

section Values

variable {tokens : List Token} (ops : LiteralOps F) (hs : Shaped tokens)

include hs

theorem reads_parseVector {n : Nat} (hn : n <= tokens.length) :
    Reads tokens n (parseVector ops tokens) (fun u xs _ => VectorOf ops TriedAsNumber u xs) := by
  have hitem : forall n, Reads tokens n
      (parseEntry ops tokens "invalid float in vector: ")
      (fun u x _ => EntryOf ops TriedAsNumber u x) := fun n => reads_parseEntry ops hs _
  have hmore : forall x, Reads tokens n
      (parseMore tokens TokenKind.comma (parseEntry ops tokens "invalid float in vector: ")
        tokens.length [x]) (fun u found r => exists more, found = [x] ++ more ∧
          MoreOf TokenKind.comma (EntryOf ops TriedAsNumber) u more ∧
          headKind r ≠ some TokenKind.comma) := by
    intro x r hr hne hlen
    exact reads_parseMore hs (by decide) hitem tokens.length [x] r hr hne (hlen.trans hn)
  have hvalues : Reads tokens n (do
        if <- atKind tokens TokenKind.rBracket then return []
        else do
          let x <- parseEntry ops tokens "invalid float in vector: "
          parseMore tokens TokenKind.comma (parseEntry ops tokens "invalid float in vector: ")
            tokens.length [x]) _ :=
    reads_ifAt (Reads.pure ([] : List F)) (Reads.andThen (hitem n) hmore)
  have hclose : forall values : List F, Reads tokens n
      (expect tokens TokenKind.rBracket >>= fun _ => (pure values : Parser (List F)))
      (fun u xs _ => exists tok, (u = [tok] ∧ tok.kind = TokenKind.rBracket) ∧ xs = values) :=
    fun values => Reads.map (reads_expect hs (by decide)) (fun _ => values)
  refine Reads.congr (Reads.andThen (reads_expect hs (by decide)) (fun _ =>
    Reads.andThen hvalues hclose)) ?_
  intro u xs r
  constructor
  · intro h
    rcases h with ⟨l, v, w, hu, ⟨hv, hl⟩, values, es, c, hw, hread, tok, ⟨hc, htok⟩, hxs⟩
    rw [hu, hv, hw, hc, hxs]
    rcases hread with ⟨_, hes, hvalues⟩ | ⟨_, x, t, rest, hes, hx, more, hvalues, hmore, _⟩
    · rw [hes, hvalues]
      exact VectorOf.empty hl htok
    · rw [hvalues]
      exact VectorOf.entries hl (separated_iff.mpr ⟨t, rest, x, more, hes, rfl, hx, hmore⟩) htok
  · intro h
    cases h with
    | @empty l close hl hclose =>
        exact ⟨l, [l], [close], rfl, ⟨rfl, hl⟩, [], [], [close], rfl,
          Or.inl ⟨congrArg some hclose, rfl, rfl⟩, close, ⟨rfl, hclose⟩, rfl⟩
    | @entries l close es _ hl hentries hclose =>
        rcases separated_iff.mp hentries with ⟨t, rest, x, more, hes, hxs, hx, hmore⟩
        refine ⟨l, [l], es ++ [close], rfl, ⟨rfl, hl⟩, xs, es, [close], rfl, Or.inr ⟨?_, ?_⟩,
          close, ⟨rfl, hclose⟩, rfl⟩
        · cases hx with
          | @entry tok _ hbracket _ =>
              rw [hes]
              intro hhead
              exact hbracket (Option.some.inj hhead)
        · refine ⟨x, t, rest, hes, hx, more, hxs, hmore, ?_⟩
          intro hhead
          have hkind : close.kind = TokenKind.comma := Option.some.inj hhead
          rw [hclose] at hkind
          cases hkind

theorem reads_parseMemoryTypeValue {n : Nat} :
    Reads tokens n (parseMemoryTypeValue tokens : Parser (Value F)) (fun u value _ =>
      exists tok, u = [tok] ∧ (memoryTypeOf tok).map Value.memoryType = some value) := by
  refine Reads.congr (Reads.andThen (reads_parseName hs "memory type") (fun name =>
    Reads.map (reads_orError (memoryTypeNamed (lowercase name.toList)) _) Value.memoryType)) ?_
  intro u value r
  constructor
  · intro h
    rcases h with ⟨name, v, w, hu, ⟨tok, hv, hname⟩, memoryType, ⟨hw, hfound⟩, hvalue⟩
    refine ⟨tok, by rw [hu, hv, hw]; rfl, ?_⟩
    unfold memoryTypeOf
    rw [hname, Option.bind_some, hfound, hvalue]
    rfl
  · intro h
    rcases h with ⟨tok, hu, hfound⟩
    rcases Option.map_eq_some_iff.mp hfound with ⟨memoryType, hnamed, hvalue⟩
    rcases Option.bind_eq_some_iff.mp hnamed with ⟨name, hname, htable⟩
    exact ⟨name, [tok], [], hu, ⟨tok, rfl, hname⟩, memoryType, ⟨rfl, htable⟩, hvalue.symm⟩

/-- A value of one token. -/
theorem outcome_valueFrom {field : Field} (hfield : field ≠ Field.type) {tok : Token}
    (htok : tok ∈ tokens) (hkind : tok.kind ≠ TokenKind.lBracket) (q p : Nat) (value : Value F) :
    (valueFrom ops tokens tok q).outcome = Except.ok (value, p) <->
      valueOf ops field tok = some value ∧ p = q := by
  -- the branch is chosen before it is run
  generalize hbranch : valueFrom ops tokens tok = branch
  unfold valueFrom at hbranch
  split at hbranch
  · rename_i hstring
    rw [← hbranch, outcome_bind_of_ok (hs.outcome_stripQuotes htok hstring q)]
    simp only [valueOf, if_neg hfield, hstring]
    constructor
    · intro h
      cases h
      exact ⟨rfl, rfl⟩
    · intro h
      rw [h.2, ← Option.some.inj h.1]
      rfl
  · rename_i hinteger
    rw [← hbranch]
    simp only [valueOf, if_neg hfield, hinteger]
    exact outcome_orError _ _ q p value
  · rename_i hfloat
    rw [← hbranch]
    simp only [valueOf, if_neg hfield, hfloat]
    exact outcome_orError _ _ q p value
  · rename_i huuid
    rw [← hbranch]
    simp only [valueOf, if_neg hfield, huuid]
    exact outcome_orError _ _ q p value
  · rename_i hidentifier
    rw [← hbranch]
    simp only [valueOf, if_neg hfield, hidentifier]
    constructor
    · intro h
      cases h
      exact ⟨rfl, rfl⟩
    · intro h
      rw [h.2, ← Option.some.inj h.1]
      rfl
  · rename_i hbracket
    exact absurd hbracket hkind
  · rename_i hstring hinteger hfloat huuid hidentifier _
    have hnone : valueOf ops field tok = none := by
      unfold valueOf
      rw [if_neg hfield]
      split
      · rename_i h
        exact absurd h hstring
      · rename_i h
        exact absurd h hinteger
      · rename_i h
        exact absurd h hfloat
      · rename_i h
        exact absurd h huuid
      · rename_i h
        exact absurd h hidentifier
      · rfl
    rw [← hbranch, hnone]
    constructor
    · intro h
      cases h
    · intro h
      cases h.1

/-- A memory type is read from the text of its token. -/
theorem reads_parseValue_type {n : Nat} :
    Reads tokens n (parseValue ops tokens Field.type) (fun u value _ =>
      ValueOf ops TriedAsNumber Field.type u value) := by
  unfold parseValue
  rw [if_pos rfl]
  refine Reads.congr (reads_parseMemoryTypeValue hs) ?_
  intro u value r
  constructor
  · intro h
    rcases h with ⟨tok, hu, hvalue⟩
    rw [hu]
    apply ValueOf.single
    unfold valueOf
    rw [if_pos rfl]
    exact hvalue
  · intro h
    cases h with
    | single hvalue =>
        unfold valueOf at hvalue
        rw [if_pos rfl] at hvalue
        exact ⟨_, rfl, hvalue⟩
    | vector hother _ => exact absurd rfl hother

omit hs in
/-- The bracket of a vector is put back and read again. -/
theorem outcome_valueFrom_bracket {tok : Token} {rest : List Token}
    (hr : tok :: rest <:+ tokens) (hbracket : tok.kind = TokenKind.lBracket) :
    (valueFrom ops tokens tok (startOf tokens rest)).outcome =
      ((parseVector ops tokens >>= fun v => pure (Value.vector v) : Parser (Value F))
        (startOf tokens (tok :: rest))).outcome := by
  have hle := hr.length_le
  have hback : startOf tokens rest - 1 = startOf tokens (tok :: rest) ∧
      startOf tokens rest ≠ 0 := by
    unfold startOf
    rw [List.length_cons] at hle ⊢
    omega
  have hput : (putBack (startOf tokens rest)).outcome =
      Except.ok ((), startOf tokens (tok :: rest)) := by
    unfold putBack
    rw [outcome_bind_of_ok (x := Scan.position) rfl, if_neg hback.2, hback.1]
    rfl
  unfold valueFrom
  rw [hbracket]
  exact outcome_bind_of_ok hput

theorem reads_parseValue {n : Nat} (hn : n <= tokens.length) (field : Field) :
    Reads tokens n (parseValue ops tokens field) (fun u value _ =>
      ValueOf ops TriedAsNumber field u value) := by
  by_cases hfield : field = Field.type
  · rw [hfield]
    exact reads_parseValue_type ops hs
  · intro r hr hne hlen value p
    unfold parseValue
    rw [if_neg hfield]
    cases r with
    | nil => exact absurd rfl hne
    | cons tok rest =>
        have htok : tok ∈ tokens := hr.mem List.mem_cons_self
        rw [outcome_bind_of_ok (outcome_advance hr)]
        by_cases hbracket : tok.kind = TokenKind.lBracket
        · have hvector := Reads.map (reads_parseVector (n := n) ops hs hn) Value.vector
          rw [outcome_valueFrom_bracket ops hr hbracket, hvector (tok :: rest) hr hne hlen value p]
          have hsingle : valueOf ops field tok = none := by
            simp only [valueOf, if_neg hfield, hbracket]
          constructor
          · intro h
            rcases h with ⟨u, r', heq, hne', ⟨xs, hxs, hvalue⟩, hp⟩
            rw [hvalue]
            exact ⟨u, r', heq, hne', ValueOf.vector hfield hxs, hp⟩
          · intro h
            rcases h with ⟨u, r', heq, hne', hvalue, hp⟩
            cases hvalue with
            | @single tok' _ hvalue =>
                rw [← (List.cons.inj heq).1, hsingle] at hvalue
                cases hvalue
            | vector _ hxs => exact ⟨u, r', heq, hne', ⟨_, hxs, rfl⟩, hp⟩
        · rw [outcome_valueFrom ops hs hfield htok hbracket]
          constructor
          · intro h
            refine ⟨[tok], rest, rfl, ?_, ValueOf.single h.1, h.2⟩
            intro hnil
            rw [hnil] at hr
            have heof := (hs.eof_of_single hr).1
            have hnone : valueOf ops field tok = none := by
              simp only [valueOf, if_neg hfield, heof]
            rw [hnone] at h
            cases h.1
          · intro h
            rcases h with ⟨u, r', heq, _, hvalue, hp⟩
            cases hvalue with
            | @single tok' _ hvalue =>
                rcases List.cons.inj heq with ⟨htok', hrest⟩
                rw [htok', hrest]
                exact ⟨hvalue, hp⟩
            | vector _ hxs =>
                cases hxs with
                | empty hl _ =>
                    rw [(List.cons.inj heq).1] at hbracket
                    exact absurd hl hbracket
                | entries hl _ _ =>
                    rw [(List.cons.inj heq).1] at hbracket
                    exact absurd hl hbracket

theorem reads_parseFilter {n : Nat} (hn : n <= tokens.length) :
    Reads tokens n (parseFilter ops tokens) (fun u filter _ =>
      FilterOf ops TriedAsNumber u filter) := by
  refine Reads.congr (Reads.andThen (reads_parseField hs) (fun field =>
    Reads.andThen (reads_parseOperator hs) (fun op =>
      Reads.map (reads_parseValue ops hs hn field) (fun value => (⟨field, op, value⟩ : Filter F)))))
    ?_
  intro u filter r
  constructor
  · intro h
    rcases h with ⟨field, v, w, hu, ⟨f, hv, hf⟩, op, v', t, hw, ⟨o, hv', ho⟩, value, hvalue, hfilter⟩
    rw [hu, hv, hw, hv', hfilter]
    exact FilterOf.filter hf ho hvalue
  · intro h
    cases h with
    | @filter f o t field op value hf ho hvalue =>
        exact ⟨field, [f], o :: t, rfl, ⟨f, rfl, hf⟩, op, [o], t, rfl, ⟨o, rfl, ho⟩, value, hvalue,
          rfl⟩

/-- Filters up to a token that is no {lit}`AND`. -/
theorem reads_parseFilters {n : Nat} (hn : n <= tokens.length) :
    Reads tokens n (parseFilters ops tokens) (fun u filters r =>
      FiltersOf ops TriedAsNumber u filters ∧ headKind r ≠ some TokenKind.and) := by
  have hmore : forall filter, Reads tokens n
      (parseMore tokens TokenKind.and (parseFilter ops tokens) tokens.length [filter])
      (fun u found r => exists more, found = [filter] ++ more ∧
        MoreOf TokenKind.and (FilterOf ops TriedAsNumber) u more ∧
        headKind r ≠ some TokenKind.and) := by
    intro filter r hr hne hlen
    refine reads_parseMore hs (by decide) ?_ tokens.length [filter] r hr hne (hlen.trans hn)
    intro m r' hr' hne' _
    exact reads_parseFilter ops hs (Nat.le_refl _) r' hr' hne' hr'.length_le
  refine Reads.congr (Reads.andThen (reads_parseFilter ops hs hn) hmore) ?_
  intro u filters r
  constructor
  · intro h
    rcases h with ⟨filter, t, rest, hu, hfilter, more, hfilters, hmore, hend⟩
    exact ⟨separated_iff.mpr ⟨t, rest, filter, more, hu, hfilters, hfilter, hmore⟩, hend⟩
  · intro h
    rcases separated_iff.mp h.1 with ⟨t, rest, filter, more, hu, hfilters, hfilter, hmore⟩
    exact ⟨filter, t, rest, hu, hfilter, more, hfilters, hmore, h.2⟩

end Values

/-!
## Clauses
-/

/-- A word that may be left out, before a token that is not this word. -/
inductive WordRead (keyword : TokenKind) : List Token -> List Token -> Prop where
  | absent {r : List Token} : headKind r ≠ some keyword -> WordRead keyword [] r
  | present {tok : Token} {r : List Token} : tok.kind = keyword -> WordRead keyword [tok] r

/-- A clause that may be left out, before a token that does not begin it. -/
inductive ClauseRead {α : Type} (keyword : TokenKind)
    (body : List Token -> α -> List Token -> Prop) :
    List Token -> Option α -> List Token -> Prop where
  | absent {r : List Token} : headKind r ≠ some keyword -> ClauseRead keyword body [] none r
  | present {tok : Token} {t r : List Token} {a : α} : tok.kind = keyword -> body t a r ->
      ClauseRead keyword body (tok :: t) (some a) r

section Clauses

variable {tokens : List Token} (ops : LiteralOps F) (hs : Shaped tokens)

include hs

theorem reads_parseClause {α : Type} {n : Nat} {keyword : TokenKind}
    (hkeyword : keyword ≠ TokenKind.eof) {body : Parser α}
    {reading : List Token -> α -> List Token -> Prop} (hbody : Reads tokens n body reading) :
    Reads tokens n (parseClause tokens keyword body) (fun u a r =>
      ClauseRead keyword reading u a r) := by
  refine Reads.congr (reads_keyword hs hkeyword (Reads.map hbody some) (Nat.le_succ n)
    (Reads.pure none)) ?_
  intro u a r
  constructor
  · intro h
    rcases h with ⟨tok, t, hu, hkind, x, hread, ha⟩ | ⟨hhead, hu, ha⟩
    · rw [hu, ha]
      exact ClauseRead.present hkind hread
    · rw [hu] at hhead ⊢
      rw [ha]
      exact ClauseRead.absent hhead
  · intro h
    cases h with
    | absent hhead => exact Or.inr ⟨hhead, rfl, rfl⟩
    | present hkind hread => exact Or.inl ⟨_, _, rfl, hkind, _, hread, rfl⟩

theorem reads_skipWord {n : Nat} {keyword : TokenKind} (hkeyword : keyword ≠ TokenKind.eof) :
    Reads tokens n (skipWord tokens keyword) (fun u _ r => WordRead keyword u r) := by
  refine Reads.congr (reads_keyword hs hkeyword (Reads.pure (n := n) ()) (Nat.le_succ n)
    (Reads.pure ())) ?_
  intro u a r
  constructor
  · intro h
    rcases h with ⟨tok, t, hu, hkind, ht, _⟩ | ⟨hhead, hu, _⟩
    · rw [hu, ht]
      exact WordRead.present hkind
    · rw [hu] at hhead ⊢
      exact WordRead.absent hhead
  · intro h
    cases h with
    | absent hhead => exact Or.inr ⟨hhead, rfl, rfl⟩
    | present hkind => exact Or.inl ⟨_, _, rfl, hkind, rfl, rfl⟩

theorem reads_parseOrderBy {n : Nat} :
    Reads tokens n (parseOrderBy tokens) (fun u orderBy _ => OrderByOf u orderBy) := by
  refine Reads.congr (Reads.andThen (reads_skipWord hs (by decide))
    (fun _ => Reads.map (reads_parseField hs) (fun field => (⟨field, false⟩ : OrderBy)))) ?_
  intro u orderBy r
  constructor
  · intro h
    rcases h with ⟨_, b, w, hu, hword, field, ⟨f, hw, hf⟩, horder⟩
    rw [hu, hw, horder]
    cases hword with
    | absent _ => exact OrderByOf.order OptionalWord.absent hf
    | present hkind => exact OrderByOf.order (OptionalWord.present hkind) hf
  · intro h
    cases h with
    | @order b f field hword hf =>
        refine ⟨(), b, [f], rfl, ?_, field, ⟨f, rfl, hf⟩, rfl⟩
        cases hword with
        | absent =>
            apply WordRead.absent
            intro hhead
            have hkind : f.kind = TokenKind.byKw := Option.some.inj hhead
            unfold fieldOf at hf
            rw [hkind] at hf
            cases hf
        | present hkind => exact WordRead.present hkind

theorem reads_parseWeight {n : Nat} :
    Reads tokens n (parseWeight ops tokens) (fun u x _ => WeightOf ops TriedAsNumber u x) := by
  refine Reads.congr (Reads.andThen (reads_expect hs (by decide)) (fun _ =>
    Reads.andThen (reads_expect hs (by decide)) (fun _ => reads_parseEntry ops hs _))) ?_
  intro u x r
  constructor
  · intro h
    rcases h with ⟨name, v, w, hu, ⟨hv, hname⟩, eq, v', t, hw, ⟨hv', heq⟩, hx⟩
    rw [hu, hv, hw, hv']
    exact WeightOf.weight hname heq hx
  · intro h
    cases h with
    | @weight name eq t _ hname heq hx =>
        exact ⟨name, [name], eq :: t, rfl, ⟨rfl, hname⟩, eq, [eq], t, rfl, ⟨rfl, heq⟩, hx⟩

theorem reads_parseEdgeFilter {n : Nat} :
    Reads tokens n (parseEdgeFilter tokens) (fun u edgeTypes _ => EdgeFilterOf u edgeTypes) := by
  refine Reads.congr (Reads.andThen (reads_expect hs (by decide)) (fun _ =>
    Reads.andThen (reads_expect hs (by decide)) (fun _ =>
      Reads.map (reads_parseEdgeType hs) (fun edgeType => [edgeType])))) ?_
  intro u edgeTypes r
  constructor
  · intro h
    rcases h with ⟨word, v, w, hu, ⟨hv, hword⟩, eq, v', t, hw, ⟨hv', heq⟩, edgeType,
      ⟨tok, ht, htok⟩, hedgeTypes⟩
    rw [hu, hv, hw, hv', ht, hedgeTypes]
    exact EdgeFilterOf.edgeType hword heq htok
  · intro h
    cases h with
    | @edgeType word eq tok edgeType hword heq htok =>
        exact ⟨word, [word], [eq, tok], rfl, ⟨rfl, hword⟩, eq, [eq], [tok], rfl, ⟨rfl, heq⟩,
          edgeType, ⟨tok, rfl, htok⟩, rfl⟩

end Clauses

/-!
## Statements
-/

/-- What is read as the statement after the keyword, before other tokens. -/
inductive BodyRead (ops : LiteralOps F) :
    TokenKind -> List Token -> Statement F -> List Token -> Prop where
  | «recall» {m n w o l r : List Token} {near : Option (List F)}
      {filters : Option (List (Filter F))} {orderBy : Option OrderBy} {limit : Option Nat} :
      WordRead TokenKind.memories m (n ++ (w ++ (o ++ (l ++ r)))) ->
      ClauseRead TokenKind.near (fun t xs _ => VectorOf ops TriedAsNumber t xs) n near
        (w ++ (o ++ (l ++ r))) ->
      ClauseRead TokenKind.whereKw (fun t filters r => FiltersOf ops TriedAsNumber t filters ∧
        headKind r ≠ some TokenKind.and) w filters (o ++ (l ++ r)) ->
      ClauseRead TokenKind.orderBy (fun t orderBy _ => OrderByOf t orderBy) o orderBy (l ++ r) ->
      ClauseRead TokenKind.limit (fun t limit _ => CountOf t limit) l limit r ->
        BodyRead ops TokenKind.recallKw (m ++ (n ++ (w ++ (o ++ l))))
          (Statement.recall ⟨filters.getD [], near, limit, orderBy⟩) r
  | relate {s arrow t as_ e : Token} {w r : List Token} {source target : MemoryId}
      {edgeType : EdgeType} {weight : Option F} :
      uuidOf ops s = some source -> arrow.kind = TokenKind.arrow ->
      uuidOf ops t = some target -> as_.kind = TokenKind.asKw -> edgeTypeOf e = some edgeType ->
      ClauseRead TokenKind.withKw (fun t x _ => WeightOf ops TriedAsNumber t x) w weight r ->
        BodyRead ops TokenKind.relate (s :: arrow :: t :: as_ :: e :: w)
          (Statement.relate ⟨source, target, edgeType, weight⟩) r
  | forget {t : Token} {r : List Token} {target : MemoryId} : uuidOf ops t = some target ->
        BodyRead ops TokenKind.forget [t] (Statement.forget ⟨target⟩) r
  | consolidate {w r : List Token} {filters : Option (List (Filter F))} :
      ClauseRead TokenKind.whereKw (fun t filters r => FiltersOf ops TriedAsNumber t filters ∧
        headKind r ≠ some TokenKind.and) w filters r ->
        BodyRead ops TokenKind.consolidate w (Statement.consolidate ⟨filters.getD []⟩) r
  | traverse {s d c : Token} {w r : List Token} {start : MemoryId} {depth : Nat}
      {edgeFilter : Option (List EdgeType)} :
      uuidOf ops s = some start -> d.kind = TokenKind.depth -> countOf c = some depth ->
      ClauseRead TokenKind.whereKw (fun t edgeTypes _ => EdgeFilterOf t edgeTypes) w edgeFilter r ->
        BodyRead ops TokenKind.traverse (s :: d :: c :: w)
          (Statement.traverse ⟨start, depth, edgeFilter⟩) r

/-- The tokens are read as the statement when they stand before the others. -/
def ReadAs (ops : LiteralOps F) (u : List Token) (statement : Statement F) (r : List Token) :
    Prop :=
  exists k body, u = k :: body ∧ BodyRead ops k.kind body statement r

section Statements

variable {tokens : List Token} (ops : LiteralOps F) (hs : Shaped tokens)

include hs

/-- What follows the first token of a statement. -/
theorem outcome_afterKeyword {α : Type} {n : Nat} {tok : Token} {rest : List Token}
    (hr : tok :: rest <:+ tokens) (hlen : (tok :: rest).length <= n)
    (hkind : tok.kind ≠ TokenKind.eof) {x : Parser α}
    {reading : List Token -> α -> List Token -> Prop} (hx : Reads tokens n x reading) (a : α)
    (p : Nat) :
    ((advance tokens >>= fun _ => x) (startOf tokens (tok :: rest))).outcome =
        Except.ok (a, p) <->
      exists u r', rest = u ++ r' ∧ r' ≠ [] ∧ reading u a r' ∧ p = startOf tokens r' := by
  rw [outcome_bind_of_ok (outcome_advance hr)]
  rw [List.length_cons] at hlen
  exact hx rest ((List.suffix_cons tok rest).trans hr) (hs.rest_ne_nil hr hkind) (by omega) a p

theorem reads_recallBody {n : Nat} (hn : n <= tokens.length) :
    Reads tokens n (do
        skipWord tokens TokenKind.memories
        let near <- parseClause tokens TokenKind.near (parseVector ops tokens)
        let filters <- parseClause tokens TokenKind.whereKw (parseFilters ops tokens)
        let orderBy <- parseClause tokens TokenKind.orderBy (parseOrderBy tokens)
        let limit <- parseClause tokens TokenKind.limit
          (parseCount tokens "invalid limit value: ")
        return Statement.recall ⟨filters.getD [], near, limit, orderBy⟩)
      (BodyRead ops TokenKind.recallKw) := by
  refine Reads.congr (Reads.andThen (reads_skipWord hs (by decide)) (fun _ =>
    Reads.andThen (reads_parseClause hs (by decide) (reads_parseVector ops hs hn)) (fun near =>
    Reads.andThen (reads_parseClause hs (by decide) (reads_parseFilters ops hs hn)) (fun filters =>
    Reads.andThen (reads_parseClause hs (by decide) (reads_parseOrderBy hs)) (fun orderBy =>
    Reads.map (reads_parseClause hs (by decide) (reads_parseCount hs _)) (fun limit =>
      (Statement.recall ⟨filters.getD [], near, limit, orderBy⟩ : Statement F))))))) ?_
  intro u statement r
  constructor
  · intro h
    rcases h with ⟨_, m, u1, hu, hm, near, n', u2, hu1, hnear, filters, w, u3, hu2, hfilters,
      orderBy, o, l, hu3, horder, limit, hlimit, hstatement⟩
    rw [hu3] at hfilters hu2
    rw [hu2] at hnear hu1
    rw [hu1] at hm hu
    rw [hu, hstatement]
    simp only [List.append_assoc] at hm hnear hfilters
    exact BodyRead.recall hm hnear hfilters horder hlimit
  · intro h
    cases h with
    | @«recall» m n' w o l _ near filters orderBy limit hm hnear hfilters horder hlimit =>
        refine ⟨(), m, n' ++ (w ++ (o ++ l)), rfl, ?_, near, n', w ++ (o ++ l), rfl, ?_, filters, w,
          o ++ l, rfl, ?_, orderBy, o, l, rfl, horder, limit, hlimit, rfl⟩
        · simp only [List.append_assoc]
          exact hm
        · simp only [List.append_assoc]
          exact hnear
        · simp only [List.append_assoc]
          exact hfilters

theorem reads_relateBody {n : Nat} :
    Reads tokens n (do
        let source <- parseUuid ops tokens
        let _ <- expect tokens TokenKind.arrow
        let target <- parseUuid ops tokens
        let _ <- expect tokens TokenKind.asKw
        let edgeType <- parseEdgeType tokens
        let weight <- parseClause tokens TokenKind.withKw (parseWeight ops tokens)
        return Statement.relate ⟨source, target, edgeType, weight⟩)
      (BodyRead ops TokenKind.relate) := by
  refine Reads.congr (Reads.andThen (reads_parseUuid ops hs) (fun source =>
    Reads.andThen (reads_expect hs (by decide)) (fun _ =>
    Reads.andThen (reads_parseUuid ops hs) (fun target =>
    Reads.andThen (reads_expect hs (by decide)) (fun _ =>
    Reads.andThen (reads_parseEdgeType hs) (fun edgeType =>
    Reads.map (reads_parseClause hs (by decide) (reads_parseWeight ops hs)) (fun weight =>
      (Statement.relate ⟨source, target, edgeType, weight⟩ : Statement F)))))))) ?_
  intro u statement r
  constructor
  · intro h
    rcases h with ⟨source, _, u1, hu, ⟨s, hs', hsource⟩, arrow, _, u2, hu1, ⟨ha, harrow⟩, target, _,
      u3, hu2, ⟨t, ht, htarget⟩, as_, _, u4, hu3, ⟨hb, has⟩, edgeType, _, w, hu4, ⟨e, he, hedge⟩,
      weight, hweight, hstatement⟩
    rw [hu, hs', hu1, ha, hu2, ht, hu3, hb, hu4, he, hstatement]
    exact BodyRead.relate hsource harrow htarget has hedge hweight
  · intro h
    cases h with
    | @relate s arrow t as_ e w _ source target edgeType weight hsource harrow htarget has hedge
        hweight =>
        exact ⟨source, [s], arrow :: t :: as_ :: e :: w, rfl, ⟨s, rfl, hsource⟩, arrow, [arrow],
          t :: as_ :: e :: w, rfl, ⟨rfl, harrow⟩, target, [t], as_ :: e :: w, rfl,
          ⟨t, rfl, htarget⟩, as_, [as_], e :: w, rfl, ⟨rfl, has⟩, edgeType, [e], w, rfl,
          ⟨e, rfl, hedge⟩, weight, hweight, rfl⟩

theorem reads_forgetBody {n : Nat} :
    Reads tokens n (do
        let target <- parseUuid ops tokens
        return Statement.forget ⟨target⟩)
      (BodyRead ops TokenKind.forget) := by
  refine Reads.congr (Reads.map (reads_parseUuid ops hs) (fun target =>
    (Statement.forget ⟨target⟩ : Statement F))) ?_
  intro u statement r
  constructor
  · intro h
    rcases h with ⟨target, ⟨t, hu, htarget⟩, hstatement⟩
    rw [hu, hstatement]
    exact BodyRead.forget htarget
  · intro h
    cases h with
    | @forget t _ target htarget =>
        exact ⟨target, ⟨t, rfl, htarget⟩, rfl⟩

theorem reads_consolidateBody {n : Nat} (hn : n <= tokens.length) :
    Reads tokens n (do
        let filters <- parseClause tokens TokenKind.whereKw (parseFilters ops tokens)
        return Statement.consolidate ⟨filters.getD []⟩)
      (BodyRead ops TokenKind.consolidate) := by
  refine Reads.congr (Reads.map (reads_parseClause hs (by decide) (reads_parseFilters ops hs hn))
    (fun filters => (Statement.consolidate ⟨filters.getD []⟩ : Statement F))) ?_
  intro u statement r
  constructor
  · intro h
    rcases h with ⟨filters, hfilters, hstatement⟩
    rw [hstatement]
    exact BodyRead.consolidate hfilters
  · intro h
    cases h with
    | @consolidate w _ filters hfilters =>
        exact ⟨filters, hfilters, rfl⟩

theorem reads_traverseBody {n : Nat} :
    Reads tokens n (do
        let start <- parseUuid ops tokens
        let _ <- expect tokens TokenKind.depth
        let depth <- parseCount tokens "invalid depth value: "
        let edgeFilter <- parseClause tokens TokenKind.whereKw (parseEdgeFilter tokens)
        return Statement.traverse ⟨start, depth, edgeFilter⟩)
      (BodyRead ops TokenKind.traverse) := by
  refine Reads.congr (Reads.andThen (reads_parseUuid ops hs) (fun start =>
    Reads.andThen (reads_expect hs (by decide)) (fun _ =>
    Reads.andThen (reads_parseCount hs _) (fun depth =>
    Reads.map (reads_parseClause hs (by decide) (reads_parseEdgeFilter hs)) (fun edgeFilter =>
      (Statement.traverse ⟨start, depth, edgeFilter⟩ : Statement F)))))) ?_
  intro u statement r
  constructor
  · intro h
    rcases h with ⟨start, _, u1, hu, ⟨s, hs', hstart⟩, d, _, u2, hu1, ⟨hd, hdepth⟩, depth, c, w,
      hu2, hcount, edgeFilter, hfilter, hstatement⟩
    rw [hu, hs', hu1, hd, hu2, hstatement]
    cases hcount with
    | count hcount => exact BodyRead.traverse hstart hdepth hcount hfilter
  · intro h
    cases h with
    | @traverse s d c w _ start depth edgeFilter hstart hdepth hcount hfilter =>
        exact ⟨start, [s], d :: c :: w, rfl, ⟨s, rfl, hstart⟩, d, [d], c :: w,
          rfl, ⟨rfl, hdepth⟩, depth, [c], w, rfl, CountOf.count hcount, edgeFilter, hfilter, rfl⟩

omit hs in
theorem BodyRead.keyword {kind : TokenKind} {u r : List Token} {statement : Statement F}
    (h : BodyRead ops kind u statement r) :
    kind = TokenKind.recallKw ∨ kind = TokenKind.relate ∨ kind = TokenKind.forget ∨
      kind = TokenKind.consolidate ∨ kind = TokenKind.traverse := by
  cases h with
  | «recall» _ _ _ _ _ => exact Or.inl rfl
  | relate _ _ _ _ _ _ => exact Or.inr (Or.inl rfl)
  | forget _ => exact Or.inr (Or.inr (Or.inl rfl))
  | consolidate _ => exact Or.inr (Or.inr (Or.inr (Or.inl rfl)))
  | traverse _ _ _ _ => exact Or.inr (Or.inr (Or.inr (Or.inr rfl)))

/-- The first token with a body behind it. -/
theorem reads_statement_of_body {n : Nat} {tok : Token} {rest : List Token}
    (hr : tok :: rest <:+ tokens) (hlen : (tok :: rest).length <= n) {kind : TokenKind}
    (htok : tok.kind = kind) (hkind : kind ≠ TokenKind.eof) {body : Parser (Statement F)}
    (hbody : Reads tokens n body (BodyRead ops kind)) (statement : Statement F) (p : Nat) :
    ((advance tokens >>= fun _ => body) (startOf tokens (tok :: rest))).outcome =
        Except.ok (statement, p) <->
      exists u r', tok :: rest = u ++ r' ∧ r' ≠ [] ∧ ReadAs ops u statement r' ∧
        p = startOf tokens r' := by
  rw [outcome_afterKeyword hs hr hlen (htok ▸ hkind) hbody]
  constructor
  · intro h
    rcases h with ⟨u, r', hrest, hne, hread, hp⟩
    rw [← htok] at hread
    exact ⟨tok :: u, r', by rw [hrest]; rfl, hne, ⟨tok, u, rfl, hread⟩, hp⟩
  · intro h
    rcases h with ⟨u, r', hall, hne, ⟨k, v, hu, hread⟩, hp⟩
    rw [hu, List.cons_append] at hall
    rcases List.cons.inj hall with ⟨hk, hrest⟩
    rw [← hk, htok] at hread
    exact ⟨v, r', hrest, hne, hread, hp⟩

theorem reads_parseStatement {n : Nat} (hn : n <= tokens.length) :
    Reads tokens n (parseStatement ops tokens) (ReadAs ops) := by
  intro r hr hne hlen statement p
  cases r with
  | nil => exact absurd rfl hne
  | cons tok rest =>
      have hbody : forall {kind : TokenKind} {body : Parser (Statement F)}, tok.kind = kind ->
          kind ≠ TokenKind.eof -> Reads tokens n body (BodyRead ops kind) -> _ :=
        fun htok hkind hread =>
          reads_statement_of_body ops hs hr hlen htok hkind hread statement p
      unfold parseStatement
      rw [outcome_bind_of_ok (outcome_peek hr)]
      -- the branch is chosen before it is run
      generalize hbranch : statementFrom ops tokens tok = branch
      unfold statementFrom at hbranch
      split at hbranch
      · rename_i hkind
        rw [← hbranch]
        exact hbody hkind (by decide) (reads_recallBody ops hs hn)
      · rename_i hkind
        rw [← hbranch]
        exact hbody hkind (by decide) (reads_relateBody ops hs)
      · rename_i hkind
        rw [← hbranch]
        exact hbody hkind (by decide) (reads_forgetBody ops hs)
      · rename_i hkind
        rw [← hbranch]
        exact hbody hkind (by decide) (reads_consolidateBody ops hs hn)
      · rename_i hkind
        rw [← hbranch]
        exact hbody hkind (by decide) (reads_traverseBody ops hs)
      · rename_i h1 h2 h3 h4 h5
        rw [← hbranch]
        constructor
        · intro h
          cases h
        · intro h
          rcases h with ⟨u, r', hall, _, ⟨k, v, hu, hread⟩, _⟩
          rw [hu, List.cons_append] at hall
          rw [← (List.cons.inj hall).1] at hread
          rcases hread.keyword with hk | hk | hk | hk | hk
          · exact absurd hk h1
          · exact absurd hk h2
          · exact absurd hk h3
          · exact absurd hk h4
          · exact absurd hk h5

end Statements

end Query
end MenteDb
