import MenteDb.Query.Acceptance

/-!
# Safety of the parser

On the tokens of the lexer the parser stays within the tokens, never fails a slice or
a step back, and ends.  Every function keeps the position at or behind where it began;
the loops end because a separator is never the last token.
-/

namespace MenteDb
namespace Query

open Foundation
open Utf8
open Scan

variable {F : Type}

/-!
## Positions
-/

/-- Between a position and the end. -/
def Within (tokens : List Token) (q p : Nat) : Prop := q <= p ∧ p <= tokens.length

/-- The program stays within the tokens, does not end before where it began, and ends with
a result or an error. -/
def Keeps {α : Type} (tokens : List Token) (x : Parser α) : Prop :=
  forall q, Safe tokens.length (Within tokens q) x (fun _ p => Within tokens q p)

section Rules

variable {tokens : List Token} {α β : Type}

theorem keeps_pure (a : α) : Keeps tokens (pure a : Parser α) :=
  fun _ => Safe.pure (fun _ hp => hp)

theorem keeps_parseError (message : String) : Keeps tokens (parseError message : Parser α) :=
  fun _ => Safe.error

theorem Keeps.bind {x : Parser α} {f : α -> Parser β} (hx : Keeps tokens x)
    (hf : forall a, Keeps tokens (f a)) : Keeps tokens (x >>= f) :=
  fun q => Safe.bind (hx q) (fun a => hf a q)

theorem keeps_orError (found : Option α) (message : String) :
    Keeps tokens (orError found message) := by
  cases found with
  | none => exact keeps_parseError message
  | some a => exact keeps_pure a

theorem keeps_ite {c : Prop} [Decidable c] {x y : Parser α} (hx : Keeps tokens x)
    (hy : Keeps tokens y) : Keeps tokens (if c then x else y) := by
  split
  · exact hx
  · exact hy

end Rules

/-!
## Looking and moving
-/

section Moving

variable {tokens : List Token} (hs : Shaped tokens)

include hs

/-- Only the end token is seen behind the end. -/
theorem getElem?_peeked (pos : Nat) :
    exists tok, tokens[min pos (tokens.length - 1)]? = some tok ∧ tok ∈ tokens ∧
      (tok.kind ≠ TokenKind.eof -> pos < tokens.length) := by
  rcases hs.ends with ⟨t, last, htokens, hlast, _, _⟩
  have hlen : tokens.length = t.length + 1 := by
    rw [htokens, List.length_append]
    rfl
  have hlt : min pos (tokens.length - 1) < tokens.length := by omega
  refine ⟨_, List.getElem?_eq_getElem hlt, List.getElem_mem hlt, ?_⟩
  intro hkind
  by_contra hpos
  have hmin : min pos (tokens.length - 1) = t.length := by omega
  have hfound : tokens[min pos (tokens.length - 1)]? = some last := by
    rw [hmin, htokens]
    exact List.getElem?_concat_length
  rw [List.getElem?_eq_getElem hlt] at hfound
  rw [Option.some.inj hfound] at hkind
  exact hkind hlast

theorem safe_peek (pre : Nat -> Prop) :
    Safe tokens.length pre (peek tokens) (fun tok p =>
      pre p ∧ tok ∈ tokens ∧ (tok.kind ≠ TokenKind.eof -> p < tokens.length)) := by
  unfold peek
  refine Safe.bind Safe.position ?_
  intro pos
  rcases getElem?_peeked hs pos with ⟨tok, hget, htok, hkind⟩
  rw [hget]
  apply Safe.pure
  intro p hp
  exact ⟨hp.2, htok, hp.1 ▸ hkind⟩

/-- A token other than the end moves the position. -/
theorem safe_advance (q : Nat) :
    Safe tokens.length (Within tokens q) (advance tokens) (fun tok p =>
      Within tokens q p ∧ tok ∈ tokens ∧ (tok.kind ≠ TokenKind.eof -> q + 1 <= p)) := by
  unfold advance
  refine Safe.bind (safe_peek hs _) ?_
  intro tok
  refine Safe.bind Safe.position ?_
  intro pos
  unfold Within
  by_cases hlt : pos < tokens.length
  · rw [if_pos hlt]
    have hmoved : forall p, pos = p ∧ (q <= p ∧ p <= tokens.length) ∧ tok ∈ tokens ∧
        (tok.kind ≠ TokenKind.eof -> p < tokens.length) ->
        pos + 1 <= tokens.length ∧ (q <= pos + 1 ∧ pos + 1 <= tokens.length) ∧ tok ∈ tokens ∧
          (tok.kind ≠ TokenKind.eof -> q + 1 <= pos + 1) := by
      intro p hp
      rw [← hp.1] at hp
      exact ⟨hlt, ⟨by omega, hlt⟩, hp.2.2.1, fun _ => Nat.succ_le_succ hp.2.1.1⟩
    exact Safe.bind (Safe.moveTo hmoved) (fun _ => Safe.pure (fun _ hp => hp))
  · rw [if_neg hlt]
    apply Safe.pure
    intro p hp
    refine ⟨hp.2.1, hp.2.2.1, ?_⟩
    intro hkind
    rw [hp.1] at hlt
    exact absurd (hp.2.2.2 hkind) hlt

/-- Before the end the position moves. -/
theorem safe_advance_of_lt (q : Nat) :
    Safe tokens.length (fun p => q <= p ∧ p < tokens.length) (advance tokens) (fun _ p =>
      Within tokens (q + 1) p) := by
  unfold advance
  refine Safe.bind (safe_peek hs _) ?_
  intro tok
  refine Safe.bind Safe.position ?_
  intro pos
  unfold Within
  by_cases hlt : pos < tokens.length
  · rw [if_pos hlt]
    have hmoved : forall p, pos = p ∧ (q <= p ∧ p < tokens.length) ∧ tok ∈ tokens ∧
        (tok.kind ≠ TokenKind.eof -> p < tokens.length) ->
        pos + 1 <= tokens.length ∧ q + 1 <= pos + 1 ∧ pos + 1 <= tokens.length := by
      intro p hp
      rw [← hp.1] at hp
      exact ⟨hlt, Nat.succ_le_succ hp.2.1.1, hlt⟩
    exact Safe.bind (Safe.moveTo hmoved) (fun _ => Safe.pure (fun _ hp => hp))
  · rw [if_neg hlt]
    apply Safe.pure
    intro p hp
    rw [hp.1] at hlt
    exact absurd hp.2.1.2 hlt

/-- A function that reads one token. -/
theorem keeps_advance_bind {α : Type} {f : Token -> Parser α}
    (hf : forall tok, tok ∈ tokens -> Keeps tokens (f tok)) :
    Keeps tokens (advance tokens >>= f) := by
  intro q
  refine Safe.bind (safe_advance hs q) ?_
  intro tok pos hpos
  exact hf tok hpos.2.1 q pos hpos.1

theorem keeps_peek : Keeps tokens (peek tokens) :=
  fun _ => (safe_peek hs _).mono (fun _ hp => hp) (fun _ _ hp => hp.1)

theorem keeps_advance : Keeps tokens (advance tokens) :=
  fun q => (safe_advance hs q).mono (fun _ hp => hp) (fun _ _ hp => hp.1)

theorem keeps_expect (kind : TokenKind) : Keeps tokens (expect tokens kind) :=
  (keeps_peek hs).bind (fun _ => keeps_ite (keeps_parseError _) (keeps_advance hs))

/-- A kind other than the end is not seen at the end. -/
theorem safe_atKind {kind : TokenKind} (hkind : kind ≠ TokenKind.eof) (pre : Nat -> Prop) :
    Safe tokens.length pre (atKind tokens kind) (fun found p =>
      pre p ∧ (found = true -> p < tokens.length)) := by
  unfold atKind
  refine Safe.bind (safe_peek hs pre) ?_
  intro tok
  apply Safe.pure
  intro p hp
  refine ⟨hp.1, ?_⟩
  intro hfound
  exact hp.2.2 (of_decide_eq_true hfound ▸ hkind)

theorem keeps_atKind (kind : TokenKind) : Keeps tokens (atKind tokens kind) :=
  (keeps_peek hs).bind (fun _ => keeps_pure _)

theorem keeps_stripQuotes {tok : Token} (htok : tok ∈ tokens)
    (hkind : tok.kind = TokenKind.stringLit) : Keeps tokens (stripQuotes tok) := by
  unfold stripQuotes
  rw [hs.sliceOf_quoted htok hkind]
  exact fun q => Safe.bind Safe.lift (fun _ => Safe.pure (fun _ hp => hp))

end Moving

/-!
## Loops and steps back
-/

section Functions

variable {tokens : List Token} (ops : LiteralOps F) (hs : Shaped tokens)

include hs

/-- A separator is not the end, so each turn moves the position. -/
theorem keeps_parseMore {α : Type} {separator : TokenKind} (hsep : separator ≠ TokenKind.eof)
    {item : Parser α} (hitem : Keeps tokens item) (fuel : Nat) (items : List α) (q : Nat)
    (hfuel : tokens.length <= q + fuel) :
    Safe tokens.length (Within tokens q) (parseMore tokens separator item fuel items)
      (fun _ p => Within tokens q p) := by
  induction fuel generalizing items q with
  | zero =>
      unfold parseMore
      refine Safe.bind (safe_atKind hs hsep _) ?_
      intro found
      cases found with
      | false => exact Safe.pure (fun _ hp => hp.1)
      | true =>
          intro pos hpos
          have hlt := hpos.2 rfl
          have hle := hpos.1.1
          omega
  | succ fuel ih =>
      unfold parseMore
      refine Safe.bind (safe_atKind hs hsep _) ?_
      intro found
      cases found with
      | false => exact Safe.pure (fun _ hp => hp.1)
      | true =>
          have hmoved := (safe_advance_of_lt hs q).mono
            (fun p (hp : Within tokens q p ∧ (true = true -> p < tokens.length)) =>
              ⟨hp.1.1, hp.2 rfl⟩) (fun _ _ hp => hp)
          refine Safe.bind hmoved (fun _ => Safe.bind (hitem (q + 1)) ?_)
          intro next
          exact (ih (items ++ [next]) (q + 1) (by omega)).mono (fun _ hp => hp)
            (fun _ _ hp => ⟨Nat.le_of_succ_le hp.1, hp.2⟩)

/-- The loops have as much fuel as there are tokens. -/
theorem keeps_parseMore_length {α : Type} {separator : TokenKind}
    (hsep : separator ≠ TokenKind.eof) {item : Parser α} (hitem : Keeps tokens item)
    (items : List α) : Keeps tokens (parseMore tokens separator item tokens.length items) :=
  fun q => keeps_parseMore hs hsep hitem tokens.length items q (Nat.le_add_left _ _)

omit hs in
/-- Behind a token that was passed over there is a position to go back to. -/
theorem safe_putBack (q : Nat) :
    Safe tokens.length (Within tokens (q + 1)) putBack (fun _ p => Within tokens q p) := by
  unfold putBack
  refine Safe.bind Safe.position ?_
  intro pos
  unfold Within
  by_cases hzero : pos = 0
  · intro p hp
    omega
  · rw [if_neg hzero]
    apply Safe.moveTo
    intro p hp
    omega

/-!
## The functions of the parser
-/

theorem keeps_parseField : Keeps tokens (parseField tokens) :=
  keeps_advance_bind hs (fun _ _ => keeps_orError _ _)

theorem keeps_parseOperator : Keeps tokens (parseOperator tokens) :=
  keeps_advance_bind hs (fun _ _ => keeps_orError _ _)

theorem keeps_parseCount (what : String) : Keeps tokens (parseCount tokens what) :=
  keeps_advance_bind hs (fun _ _ => keeps_orError _ _)

theorem keeps_parseEntry (what : String) : Keeps tokens (parseEntry ops tokens what) :=
  keeps_advance_bind hs (fun _ _ => keeps_orError _ _)

theorem keeps_parseName (expected : String) : Keeps tokens (parseName tokens expected) := by
  refine keeps_advance_bind hs ?_
  intro tok htok
  by_cases hident : tok.kind = TokenKind.identifier
  · rw [if_pos hident]
    exact keeps_pure _
  · rw [if_neg hident]
    by_cases hstring : tok.kind = TokenKind.stringLit
    · rw [if_pos hstring]
      exact keeps_stripQuotes hs htok hstring
    · rw [if_neg hstring]
      exact keeps_parseError _

theorem keeps_parseEdgeType : Keeps tokens (parseEdgeType tokens) :=
  (keeps_parseName hs _).bind (fun _ => keeps_orError _ _)

theorem keeps_parseMemoryTypeValue : Keeps tokens (parseMemoryTypeValue tokens : Parser (Value F)) :=
  (keeps_parseName hs _).bind (fun _ => (keeps_orError _ _).bind (fun _ => keeps_pure _))

theorem keeps_parseUuid : Keeps tokens (parseUuid ops tokens) := by
  refine keeps_advance_bind hs ?_
  intro tok htok
  by_cases huuid : tok.kind = TokenKind.uuidLit
  · rw [if_pos huuid]
    exact keeps_orError _ _
  · rw [if_neg huuid]
    by_cases hstring : tok.kind = TokenKind.stringLit
    · rw [if_pos hstring]
      exact (keeps_stripQuotes hs htok hstring).bind (fun _ => keeps_orError _ _)
    · rw [if_neg hstring]
      exact keeps_parseError _

theorem keeps_parseVector : Keeps tokens (parseVector ops tokens) := by
  have hmore : forall x, Keeps tokens (parseMore tokens TokenKind.comma
      (parseEntry ops tokens "invalid float in vector: ") tokens.length [x]) :=
    fun x => keeps_parseMore_length hs (by decide) (keeps_parseEntry ops hs _) [x]
  refine (keeps_expect hs _).bind (fun _ => Keeps.bind ?_ (fun values =>
    (keeps_expect hs _).bind (fun _ => keeps_pure values)))
  exact (keeps_atKind hs _).bind (fun _ => keeps_ite (keeps_pure _)
    ((keeps_parseEntry ops hs _).bind hmore))

/-- A vector is read again from its bracket, which is not the end token. -/
theorem safe_valueFrom {tok : Token} (htok : tok ∈ tokens) (q : Nat) :
    Safe tokens.length (fun p => Within tokens q p ∧ (tok.kind ≠ TokenKind.eof -> q + 1 <= p))
      (valueFrom ops tokens tok) (fun _ p => Within tokens q p) := by
  have hkeeps : forall {x : Parser (Value F)}, Keeps tokens x -> Safe tokens.length
      (fun p => Within tokens q p ∧ (tok.kind ≠ TokenKind.eof -> q + 1 <= p)) x
      (fun _ p => Within tokens q p) :=
    fun hx => (hx q).mono (fun _ hp => hp.1) (fun _ _ hp => hp)
  unfold valueFrom
  split
  · rename_i hstring
    exact hkeeps ((keeps_stripQuotes hs htok hstring).bind (fun _ => keeps_pure _))
  · exact hkeeps (keeps_orError _ _)
  · exact hkeeps (keeps_orError _ _)
  · exact hkeeps (keeps_orError _ _)
  · exact hkeeps (keeps_pure _)
  · rename_i hbracket
    have hback := (safe_putBack q).mono
      (fun p (hp : Within tokens q p ∧ (tok.kind ≠ TokenKind.eof -> q + 1 <= p)) =>
        ⟨hp.2 (by rw [hbracket]; decide), hp.1.2⟩) (fun _ _ hp => hp)
    exact Safe.bind hback (fun _ =>
      (keeps_parseVector ops hs).bind (fun v => keeps_pure (Value.vector v)) q)
  · exact hkeeps (keeps_parseError _)

theorem keeps_parseValue (field : Field) : Keeps tokens (parseValue ops tokens field) := by
  refine keeps_ite (keeps_parseMemoryTypeValue hs) ?_
  intro q
  refine Safe.bind (safe_advance hs q) ?_
  intro tok pos hpos
  exact safe_valueFrom ops hs hpos.2.1 q pos ⟨hpos.1, hpos.2.2⟩

theorem keeps_parseFilter : Keeps tokens (parseFilter ops tokens) :=
  (keeps_parseField hs).bind (fun field => (keeps_parseOperator hs).bind (fun _ =>
    (keeps_parseValue ops hs field).bind (fun _ => keeps_pure _)))

theorem keeps_parseFilters : Keeps tokens (parseFilters ops tokens) :=
  (keeps_parseFilter ops hs).bind (fun filter =>
    keeps_parseMore_length hs (by decide) (keeps_parseFilter ops hs) [filter])

theorem keeps_parseClause {α : Type} (keyword : TokenKind) {body : Parser α}
    (hbody : Keeps tokens body) : Keeps tokens (parseClause tokens keyword body) :=
  (keeps_atKind hs keyword).bind (fun _ => keeps_ite
    ((keeps_advance hs).bind (fun _ => hbody.bind (fun _ => keeps_pure _))) (keeps_pure _))

theorem keeps_skipWord (keyword : TokenKind) : Keeps tokens (skipWord tokens keyword) :=
  (keeps_atKind hs keyword).bind (fun _ => keeps_ite
    ((keeps_advance hs).bind (fun _ => keeps_pure _)) (keeps_pure _))

theorem keeps_parseOrderBy : Keeps tokens (parseOrderBy tokens) :=
  (keeps_skipWord hs _).bind (fun _ => (keeps_parseField hs).bind (fun _ => keeps_pure _))

theorem keeps_parseWeight : Keeps tokens (parseWeight ops tokens) :=
  (keeps_expect hs _).bind (fun _ => (keeps_expect hs _).bind (fun _ =>
    keeps_parseEntry ops hs _))

theorem keeps_parseEdgeFilter : Keeps tokens (parseEdgeFilter tokens) :=
  (keeps_expect hs _).bind (fun _ => (keeps_expect hs _).bind (fun _ =>
    (keeps_parseEdgeType hs).bind (fun _ => keeps_pure _)))

theorem keeps_parseRecall : Keeps tokens (parseRecall ops tokens) :=
  (keeps_advance hs).bind (fun _ => (keeps_skipWord hs _).bind (fun _ =>
    (keeps_parseClause hs _ (keeps_parseVector ops hs)).bind (fun _ =>
    (keeps_parseClause hs _ (keeps_parseFilters ops hs)).bind (fun _ =>
    (keeps_parseClause hs _ (keeps_parseOrderBy hs)).bind (fun _ =>
    (keeps_parseClause hs _ (keeps_parseCount hs _)).bind (fun _ => keeps_pure _))))))

theorem keeps_parseRelate : Keeps tokens (parseRelate ops tokens) :=
  (keeps_advance hs).bind (fun _ => (keeps_parseUuid ops hs).bind (fun _ =>
    (keeps_expect hs _).bind (fun _ => (keeps_parseUuid ops hs).bind (fun _ =>
    (keeps_expect hs _).bind (fun _ => (keeps_parseEdgeType hs).bind (fun _ =>
    (keeps_parseClause hs _ (keeps_parseWeight ops hs)).bind (fun _ => keeps_pure _)))))))

theorem keeps_parseForget : Keeps tokens (parseForget ops tokens : Parser (Statement F)) :=
  (keeps_advance hs).bind (fun _ => (keeps_parseUuid ops hs).bind (fun _ => keeps_pure _))

theorem keeps_parseConsolidate : Keeps tokens (parseConsolidate ops tokens) :=
  (keeps_advance hs).bind (fun _ =>
    (keeps_parseClause hs _ (keeps_parseFilters ops hs)).bind (fun _ => keeps_pure _))

theorem keeps_parseTraverse : Keeps tokens (parseTraverse ops tokens : Parser (Statement F)) :=
  (keeps_advance hs).bind (fun _ => (keeps_parseUuid ops hs).bind (fun _ =>
    (keeps_expect hs _).bind (fun _ => (keeps_parseCount hs _).bind (fun _ =>
    (keeps_parseClause hs _ (keeps_parseEdgeFilter hs)).bind (fun _ => keeps_pure _)))))

theorem keeps_parseStatement : Keeps tokens (parseStatement ops tokens) := by
  refine (keeps_peek hs).bind ?_
  intro tok
  unfold statementFrom
  split
  · exact keeps_parseRecall ops hs
  · exact keeps_parseRelate ops hs
  · exact keeps_parseForget ops hs
  · exact keeps_parseConsolidate ops hs
  · exact keeps_parseTraverse ops hs
  · exact keeps_parseError _

end Functions

/-- On tokens with the shape of the lexer's, the parser stays within the tokens, ends
without a panic, and returns the statement of every sentence. -/
theorem parse_safe_and_complete (ops : LiteralOps F) :
    (forall input tokens, tokenize input = Except.ok tokens -> Shaped tokens) ∧
      forall t last, Shaped (t ++ [last]) ->
        (forall p, p ∈ (parseRun ops (t ++ [last])).visited -> p <= (t ++ [last]).length) ∧
        Returns (parse ops (t ++ [last])) ∧
        forall statement, Derives ops IsNumber t statement ->
          parse ops (t ++ [last]) = Except.ok statement := by
  refine ⟨fun _ _ htokens => shaped_of_tokenize htokens, ?_⟩
  intro t last hs
  rcases keeps_parseStatement ops hs 0 0 ⟨Nat.le_refl 0, Nat.zero_le _⟩ with ⟨hvisited, hend⟩
  refine ⟨hvisited, ?_, ?_⟩
  · unfold parse parseRun
    cases hrun : (parseStatement ops (t ++ [last]) 0).outcome with
    | ok found => exact Or.inl ⟨found.1, rfl⟩
    | error s =>
        rw [hrun] at hend
        cases s with
        | error e => exact Or.inr ⟨e, rfl⟩
        | panic => exact hend.elim
        | timeout => exact hend.elim
  · intro statement hderives
    exact parse_of_derives hs (hderives.mono (fun _ => IsNumber.tried))

/-- A query that is a keyword and a clause. -/
theorem parse_safe_and_complete_limit :
    exists t last, tokenize "RECALL LIMIT 5" = Except.ok (t ++ [last]) ∧
      (forall p, p ∈ (parseRun bareOps (t ++ [last])).visited -> p <= (t ++ [last]).length) ∧
      Returns (parse bareOps (t ++ [last])) ∧
      forall statement, Derives bareOps IsNumber t statement ->
        parse bareOps (t ++ [last]) = Except.ok statement := by
  have hrun : tokenize "RECALL LIMIT 5" = Except.ok ([⟨TokenKind.recallKw, "RECALL", 0⟩,
      ⟨TokenKind.limit, "LIMIT", 7⟩, ⟨TokenKind.integerLit, "5", 13⟩] ++
      [⟨TokenKind.eof, "", 14⟩]) := by decide +kernel
  have hsafe := parse_safe_and_complete bareOps
  exact ⟨_, _, hrun, hsafe.2 _ _ (hsafe.1 _ _ hrun)⟩

end Query
end MenteDb
