import MenteDb.Query.Reading

/-!
# What the parser accepts

The parser reads a sentence from the front of the tokens and does not look at what
follows it.  On the tokens of the lexer it returns every sentence of the grammar, it
never leaves the tokens, and it accepts exactly the grammar when no shorter sentence
stands before a token that does not go on from it.
-/

namespace MenteDb
namespace Query

open Foundation
open Utf8
open Scan

variable {F : Type} {ops : LiteralOps F}

/-!
## Sentences that were read
-/

theorem WordRead.optional {keyword : TokenKind} {t r : List Token} (h : WordRead keyword t r) :
    OptionalWord keyword t := by
  cases h with
  | absent _ => exact OptionalWord.absent
  | present hkind => exact OptionalWord.present hkind

theorem ClauseRead.clause {α : Type} {keyword : TokenKind}
    {reading : List Token -> α -> List Token -> Prop} {body : List Token -> α -> Prop}
    {t r : List Token} {a : Option α} (h : ClauseRead keyword reading t a r)
    (hbody : forall t a r, reading t a r -> body t a) : Clause keyword body t a := by
  cases h with
  | absent _ => exact Clause.absent
  | present hkind hread => exact Clause.present hkind (hbody _ _ _ hread)

theorem ReadAs.derives {u r : List Token} {statement : Statement F}
    (h : ReadAs ops u statement r) : Derives ops TriedAsNumber u statement := by
  rcases h with ⟨k, body, hu, hread⟩
  rw [hu]
  generalize hk : k.kind = kind at hread
  cases hread with
  | «recall» hm hn hw ho hl =>
      exact Derives.recall hk hm.optional (hn.clause (fun _ _ _ h => h))
        (hw.clause (fun _ _ _ h => h.1)) (ho.clause (fun _ _ _ h => h))
        (hl.clause (fun _ _ _ h => h))
  | relate hs ha ht has he hw =>
      exact Derives.relate hk hs ha ht has he (hw.clause (fun _ _ _ h => h))
  | forget ht => exact Derives.forget hk ht
  | consolidate hw => exact Derives.consolidate hk (hw.clause (fun _ _ _ h => h.1))
  | traverse hs hd hc hw =>
      exact Derives.traverse hk hs hd hc (hw.clause (fun _ _ _ h => h))

/-!
## Number tokens
-/

theorem IsNumber.tried {tok : Token} (h : IsNumber tok) : TriedAsNumber tok := by
  intro hkind
  rcases h with h | h
  · rw [hkind] at h
    cases h
  · rw [hkind] at h
    cases h

section Numbers

variable {number number' : Token -> Prop} (hnumber : forall tok, number tok -> number' tok)

include hnumber

theorem EntryOf.mono {t : List Token} {x : F} (h : EntryOf ops number t x) :
    EntryOf ops number' t x := by
  cases h with
  | entry htok hx => exact EntryOf.entry (hnumber _ htok) hx

omit hnumber in
theorem Separated.mono {α : Type} {separator : TokenKind} {item item' : List Token -> α -> Prop}
    (hitem : forall t a, item t a -> item' t a) {t : List Token} {items : List α}
    (h : Separated separator item t items) : Separated separator item' t items := by
  induction h with
  | last hfirst => exact Separated.last (hitem _ _ hfirst)
  | cons hfirst hsep _ ih => exact Separated.cons (hitem _ _ hfirst) hsep ih

theorem VectorOf.mono {t : List Token} {xs : List F} (h : VectorOf ops number t xs) :
    VectorOf ops number' t xs := by
  cases h with
  | empty hl hr => exact VectorOf.empty hl hr
  | entries hl hes hr =>
      exact VectorOf.entries hl (hes.mono (fun _ _ h => h.mono hnumber)) hr

theorem FilterOf.mono {t : List Token} {filter : Filter F} (h : FilterOf ops number t filter) :
    FilterOf ops number' t filter := by
  cases h with
  | filter hf ho hv =>
      cases hv with
      | single hvalue => exact FilterOf.filter hf ho (ValueOf.single hvalue)
      | vector hfield hxs => exact FilterOf.filter hf ho (ValueOf.vector hfield (hxs.mono hnumber))

theorem FiltersOf.mono {t : List Token} {filters : List (Filter F)}
    (h : FiltersOf ops number t filters) : FiltersOf ops number' t filters :=
  Separated.mono (fun _ _ h => h.mono hnumber) h

theorem WeightOf.mono {t : List Token} {x : F} (h : WeightOf ops number t x) :
    WeightOf ops number' t x := by
  cases h with
  | weight hname heq hx => exact WeightOf.weight hname heq (hx.mono hnumber)

omit hnumber in
theorem Clause.mono {α : Type} {keyword : TokenKind} {body body' : List Token -> α -> Prop}
    (hbody : forall t a, body t a -> body' t a) {t : List Token} {a : Option α}
    (h : Clause keyword body t a) : Clause keyword body' t a := by
  cases h with
  | absent => exact Clause.absent
  | present hkind hread => exact Clause.present hkind (hbody _ _ hread)

theorem Derives.mono {t : List Token} {statement : Statement F}
    (h : Derives ops number t statement) : Derives ops number' t statement := by
  cases h with
  | «recall» hk hm hn hw ho hl =>
      exact Derives.recall hk hm (hn.mono (fun _ _ h => h.mono hnumber))
        (hw.mono (fun _ _ h => h.mono hnumber)) ho hl
  | relate hk hs ha ht has he hw =>
      exact Derives.relate hk hs ha ht has he (hw.mono (fun _ _ h => h.mono hnumber))
  | forget hk ht => exact Derives.forget hk ht
  | consolidate hk hw => exact Derives.consolidate hk (hw.mono (fun _ _ h => h.mono hnumber))
  | traverse hk hs hd hc hw => exact Derives.traverse hk hs hd hc hw

end Numbers

/-!
## Reading a sentence

A sentence is read whole when no clause that could still come begins behind it.
-/

theorem headKind_append_ne {t r : List Token} {kind : TokenKind} (ht : headKind t ≠ some kind)
    (hr : t = [] -> headKind r ≠ some kind) : headKind (t ++ r) ≠ some kind := by
  cases t with
  | nil => exact hr rfl
  | cons tok rest => exact ht

theorem Clause.headKind_ne {α : Type} {keyword kind : TokenKind} {body : List Token -> α -> Prop}
    {t : List Token} {a : Option α} (h : Clause keyword body t a) (hkind : keyword ≠ kind) :
    headKind t ≠ some kind := by
  cases h with
  | absent =>
      intro hhead
      cases hhead
  | present htok _ =>
      intro hhead
      exact hkind (htok.symm.trans (Option.some.inj hhead))

theorem Clause.read {α : Type} {keyword : TokenKind} {body : List Token -> α -> Prop}
    {reading : List Token -> α -> List Token -> Prop} {t r : List Token} {a : Option α}
    (h : Clause keyword body t a) (hhead : t = [] -> headKind r ≠ some keyword)
    (hbody : t ≠ [] -> forall u b, body u b -> reading u b r) :
    ClauseRead keyword reading t a r := by
  cases h with
  | absent => exact ClauseRead.absent (hhead rfl)
  | present hkind hread =>
      exact ClauseRead.present hkind (hbody (List.cons_ne_nil _ _) _ _ hread)

theorem OptionalWord.read {keyword : TokenKind} {t r : List Token} (h : OptionalWord keyword t)
    (hhead : t = [] -> headKind r ≠ some keyword) : WordRead keyword t r := by
  cases h with
  | absent => exact WordRead.absent (hhead rfl)
  | present hkind => exact WordRead.present hkind

section Sentences

variable {number : Token -> Prop}

/-- What may not begin behind a recall: every clause that would come after its last. -/
structure RecallEnds (m n w o l r : List Token) : Prop where
  limit : l = [] -> headKind r ≠ some TokenKind.limit
  orderBy : o = [] -> l = [] -> headKind r ≠ some TokenKind.orderBy
  whereKw : w = [] -> o = [] -> l = [] -> headKind r ≠ some TokenKind.whereKw
  and : w ≠ [] -> o = [] -> l = [] -> headKind r ≠ some TokenKind.and
  near : n = [] -> w = [] -> o = [] -> l = [] -> headKind r ≠ some TokenKind.near
  memories : m = [] -> n = [] -> w = [] -> o = [] -> l = [] ->
    headKind r ≠ some TokenKind.memories

theorem readAs_recall {k : Token} {m n w o l r : List Token} {near : Option (List F)}
    {filters : Option (List (Filter F))} {orderBy : Option OrderBy} {limit : Option Nat}
    (hk : k.kind = TokenKind.recallKw) (hm : OptionalWord TokenKind.memories m)
    (hn : Clause TokenKind.near (VectorOf ops TriedAsNumber) n near)
    (hw : Clause TokenKind.whereKw (FiltersOf ops TriedAsNumber) w filters)
    (ho : Clause TokenKind.orderBy OrderByOf o orderBy)
    (hl : Clause TokenKind.limit CountOf l limit) (hend : RecallEnds m n w o l r) :
    ReadAs ops (k :: (m ++ (n ++ (w ++ (o ++ l)))))
      (Statement.recall ⟨filters.getD [], near, limit, orderBy⟩) r := by
  refine ⟨k, _, rfl, ?_⟩
  rw [hk]
  apply BodyRead.recall
  · apply hm.read
    intro hm
    apply headKind_append_ne (hn.headKind_ne (by decide))
    intro hn
    apply headKind_append_ne (hw.headKind_ne (by decide))
    intro hw
    apply headKind_append_ne (ho.headKind_ne (by decide))
    intro ho
    exact headKind_append_ne (hl.headKind_ne (by decide)) (hend.memories hm hn hw ho)
  · apply hn.read
    · intro hn
      apply headKind_append_ne (hw.headKind_ne (by decide))
      intro hw
      apply headKind_append_ne (ho.headKind_ne (by decide))
      intro ho
      exact headKind_append_ne (hl.headKind_ne (by decide)) (hend.near hn hw ho)
    · intro _ t xs hxs
      exact hxs
  · apply hw.read
    · intro hw
      apply headKind_append_ne (ho.headKind_ne (by decide))
      intro ho
      exact headKind_append_ne (hl.headKind_ne (by decide)) (hend.whereKw hw ho)
    · intro hw t filters hfilters
      refine ⟨hfilters, ?_⟩
      apply headKind_append_ne (ho.headKind_ne (by decide))
      intro ho
      exact headKind_append_ne (hl.headKind_ne (by decide)) (hend.and hw ho)
  · apply ho.read
    · intro ho
      exact headKind_append_ne (hl.headKind_ne (by decide)) (hend.orderBy ho)
    · intro _ t orderBy horder
      exact horder
  · exact hl.read hend.limit (fun _ _ _ hcount => hcount)

end Sentences

/-!
## Going on

Behind every sentence a keyword either ends it for the parser or begins a longer
sentence.
-/

/-- A token the lexer may write before the end. -/
structure Plain (tok : Token) : Prop where
  not_eof : tok.kind ≠ TokenKind.eof
  spelled : Spelled tok.kind tok.lexeme.toList

theorem Plain.of_other {tok : Token} (heof : tok.kind ≠ TokenKind.eof)
    (hstring : tok.kind ≠ TokenKind.stringLit) (hbracket : tok.kind ≠ TokenKind.rBracket) :
    Plain tok :=
  ⟨heof, ⟨fun h => absurd h hstring, fun h => absurd h hbracket⟩⟩

/-- Some sentence begins with the tokens. -/
def Begins (ops : LiteralOps F) (u : List Token) : Prop :=
  exists w statement, (forall tok, tok ∈ w -> Plain tok) ∧
    Derives ops TriedAsNumber (u ++ w) statement

theorem Begins.of_derives {u v w : List Token} {statement : Statement F}
    (hw : forall tok, tok ∈ w -> Plain tok) (h : Derives ops TriedAsNumber v statement)
    (hv : v = u ++ w) : Begins ops u :=
  ⟨w, statement, hw, hv ▸ h⟩

def oneToken : Token := ⟨TokenKind.integerLit, "1", 0⟩

def eqToken : Token := ⟨TokenKind.eq, "=", 0⟩

def tagToken : Token := ⟨TokenKind.tag, "tag", 0⟩

def nameToken (name : String) : Token := ⟨TokenKind.identifier, name, 0⟩

theorem plain_oneToken : Plain oneToken := Plain.of_other (by decide) (by decide) (by decide)

theorem plain_eqToken : Plain eqToken := Plain.of_other (by decide) (by decide) (by decide)

theorem plain_tagToken : Plain tagToken := Plain.of_other (by decide) (by decide) (by decide)

theorem plain_nameToken (name : String) : Plain (nameToken name) :=
  Plain.of_other TokenKind.noConfusion TokenKind.noConfusion TokenKind.noConfusion

theorem countOf_oneToken : CountOf [oneToken] 1 := CountOf.count (by decide +kernel)

theorem filterOf_sample (number : Token -> Prop) :
    FilterOf ops number [tagToken, eqToken, nameToken "x"]
      ⟨Field.tag, Operator.eq, wordValue "x"⟩ :=
  FilterOf.filter rfl rfl (ValueOf.single rfl)

theorem weightOf_sample (ops : LiteralOps F) :
    exists x, WeightOf ops TriedAsNumber [nameToken "weight", eqToken, oneToken] x := by
  have hparse : parseDecimal oneToken.lexeme.toList = some (Decimal.finite false 1 0) := by
    decide +kernel
  have hone : ops.parseF32 oneToken.lexeme = some (ops.single (Decimal.finite false 1 0)) := by
    unfold LiteralOps.parseF32
    rw [hparse]
    rfl
  exact ⟨_, WeightOf.weight rfl rfl (EntryOf.entry (IsNumber.tried (Or.inl rfl)) hone)⟩

theorem edgeFilterOf_sample :
    EdgeFilterOf [⟨TokenKind.edgeType, "edge_type", 0⟩, eqToken, nameToken "caused"]
      [EdgeType.caused] :=
  EdgeFilterOf.edgeType rfl rfl (by decide +kernel)

theorem vectorOf_empty (number : Token -> Prop) :
    VectorOf ops number [⟨TokenKind.lBracket, "[", 0⟩, ⟨TokenKind.rBracket, "]", 0⟩] [] :=
  VectorOf.empty rfl rfl

theorem Separated.concat {α : Type} {separator : TokenKind} {item : List Token -> α -> Prop}
    {t u : List Token} {items : List α} {sep : Token} {a : α}
    (h : Separated separator item t items) (hsep : sep.kind = separator) (ha : item u a) :
    Separated separator item (t ++ sep :: u) (items ++ [a]) := by
  induction h with
  | last hfirst => exact Separated.cons hfirst hsep (Separated.last ha)
  | cons hfirst hmid _ ih =>
      rw [List.append_assoc, List.cons_append]
      exact Separated.cons hfirst hmid ih

theorem recallEnds_or (m n w o l : List Token) (tok : Token) (v : List Token) :
    RecallEnds m n w o l (tok :: v) ∨ (l = [] ∧ tok.kind = TokenKind.limit) ∨
      (o = [] ∧ l = [] ∧ tok.kind = TokenKind.orderBy) ∨
      (w = [] ∧ o = [] ∧ l = [] ∧ tok.kind = TokenKind.whereKw) ∨
      (w ≠ [] ∧ o = [] ∧ l = [] ∧ tok.kind = TokenKind.and) ∨
      (n = [] ∧ w = [] ∧ o = [] ∧ l = [] ∧ tok.kind = TokenKind.near) ∨
      (m = [] ∧ n = [] ∧ w = [] ∧ o = [] ∧ l = [] ∧ tok.kind = TokenKind.memories) := by
  by_contra h
  simp only [not_or, not_and] at h
  rcases h with ⟨hends, hlimit, horder, hwhere, hand, hnear, hmemories⟩
  apply hends
  constructor
  · intro hl hhead
    exact hlimit hl (Option.some.inj hhead)
  · intro ho hl hhead
    exact horder ho hl (Option.some.inj hhead)
  · intro hw ho hl hhead
    exact hwhere hw ho hl (Option.some.inj hhead)
  · intro hw ho hl hhead
    exact hand hw ho hl (Option.some.inj hhead)
  · intro hn hw ho hl hhead
    exact hnear hn hw ho hl (Option.some.inj hhead)
  · intro hm hn hw ho hl hhead
    exact hmemories hm hn hw ho hl (Option.some.inj hhead)

/-- The words at which a sentence may go on. -/
def clauseWords : List TokenKind :=
  [TokenKind.memories, TokenKind.near, TokenKind.whereKw, TokenKind.and, TokenKind.orderBy,
    TokenKind.limit, TokenKind.withKw]

theorem plain_filterTokens :
    forall tok, tok ∈ [tagToken, eqToken, nameToken "x"] -> Plain tok := by
  intro tok htok
  simp only [List.mem_cons, List.not_mem_nil, or_false] at htok
  rcases htok with htok | htok | htok
  · exact htok ▸ plain_tagToken
  · exact htok ▸ plain_eqToken
  · exact htok ▸ plain_nameToken "x"

theorem plain_weightTokens :
    forall tok, tok ∈ [nameToken "weight", eqToken, oneToken] -> Plain tok := by
  intro tok htok
  simp only [List.mem_cons, List.not_mem_nil, or_false] at htok
  rcases htok with htok | htok | htok
  · exact htok ▸ plain_nameToken "weight"
  · exact htok ▸ plain_eqToken
  · exact htok ▸ plain_oneToken

theorem plain_edgeFilterTokens :
    forall tok, tok ∈ [⟨TokenKind.edgeType, "edge_type", 0⟩, eqToken, nameToken "caused"] ->
      Plain tok := by
  intro tok htok
  simp only [List.mem_cons, List.not_mem_nil, or_false] at htok
  rcases htok with htok | htok | htok
  · exact htok ▸ Plain.of_other (by decide) (by decide) (by decide)
  · exact htok ▸ plain_eqToken
  · exact htok ▸ plain_nameToken "caused"

theorem plain_vectorTokens :
    forall tok, tok ∈ [(⟨TokenKind.lBracket, "[", 0⟩ : Token), ⟨TokenKind.rBracket, "]", 0⟩] ->
      Plain tok := by
  intro tok htok
  simp only [List.mem_cons, List.not_mem_nil, or_false] at htok
  rcases htok with htok | htok
  · exact htok ▸ Plain.of_other (by decide) (by decide) (by decide)
  · rw [htok]
    constructor
    · decide
    · constructor
      · intro h
        cases h
      · intro _
        rfl

/-- A further filter, or the first. -/
theorem clause_filters_goesOn {w : List Token} {filters : Option (List (Filter F))} {tok : Token}
    (h : Clause TokenKind.whereKw (FiltersOf ops TriedAsNumber) w filters)
    (htok : (w = [] ∧ tok.kind = TokenKind.whereKw) ∨ (w ≠ [] ∧ tok.kind = TokenKind.and)) :
    exists more, Clause TokenKind.whereKw (FiltersOf ops TriedAsNumber)
      (w ++ tok :: [tagToken, eqToken, nameToken "x"]) (some more) := by
  cases h with
  | absent =>
      rcases htok with ⟨_, hkind⟩ | ⟨hne, _⟩
      · exact ⟨_, Clause.present hkind (Separated.last (filterOf_sample _))⟩
      · exact absurd rfl hne
  | present hwhere hfilters =>
      rcases htok with ⟨hnil, _⟩ | ⟨_, hkind⟩
      · exact absurd hnil (List.cons_ne_nil _ _)
      · exact ⟨_, Clause.present hwhere (Separated.concat hfilters hkind (filterOf_sample _))⟩

/-- A recall goes on with the clause that begins behind it, or it is read. -/
theorem recall_readAs_or_goesOn {k : Token} {m n w o l : List Token} {near : Option (List F)}
    {filters : Option (List (Filter F))} {orderBy : Option OrderBy} {limit : Option Nat}
    (hk : k.kind = TokenKind.recallKw) (hm : OptionalWord TokenKind.memories m)
    (hn : Clause TokenKind.near (VectorOf ops TriedAsNumber) n near)
    (hw : Clause TokenKind.whereKw (FiltersOf ops TriedAsNumber) w filters)
    (ho : Clause TokenKind.orderBy OrderByOf o orderBy)
    (hl : Clause TokenKind.limit CountOf l limit) (tok : Token) (v : List Token) :
    ReadAs ops (k :: (m ++ (n ++ (w ++ (o ++ l)))))
        (Statement.recall ⟨filters.getD [], near, limit, orderBy⟩) (tok :: v) ∨
      (tok.kind ∈ clauseWords ∧ Begins ops (k :: (m ++ (n ++ (w ++ (o ++ l)))) ++ [tok])) := by
  rcases recallEnds_or m n w o l tok v with hends | ⟨hnil, hkind⟩ | ⟨hnil, hnil', hkind⟩ |
    ⟨hw', ho', hl', hkind⟩ | ⟨hw', ho', hl', hkind⟩ | ⟨hn', hw', ho', hl', hkind⟩ |
    ⟨hm', hn', hw', ho', hl', hkind⟩
  · exact Or.inl (readAs_recall hk hm hn hw ho hl hends)
  · refine Or.inr ⟨by rw [hkind]; decide, ?_⟩
    have hmore := Derives.recall hk hm hn hw ho (Clause.present hkind countOf_oneToken)
    refine Begins.of_derives (w := [oneToken]) ?_ hmore ?_
    · intro x hx
      rw [List.mem_singleton.mp hx]
      exact plain_oneToken
    · simp [hnil]
  · refine Or.inr ⟨by rw [hkind]; decide, ?_⟩
    have hfield : OrderByOf [tagToken] ⟨Field.tag, false⟩ :=
      OrderByOf.order OptionalWord.absent rfl
    have hmore := Derives.recall hk hm hn hw (Clause.present hkind hfield)
      (Clause.absent : Clause TokenKind.limit CountOf [] none)
    refine Begins.of_derives (w := [tagToken]) ?_ hmore ?_
    · intro x hx
      rw [List.mem_singleton.mp hx]
      exact plain_tagToken
    · simp [hnil, hnil']
  · refine Or.inr ⟨by rw [hkind]; decide, ?_⟩
    rcases clause_filters_goesOn hw (Or.inl ⟨hw', hkind⟩) with ⟨more, hmore⟩
    refine Begins.of_derives plain_filterTokens (Derives.recall hk hm hn hmore ho hl) ?_
    simp [ho', hl']
  · refine Or.inr ⟨by rw [hkind]; decide, ?_⟩
    rcases clause_filters_goesOn hw (Or.inr ⟨hw', hkind⟩) with ⟨more, hmore⟩
    refine Begins.of_derives plain_filterTokens (Derives.recall hk hm hn hmore ho hl) ?_
    simp [ho', hl']
  · refine Or.inr ⟨by rw [hkind]; decide, ?_⟩
    have hmore := Derives.recall hk hm (Clause.present hkind (vectorOf_empty _)) hw ho hl
    refine Begins.of_derives plain_vectorTokens hmore ?_
    simp [hn', hw', ho', hl']
  · refine Or.inr ⟨by rw [hkind]; decide, ?_⟩
    have hmore := Derives.recall hk (OptionalWord.present hkind) hn hw ho hl
    refine Begins.of_derives (w := []) ?_ hmore ?_
    · intro x hx
      exact absurd hx List.not_mem_nil
    · simp [hm', hn', hw', ho', hl']

theorem readAs_or_goesOn {u : List Token} {statement : Statement F}
    (h : Derives ops TriedAsNumber u statement) (tok : Token) (v : List Token) :
    ReadAs ops u statement (tok :: v) ∨ (tok.kind ∈ clauseWords ∧ Begins ops (u ++ [tok])) := by
  cases h with
  | «recall» hk hm hn hw ho hl => exact recall_readAs_or_goesOn hk hm hn hw ho hl tok v
  | @relate k s arrow t as_ e w source target edgeType weight hk hs ha ht has he hw =>
      by_cases hkind : w = [] ∧ tok.kind = TokenKind.withKw
      · refine Or.inr ⟨by rw [hkind.2]; decide, ?_⟩
        rcases weightOf_sample ops with ⟨x, hx⟩
        refine Begins.of_derives plain_weightTokens
          (Derives.relate hk hs ha ht has he (Clause.present hkind.2 hx)) ?_
        simp [hkind.1]
      · refine Or.inl ⟨k, _, rfl, ?_⟩
        rw [hk]
        refine BodyRead.relate hs ha ht has he (hw.read ?_ (fun _ _ _ h => h))
        intro hnil hhead
        exact hkind ⟨hnil, Option.some.inj hhead⟩
  | @forget k t target hk ht =>
      refine Or.inl ⟨k, _, rfl, ?_⟩
      rw [hk]
      exact BodyRead.forget ht
  | @consolidate k w filters hk hw =>
      by_cases hkind : (w = [] ∧ tok.kind = TokenKind.whereKw) ∨
          (w ≠ [] ∧ tok.kind = TokenKind.and)
      · refine Or.inr ⟨?_, ?_⟩
        · rcases hkind with hkind | hkind
          · rw [hkind.2]
            decide
          · rw [hkind.2]
            decide
        · rcases clause_filters_goesOn hw hkind with ⟨more, hmore⟩
          refine Begins.of_derives plain_filterTokens (Derives.consolidate hk hmore) ?_
          simp
      · rw [not_or] at hkind
        refine Or.inl ⟨k, _, rfl, ?_⟩
        rw [hk]
        refine BodyRead.consolidate (hw.read ?_ ?_)
        · intro hnil hhead
          exact hkind.1 ⟨hnil, Option.some.inj hhead⟩
        · intro hne t filters hfilters
          exact ⟨hfilters, fun hhead => hkind.2 ⟨hne, Option.some.inj hhead⟩⟩
  | @traverse k s d c w start depth edgeFilter hk hs hd hc hw =>
      by_cases hkind : w = [] ∧ tok.kind = TokenKind.whereKw
      · refine Or.inr ⟨by rw [hkind.2]; decide, ?_⟩
        refine Begins.of_derives plain_edgeFilterTokens
          (Derives.traverse hk hs hd hc (Clause.present hkind.2 edgeFilterOf_sample)) ?_
        simp [hkind.1]
      · refine Or.inl ⟨k, _, rfl, ?_⟩
        rw [hk]
        refine BodyRead.traverse hs hd hc (hw.read ?_ (fun _ _ _ h => h))
        intro hnil hhead
        exact hkind ⟨hnil, Option.some.inj hhead⟩

/-!
## One token of lookahead
-/

theorem headKind_append_congr {r r' : List Token} (h : headKind r = headKind r')
    (t : List Token) : headKind (t ++ r) = headKind (t ++ r') := by
  cases t with
  | nil => exact h
  | cons tok rest => rfl

theorem ClauseRead.congr {α : Type} {keyword : TokenKind}
    {reading : List Token -> α -> List Token -> Prop} {t r r' : List Token} {a : Option α}
    (h : ClauseRead keyword reading t a r) (hhead : headKind r = headKind r')
    (hreading : forall u b, reading u b r -> reading u b r') :
    ClauseRead keyword reading t a r' := by
  cases h with
  | absent hne => exact ClauseRead.absent (hhead ▸ hne)
  | present hkind hread => exact ClauseRead.present hkind (hreading _ _ hread)

theorem ReadAs.congr {u r r' : List Token} {statement : Statement F}
    (h : ReadAs ops u statement r) (hhead : headKind r = headKind r') :
    ReadAs ops u statement r' := by
  rcases h with ⟨k, body, hu, hread⟩
  refine ⟨k, body, hu, ?_⟩
  generalize k.kind = kind at hread
  cases hread with
  | @«recall» m n w o l _ _ _ _ _ hm hn hw ho hl =>
      have hl' := headKind_append_congr hhead l
      have ho' := headKind_append_congr hl' o
      have hw' := headKind_append_congr ho' w
      refine BodyRead.recall ?_ (hn.congr hw' (fun _ _ h => h)) (hw.congr ho' ?_)
        (ho.congr hl' (fun _ _ h => h)) (hl.congr hhead (fun _ _ h => h))
      · cases hm with
        | absent hne => exact WordRead.absent (headKind_append_congr hw' n ▸ hne)
        | present hkind => exact WordRead.present hkind
      · intro t filters hfilters
        exact ⟨hfilters.1, ho' ▸ hfilters.2⟩
  | relate hs ha ht has he hw =>
      exact BodyRead.relate hs ha ht has he (hw.congr hhead (fun _ _ h => h))
  | forget ht => exact BodyRead.forget ht
  | consolidate hw =>
      exact BodyRead.consolidate (hw.congr hhead (fun _ _ h => ⟨h.1, hhead ▸ h.2⟩))
  | traverse hs hd hc hw =>
      exact BodyRead.traverse hs hd hc (hw.congr hhead (fun _ _ h => h))

/-!
## Acceptance
-/

theorem shaped_of_plain {t : List Token} {last : Token} (hlast : last.kind = TokenKind.eof)
    (hlexeme : last.lexeme = "") (ht : forall tok, tok ∈ t -> Plain tok) :
    Shaped (t ++ [last]) := by
  refine ⟨⟨t, last, rfl, hlast, hlexeme, fun tok htok => (ht tok htok).not_eof⟩, ?_⟩
  intro tok htok
  rcases List.mem_append.mp htok with htok | htok
  · exact (ht tok htok).spelled
  · rw [List.mem_singleton.mp htok]
    constructor
    · intro hkind
      rw [hlast] at hkind
      cases hkind
    · intro hkind
      rw [hlast] at hkind
      cases hkind

section Accepting

variable {t : List Token} {last : Token} (hs : Shaped (t ++ [last]))

include hs

theorem Shaped.last_eof : last.kind = TokenKind.eof ∧ last.lexeme = "" :=
  hs.eof_of_single (List.suffix_append t [last])

theorem Shaped.plain {tok : Token} (htok : tok ∈ t) : Plain tok := by
  rcases hs.ends with ⟨t', last', heq, _, _, hplain⟩
  have ht : t = t' := (List.append_inj' heq rfl).1
  exact ⟨hplain tok (ht ▸ htok), hs.spelled tok (List.mem_append_left [last] htok)⟩

theorem parse_eq_ok_iff (statement : Statement F) :
    parse ops (t ++ [last]) = Except.ok statement <->
      exists u r, t ++ [last] = u ++ r ∧ r ≠ [] ∧ ReadAs ops u statement r := by
  have hne : t ++ [last] ≠ [] := List.append_ne_nil_of_right_ne_nil t (List.cons_ne_nil last [])
  have hzero : startOf (t ++ [last]) (t ++ [last]) = 0 := Nat.sub_self _
  have hreads := reads_parseStatement ops hs (Nat.le_refl _) (t ++ [last]) (List.suffix_refl _) hne
    (Nat.le_refl _) statement
  rw [hzero] at hreads
  unfold parse parseRun
  constructor
  · intro h
    cases hrun : (parseStatement ops (t ++ [last]) 0).outcome with
    | error s =>
        rw [hrun] at h
        cases h
    | ok found =>
        rcases found with ⟨statement', p⟩
        rw [hrun] at h
        cases h
        rcases (hreads p).mp hrun with ⟨u, r, heq, hr, hread, _⟩
        exact ⟨u, r, heq, hr, hread⟩
  · intro h
    rcases h with ⟨u, r, heq, hr, hread⟩
    rw [(hreads (startOf (t ++ [last]) r)).mpr ⟨u, r, heq, hr, hread, rfl⟩]
    rfl

/-- One sentence is read. -/
theorem readAs_unique {u u' r r' : List Token} {statement statement' : Statement F}
    (hu : t ++ [last] = u ++ r) (hr : r ≠ []) (hread : ReadAs ops u statement r)
    (hu' : t ++ [last] = u' ++ r') (hr' : r' ≠ []) (hread' : ReadAs ops u' statement' r') :
    u = u' := by
  have hne : t ++ [last] ≠ [] := List.append_ne_nil_of_right_ne_nil t (List.cons_ne_nil last [])
  have hreads := reads_parseStatement ops hs (Nat.le_refl _) (t ++ [last]) (List.suffix_refl _) hne
    (Nat.le_refl _)
  have hrun := (hreads statement _).mpr ⟨u, r, hu, hr, hread, rfl⟩
  have hrun' := (hreads statement' _).mpr ⟨u', r', hu', hr', hread', rfl⟩
  rw [hrun] at hrun'
  have hstart : startOf (t ++ [last]) r = startOf (t ++ [last]) r' :=
    (Prod.mk.inj (Except.ok.inj hrun')).2
  have hsuffix : r = r' := by
    apply startOf_inj _ _ hstart
    · rw [hu]
      exact List.suffix_append u r
    · rw [hu']
      exact List.suffix_append u' r'
  rw [hu, hsuffix] at hu'
  exact (List.append_inj' hu' rfl).1

/-- No clause begins at the end. -/
theorem Derives.readAs {statement : Statement F} (h : Derives ops TriedAsNumber t statement) :
    ReadAs ops t statement [last] := by
  rcases readAs_or_goesOn h last [] with hread | ⟨hkind, _⟩
  · exact hread
  · rw [hs.last_eof.1] at hkind
    exact absurd hkind (by decide)

theorem parse_of_derives {statement : Statement F} (h : Derives ops TriedAsNumber t statement) :
    parse ops (t ++ [last]) = Except.ok statement :=
  (parse_eq_ok_iff hs statement).mpr ⟨t, [last], rfl, List.cons_ne_nil last [], h.readAs hs⟩

end Accepting

/-- A sentence that is read before a token does not go on with that token. -/
theorem not_begins_of_readAs {u v : List Token} {tok last : Token} {statement : Statement F}
    (hs : Shaped (u ++ tok :: v ++ [last])) (h : ReadAs ops u statement (tok :: v ++ [last])) :
    ¬ Begins ops (u ++ [tok]) := by
  intro hbegins
  rcases hbegins with ⟨w, statement', hplain, hderives⟩
  have hs' : Shaped (u ++ [tok] ++ w ++ [last]) := by
    apply shaped_of_plain hs.last_eof.1 hs.last_eof.2
    intro x hx
    rcases List.mem_append.mp hx with hx | hx
    · apply hs.plain
      rcases List.mem_append.mp hx with hx | hx
      · exact List.mem_append_left _ hx
      · exact List.mem_append_right _ (List.mem_singleton.mp hx ▸ List.mem_cons_self)
    · exact hplain x hx
  have hread : ReadAs ops u statement (tok :: (w ++ [last])) := h.congr rfl
  have hsame : u = u ++ [tok] ++ w := by
    refine readAs_unique hs' ?_ (List.cons_ne_nil _ _) hread rfl (List.cons_ne_nil last [])
      (hderives.readAs hs')
    simp
  have hlength := congrArg List.length hsame
  simp at hlength

/-- A sentence that is accepted with tokens behind it goes on if only the grammar is
accepted. -/
theorem begins_of_accepts {u v : List Token} {tok last : Token} {statement : Statement F}
    (hs : Shaped (u ++ tok :: v ++ [last])) (h : ReadAs ops u statement (tok :: v ++ [last]))
    (haccepts : forall statement, parse ops (u ++ tok :: v ++ [last]) = Except.ok statement <->
      Derives ops IsNumber (u ++ tok :: v) statement) :
    Begins ops (u ++ [tok]) := by
  have hparse : parse ops (u ++ tok :: v ++ [last]) = Except.ok statement :=
    (parse_eq_ok_iff hs statement).mpr
      ⟨u, _, List.append_assoc u (tok :: v) [last], List.cons_ne_nil _ _, h⟩
  have hall := ((haccepts statement).mp hparse).mono (fun _ => IsNumber.tried)
  refine Begins.of_derives (w := v) ?_ hall ?_
  · intro x hx
    exact hs.plain (List.mem_append_right u (List.mem_cons_of_mem tok hx))
  · rw [List.append_assoc]
    rfl

/-- The parser accepts exactly the sentences with number tokens for numbers if and only if
no sentence stands before a token that does not go on from it, and the tokens are no
sentence with another token for a number. -/
theorem parse_accepts_grammar_iff {input : String} {t : List Token} {last : Token}
    (h : tokenize input = Except.ok (t ++ [last])) :
    (forall statement, parse ops (t ++ [last]) = Except.ok statement <->
        Derives ops IsNumber t statement) <->
      (forall u tok v statement, t = u ++ tok :: v -> Derives ops TriedAsNumber u statement ->
        Begins ops (u ++ [tok])) ∧
      (forall statement, Derives ops TriedAsNumber t statement ->
        Derives ops IsNumber t statement) := by
  have hs := shaped_of_tokenize h
  constructor
  · intro haccepts
    constructor
    · intro u tok v statement ht hu
      rcases readAs_or_goesOn hu tok (v ++ [last]) with hread | hbegins
      · rw [ht] at hs haccepts
        exact begins_of_accepts hs hread haccepts
      · exact hbegins.2
    · intro statement hderives
      exact (haccepts statement).mp (parse_of_derives hs hderives)
  · intro hcondition statement
    constructor
    · intro hparse
      rcases (parse_eq_ok_iff hs statement).mp hparse with ⟨u, r, heq, hne, hread⟩
      -- what is left over is the end token or a token that was not taken
      rcases List.eq_nil_or_concat r with hr | ⟨v, x, hr⟩
      · exact absurd hr hne
      · rw [hr, List.concat_eq_append, ← List.append_assoc] at heq
        rcases List.append_inj' heq rfl with ⟨ht, hx⟩
        cases v with
        | nil =>
            rw [List.append_nil] at ht
            rw [ht] at hcondition ⊢
            exact hcondition.2 statement hread.derives
        | cons tok v =>
            rw [hr, List.concat_eq_append, ← (List.cons.inj hx).1] at hread
            rw [ht] at hs
            exact absurd (hcondition.1 u tok v statement ht hread.derives)
              (not_begins_of_readAs hs hread)
    · intro hderives
      exact parse_of_derives hs (hderives.mono (fun _ => IsNumber.tried))

/-- The libraries on queries without identifiers and numbers. -/
def bareOps : LiteralOps Rat := ⟨fun _ => none, fun _ => 0, fun _ => 0⟩

/-- A query with a word that is not in the language. -/
theorem parse_accepts_grammar_iff_desc :
    exists t last, tokenize "RECALL memories ORDER BY salience DESC" = Except.ok (t ++ [last]) ∧
      ((forall statement, parse bareOps (t ++ [last]) = Except.ok statement <->
          Derives bareOps IsNumber t statement) <->
        (forall u tok v statement, t = u ++ tok :: v ->
          Derives bareOps TriedAsNumber u statement -> Begins bareOps (u ++ [tok])) ∧
        (forall statement, Derives bareOps TriedAsNumber t statement ->
          Derives bareOps IsNumber t statement)) := by
  have hrun : tokenize "RECALL memories ORDER BY salience DESC" = Except.ok
      ([⟨TokenKind.recallKw, "RECALL", 0⟩, ⟨TokenKind.memories, "memories", 7⟩,
        ⟨TokenKind.orderBy, "ORDER", 16⟩, ⟨TokenKind.byKw, "BY", 22⟩,
        ⟨TokenKind.salience, "salience", 25⟩, ⟨TokenKind.identifier, "DESC", 34⟩] ++
        [⟨TokenKind.eof, "", 38⟩]) := by decide +kernel
  exact ⟨_, _, hrun, parse_accepts_grammar_iff hrun⟩

/-- What stands behind {lit}`OR` is dropped. -/
theorem parse_drops_or :
    exists t last, tokenize "RECALL memories WHERE tag = a OR tag = b" =
        Except.ok (t ++ [last]) ∧
      ¬ forall statement, parse bareOps (t ++ [last]) = Except.ok statement <->
        Derives bareOps IsNumber t statement := by
  have hrun : tokenize "RECALL memories WHERE tag = a OR tag = b" = Except.ok
      ([⟨TokenKind.recallKw, "RECALL", 0⟩, ⟨TokenKind.memories, "memories", 7⟩,
        ⟨TokenKind.whereKw, "WHERE", 16⟩, ⟨TokenKind.tag, "tag", 22⟩, ⟨TokenKind.eq, "=", 26⟩,
        ⟨TokenKind.identifier, "a", 28⟩] ++ ⟨TokenKind.or, "OR", 30⟩ ::
        [⟨TokenKind.tag, "tag", 33⟩, ⟨TokenKind.eq, "=", 37⟩, ⟨TokenKind.identifier, "b", 39⟩] ++
        [⟨TokenKind.eof, "", 40⟩]) := by decide +kernel
  have hs := shaped_of_tokenize hrun
  have hfilter : FilterOf bareOps TriedAsNumber [⟨TokenKind.tag, "tag", 22⟩,
      ⟨TokenKind.eq, "=", 26⟩, ⟨TokenKind.identifier, "a", 28⟩]
      ⟨Field.tag, Operator.eq, wordValue "a"⟩ :=
    FilterOf.filter rfl rfl (ValueOf.single rfl)
  have hwhere : Clause TokenKind.whereKw (FiltersOf bareOps TriedAsNumber)
      [⟨TokenKind.whereKw, "WHERE", 16⟩, ⟨TokenKind.tag, "tag", 22⟩, ⟨TokenKind.eq, "=", 26⟩,
        ⟨TokenKind.identifier, "a", 28⟩] (some [⟨Field.tag, Operator.eq, wordValue "a"⟩]) :=
    Clause.present rfl (Separated.last hfilter)
  have hmemories : OptionalWord TokenKind.memories [⟨TokenKind.memories, "memories", 7⟩] :=
    OptionalWord.present rfl
  have hderives := Derives.recall (k := ⟨TokenKind.recallKw, "RECALL", 0⟩) rfl hmemories
    Clause.absent hwhere Clause.absent Clause.absent
  refine ⟨_, _, hrun, ?_⟩
  intro haccepts
  rcases readAs_or_goesOn hderives ⟨TokenKind.or, "OR", 30⟩ [⟨TokenKind.tag, "tag", 33⟩,
    ⟨TokenKind.eq, "=", 37⟩, ⟨TokenKind.identifier, "b", 39⟩, ⟨TokenKind.eof, "", 40⟩]
    with hread | ⟨hkind, _⟩
  · exact not_begins_of_readAs hs hread (begins_of_accepts hs hread haccepts)
  · exact absurd hkind (by decide)

end Query
end MenteDb
