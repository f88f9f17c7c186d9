import MenteDb.Facade.EntityResolver

/-!
# Resolving names in batches

Names that the table and the rules do not resolve are put to an LLM, all names of the batch at
once.  What it answers is learned, and the unresolved names are looked up again.
-/

namespace MenteDb
namespace Facade

open Foundation
open Cognitive

variable {F : Type}

structure EntityCandidate where
  name : String
  context : Option String
  memoryId : Option MemoryId
deriving DecidableEq, Repr

/-- A batch, and what the LLM answers if it is asked. -/
structure NameBatch (F : Type) where
  names : List String
  contexts : List (Option String)
  llm : List EntityCandidate -> Option (List (EntityMergeGroup F))

def NameBatch.candidates (batch : NameBatch F) : List EntityCandidate :=
  batch.names.zipIdx.map (fun p =>
    { name := p.1, context := (batch.contexts[p.2]?).join, memoryId := none })

/-- Puts a value at a place, if there is one for it. -/
def setSome {β : Type} (value : Nat -> Option β) (l : List β) (i : Nat) : List β :=
  match value i with
  | some x => l.set i x
  | none => l

namespace EntityResolver

section Batches

variable [Scalar F]

/-- The answer for a name that is in the table now. -/
def resolveAgain (text : TextOps F) (r : EntityResolver F) (name : String) :
    Option (ResolvedEntity F) :=
  let again := r.resolve text name
  if again.source = ResolutionSource.cache then
    some { again with source := ResolutionSource.llm }
  else none

def resolveBatchWithLlm (text : TextOps F) (r : EntityResolver F) (batch : NameBatch F) :
    List (ResolvedEntity F) × EntityResolver F :=
  let results := batch.names.map (r.resolve text)
  let unresolved := (results.zipIdx.filter (fun p =>
    decide (p.1.source = ResolutionSource.identity))).map Prod.snd
  if unresolved = [] then (results, r)
  else
    match batch.llm batch.candidates with
    | none => (results, r)
    | some groups =>
        let taught := groups.foldl (fun r group => r.learnGroup text group) r
        (unresolved.foldl (setSome (fun i => batch.names[i]?.bind (taught.resolveAgain text)))
          results, taught)

/-- The table after some batches. -/
def afterBatches (text : TextOps F) (r : EntityResolver F) (batches : List (NameBatch F)) :
    EntityResolver F :=
  batches.foldl (fun r batch => (r.resolveBatchWithLlm text batch).2) r

/-!
## The answer for a name
-/

/-- The answer for a name that the second table resolves if the first does not. -/
def answerOf (text : TextOps F) (r taught : EntityResolver F) (name : String) : ResolvedEntity F :=
  if (r.resolve text name).source = ResolutionSource.identity then
    (taught.resolveAgain text name).getD (r.resolve text name)
  else r.resolve text name

end Batches

theorem length_setSome {β : Type} (value : Nat -> Option β) (l : List β) (i : Nat) :
    (setSome value l i).length = l.length := by
  unfold setSome
  split
  · exact List.length_set
  · rfl

theorem length_foldl_setSome {β : Type} (value : Nat -> Option β) (places : List Nat)
    (l : List β) : (places.foldl (setSome value) l).length = l.length := by
  induction places generalizing l with
  | nil => rfl
  | cons i rest ih => rw [List.foldl_cons, ih, length_setSome]

theorem getElem?_setSome {β : Type} (value : Nat -> Option β) (l : List β) {i k : Nat}
    (hk : k < l.length) :
    (setSome value l i)[k]? = if k = i then (value k).or l[k]? else l[k]? := by
  unfold setSome
  split
  · rename_i x hvalue
    by_cases h : k = i
    · rw [if_pos h, h, hvalue]
      rw [h] at hk
      exact List.getElem?_set_self hk
    · rw [if_neg h]
      exact List.getElem?_set_ne (fun heq => h heq.symm)
  · rename_i hvalue
    split
    · rename_i h
      rw [h, hvalue]
      rfl
    · rfl

theorem getElem?_foldl_setSome {β : Type} (value : Nat -> Option β) (places : List Nat)
    (l : List β) {k : Nat} (hk : k < l.length) :
    (places.foldl (setSome value) l)[k]? =
      if k ∈ places then (value k).or l[k]? else l[k]? := by
  induction places generalizing l with
  | nil => exact (if_neg List.not_mem_nil).symm
  | cons i rest ih =>
      have hlength : k < (setSome value l i).length := by
        rw [length_setSome]
        exact hk
      rw [List.foldl_cons, ih _ hlength, getElem?_setSome value l hk]
      simp only [List.mem_cons]
      by_cases hi : k = i
      · simp only [hi, true_or, if_true]
        split
        · cases value i with
          | none => rfl
          | some x => rfl
        · rfl
      · simp only [hi, false_or, if_false]

section Answers

variable [Scalar F] {text : TextOps F} {r : EntityResolver F}

theorem source_resolve_cache_iff {name : String} :
    (r.resolve text name).source = ResolutionSource.cache <->
      r.aliases.contains (normalizeEntity text name) = true := by
  rw [Assoc.contains_iff_exists]
  unfold resolve
  simp only
  cases r.aliases.find? (normalizeEntity text name) with
  | some canonical => exact ⟨fun _ => ⟨canonical, rfl⟩, fun _ => rfl⟩
  | none =>
      cases r.ruleBasedMatch (normalizeEntity text name) with
      | none => exact ⟨nofun, nofun⟩
      | some matched => exact ⟨nofun, nofun⟩

theorem source_resolve_ne_llm (name : String) :
    (r.resolve text name).source ≠ ResolutionSource.llm := by
  unfold resolve
  simp only
  cases r.aliases.find? (normalizeEntity text name) with
  | some canonical => exact nofun
  | none =>
      cases r.ruleBasedMatch (normalizeEntity text name) with
      | none => exact nofun
      | some matched => exact nofun

theorem answerOf_self (name : String) : r.answerOf text r name = r.resolve text name := by
  unfold answerOf resolveAgain
  split
  · rename_i hidentity
    simp only
    rw [if_neg (by rw [hidentity]; decide)]
    rfl
  · rfl

/-- Every name of a batch is answered by itself, from the table before the batch or the one after
it. -/
theorem answers_eq (batch : NameBatch F) :
    (r.resolveBatchWithLlm text batch).1 =
      batch.names.map (r.answerOf text (r.resolveBatchWithLlm text batch).2) := by
  have hsame : batch.names.map (r.resolve text) = batch.names.map (r.answerOf text r) :=
    List.map_congr_left (fun name _ => (answerOf_self name).symm)
  unfold resolveBatchWithLlm
  simp only
  split
  · exact hsame
  · split
    · exact hsame
    · rename_i groups _
      simp only
      generalize groups.foldl (fun r group => r.learnGroup text group) r = taught
      apply List.ext_getElem?
      intro k
      cases hname : batch.names[k]? with
      | none =>
          have hlength : batch.names.length <= k := List.getElem?_eq_none_iff.mp hname
          rw [List.getElem?_map, hname]
          refine List.getElem?_eq_none_iff.mpr ?_
          rw [length_foldl_setSome, List.length_map]
          exact hlength
      | some name =>
          have hfirst : (batch.names.map (r.resolve text))[k]? = some (r.resolve text name) := by
            rw [List.getElem?_map, hname]
            rfl
          have hk : k < (batch.names.map (r.resolve text)).length :=
            (List.getElem?_eq_some_iff.mp hfirst).1
          have hmem : k ∈ ((batch.names.map (r.resolve text)).zipIdx.filter (fun p =>
              decide (p.1.source = ResolutionSource.identity))).map Prod.snd <->
              (r.resolve text name).source = ResolutionSource.identity := by
            rw [List.mem_map]
            constructor
            · rintro ⟨⟨e, i⟩, he, hi⟩
              rcases List.mem_filter.mp he with ⟨hat, hidentity⟩
              have hat' := List.mk_mem_zipIdx_iff_getElem?.mp hat
              rw [show i = k from hi, hfirst] at hat'
              cases hat'
              exact of_decide_eq_true hidentity
            · intro hidentity
              exact ⟨(r.resolve text name, k), List.mem_filter.mpr
                ⟨List.mk_mem_zipIdx_iff_getElem?.mpr hfirst, decide_eq_true hidentity⟩, rfl⟩
          rw [getElem?_foldl_setSome _ _ _ hk, hfirst, List.getElem?_map, hname]
          simp only [hmem, Option.map_some, Option.bind_some, answerOf]
          split
          · cases taught.resolveAgain text name with
            | none => rfl
            | some again => rfl
          · rfl

theorem resolve_congr {name name' : String}
    (h : normalizeEntity text name = normalizeEntity text name') :
    r.resolve text name = r.resolve text name' := by
  unfold resolve
  rw [h]

theorem answerOf_congr {taught : EntityResolver F} {name name' : String}
    (h : normalizeEntity text name = normalizeEntity text name') :
    r.answerOf text taught name = r.answerOf text taught name' := by
  unfold answerOf resolveAgain
  rw [resolve_congr h, resolve_congr h]

/-- A name that is not resolved is answered by the second table or stands for itself. -/
theorem answerOf_of_identity (taught : EntityResolver F) {name : String}
    (h : (r.resolve text name).source = ResolutionSource.identity) :
    ((r.answerOf text taught name).source = ResolutionSource.llm ∧
        taught.aliases.find? (normalizeEntity text name) =
          some (r.answerOf text taught name).canonical) ∨
      (r.answerOf text taught name = r.resolve text name ∧
        taught.aliases.find? (normalizeEntity text name) = none) := by
  unfold answerOf resolveAgain
  rw [if_pos h]
  cases hfind : taught.aliases.find? (normalizeEntity text name) with
  | some canonical =>
      have hagain : taught.resolve text name =
          { canonical := canonical
            confidence := (taught.confidence.find? (normalizeEntity text name)).getD 1
            source := ResolutionSource.cache } := by
        unfold resolve
        simp only [hfind]
      rw [hagain]
      exact Or.inl ⟨rfl, rfl⟩
  | none =>
      have hunknown : (taught.resolve text name).source ≠ ResolutionSource.cache := by
        rw [Ne, source_resolve_cache_iff, Assoc.contains_iff_exists, hfind]
        rintro ⟨_, hv⟩
        cases hv
      simp only
      rw [if_neg hunknown]
      exact Or.inr ⟨rfl, trivial⟩

/-- A name that is answered from a table is in the second one, if that one has what the first
one has. -/
theorem contains_of_answerOf {taught : EntityResolver F} {name : String}
    (hsource : (r.answerOf text taught name).source = ResolutionSource.cache ∨
      (r.answerOf text taught name).source = ResolutionSource.llm)
    (hkept : r.aliases.contains (normalizeEntity text name) = true ->
      taught.aliases.contains (normalizeEntity text name) = true) :
    taught.aliases.contains (normalizeEntity text name) = true := by
  by_cases hidentity : (r.resolve text name).source = ResolutionSource.identity
  · rcases answerOf_of_identity taught hidentity with ⟨_, hfind⟩ | ⟨hself, _⟩
    · exact Assoc.contains_iff_exists.mpr ⟨_, hfind⟩
    · rw [hself, hidentity] at hsource
      rcases hsource with h | h
      · cases h
      · cases h
  · have hself : r.answerOf text taught name = r.resolve text name := if_neg hidentity
    rw [hself] at hsource
    refine hkept (source_resolve_cache_iff.mp (hsource.resolve_right ?_))
    exact source_resolve_ne_llm name

/-!
## What stays known
-/

omit [Scalar F] in
theorem contains_learnAliases (confidence : F) (canonical : String) (aliasNames : List String)
    {x : String} (h : r.aliases.contains x = true) :
    (aliasNames.foldl (fun r aliasName =>
      if normalizeEntity text aliasName ≠ canonical then
        r.learn confidence (normalizeEntity text aliasName, canonical)
      else r) r).aliases.contains x = true := by
  induction aliasNames generalizing r with
  | nil => exact h
  | cons aliasName rest ih =>
      rw [List.foldl_cons]
      apply ih
      split
      · exact contains_learn _ _ _ h
      · exact h

omit [Scalar F] in
theorem contains_learnGroup {group : EntityMergeGroup F} {x : String}
    (h : r.aliases.contains x = true) : (r.learnGroup text group).aliases.contains x = true :=
  contains_learnAliases _ _ _ (contains_learn _ _ _ h)

variable (text r) in
/-- The table after a batch is the one before, or has learned what the LLM answered about a name
that was not resolved. -/
theorem taught_cases (batch : NameBatch F) :
    (r.resolveBatchWithLlm text batch).2 = r ∨
      (exists name, name ∈ batch.names ∧
        (r.resolve text name).source = ResolutionSource.identity) ∧
      exists groups, batch.llm batch.candidates = some groups ∧
        (r.resolveBatchWithLlm text batch).2 =
          groups.foldl (fun r group => r.learnGroup text group) r := by
  unfold resolveBatchWithLlm
  simp only
  split
  · exact Or.inl rfl
  · rename_i hunresolved
    split
    · exact Or.inl rfl
    · rename_i groups hgroups
      refine Or.inr ⟨?_, groups, hgroups, rfl⟩
      rcases List.exists_mem_of_ne_nil _ hunresolved with ⟨i, hi⟩
      rcases List.mem_map.mp hi with ⟨⟨e, j⟩, he, _⟩
      rcases List.mem_filter.mp he with ⟨hat, hidentity⟩
      have hresult := List.mem_of_getElem? (List.mk_mem_zipIdx_iff_getElem?.mp hat)
      rcases List.mem_map.mp hresult with ⟨name, hname, heq⟩
      refine ⟨name, hname, ?_⟩
      rw [heq]
      exact of_decide_eq_true hidentity

omit [Scalar F] in
theorem contains_learnGroups (groups : List (EntityMergeGroup F)) {x : String}
    (h : r.aliases.contains x = true) :
    (groups.foldl (fun r group => r.learnGroup text group) r).aliases.contains x = true := by
  induction groups generalizing r with
  | nil => exact h
  | cons group rest ih => exact ih (contains_learnGroup h)

theorem contains_batch {batch : NameBatch F} {x : String} (h : r.aliases.contains x = true) :
    (r.resolveBatchWithLlm text batch).2.aliases.contains x = true := by
  rcases taught_cases text r batch with heq | ⟨_, groups, _, heq⟩
  · rw [heq]
    exact h
  · rw [heq]
    exact contains_learnGroups groups h

theorem contains_afterBatches {batches : List (NameBatch F)} {x : String}
    (h : r.aliases.contains x = true) :
    (r.afterBatches text batches).aliases.contains x = true := by
  induction batches generalizing r with
  | nil => exact h
  | cons batch rest ih => exact ih (contains_batch h)

/-- Whatever the LLM answers: each name of a batch gets an answer, the same as other spellings of
it; names that the table or the rules resolve keep their answers, and the others are answered from
what was learned, or by themselves if that does not name them; the table changes only by groups
that were asked for because some name was not resolved; and a name that is answered from the table
is in the table after all later batches. -/
theorem batches_resolve (text : TextOps F) (r : EntityResolver F) (batch : NameBatch F) :
    (r.resolveBatchWithLlm text batch).1.length = batch.names.length ∧
      (forall (i : Nat) name, batch.names[i]? = some name ->
        exists e, (r.resolveBatchWithLlm text batch).1[i]? = some e ∧
          ((r.resolve text name).source ≠ ResolutionSource.identity ->
            e = r.resolve text name) ∧
          ((r.resolve text name).source = ResolutionSource.identity ->
            (e.source = ResolutionSource.llm ∧
              (r.resolveBatchWithLlm text batch).2.aliases.find? (normalizeEntity text name) =
                some e.canonical) ∨
            (e = r.resolve text name ∧
              (r.resolveBatchWithLlm text batch).2.aliases.find? (normalizeEntity text name) =
                none)) ∧
          (e.source = ResolutionSource.cache ∨ e.source = ResolutionSource.llm ->
            forall later, (((r.resolveBatchWithLlm text batch).2.afterBatches text later).resolve
              text name).source = ResolutionSource.cache)) ∧
      (forall (i j : Nat) name name', batch.names[i]? = some name -> batch.names[j]? = some name' ->
        normalizeEntity text name = normalizeEntity text name' ->
          (r.resolveBatchWithLlm text batch).1[i]? = (r.resolveBatchWithLlm text batch).1[j]?) ∧
      ((r.resolveBatchWithLlm text batch).2 = r ∨
        (exists name, name ∈ batch.names ∧
          (r.resolve text name).source = ResolutionSource.identity) ∧
        exists groups, batch.llm batch.candidates = some groups ∧
          (r.resolveBatchWithLlm text batch).2 =
            groups.foldl (fun r group => r.learnGroup text group) r) := by
  have hat : forall (i : Nat) name, batch.names[i]? = some name ->
      (r.resolveBatchWithLlm text batch).1[i]? =
        some (r.answerOf text (r.resolveBatchWithLlm text batch).2 name) := by
    intro i name hname
    rw [answers_eq, List.getElem?_map, hname]
    rfl
  refine ⟨?_, ?_, ?_, taught_cases text r batch⟩
  · rw [answers_eq, List.length_map]
  · intro i name hname
    refine ⟨_, hat i name hname, ?_, ?_, ?_⟩
    · exact fun hresolved => if_neg hresolved
    · intro hidentity
      exact answerOf_of_identity _ hidentity
    · intro hsource later
      rw [source_resolve_cache_iff]
      exact contains_afterBatches (contains_of_answerOf hsource contains_batch)
  · intro i j name name' hname hname' hsame
    rw [hat i name hname, hat j name' hname', answerOf_congr hsame]

end Answers

end EntityResolver

end Facade
end MenteDb
