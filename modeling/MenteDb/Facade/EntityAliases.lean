import MenteDb.Facade.EntityUniqueness
import MenteDb.Facade.ValidatedBatches

/-!
# Aliases of extracted entities

An entity is given the name it is asked for as an alias, and its lower case.  Aliases of
an entity that agree in lower case count as one, so the second of the two is never kept:
what is kept of each spelling is its first occurrence in the batch.
-/

namespace MenteDb
namespace Facade

open Foundation
open Sqlite
open Cognitive

variable {F : Type}

/-!
## First occurrences
-/

/-- The first element with its key. -/
def FirstBy {α κ : Type} (key : α -> κ) (xs : List α) (x : α) : Prop :=
  exists before after, xs = before ++ x :: after ∧ forall y, y ∈ before -> key y ≠ key x

theorem firstBy_snoc {α κ : Type} {key : α -> κ} {xs : List α} {x y : α} :
    FirstBy key (xs ++ [y]) x <->
      FirstBy key xs x ∨ x = y ∧ forall z, z ∈ xs -> key z ≠ key y := by
  constructor
  · rintro ⟨before, after, hsplit, hfirst⟩
    rcases List.eq_nil_or_concat after with hnil | ⟨rest, last, hlast⟩
    · rw [hnil] at hsplit
      rcases List.append_inj' hsplit rfl with ⟨hxs, hy⟩
      cases hy
      exact Or.inr ⟨rfl, fun z hz => hfirst z (hxs ▸ hz)⟩
    · rw [hlast, List.concat_eq_append, ← List.cons_append, ← List.append_assoc] at hsplit
      exact Or.inl ⟨before, rest, (List.append_inj' hsplit rfl).1, hfirst⟩
  · rintro (⟨before, after, hsplit, hfirst⟩ | ⟨heq, hfirst⟩)
    · refine ⟨before, after ++ [y], ?_, hfirst⟩
      rw [hsplit, List.append_assoc, List.cons_append]
    · rw [heq]
      exact ⟨xs, [], rfl, hfirst⟩

/-!
## What a name adds
-/

/-- What the string library promises of trimming and lower case. -/
structure LowercaseLaws (text : TextOps F) : Prop where
  trim_trim : forall s, text.trim (text.trim s) = text.trim s
  lower_lower : forall s, text.toLowercase (text.toLowercase s) = text.toLowercase s
  trim_lower : forall s,
    text.trim (text.toLowercase (text.trim s)) = text.toLowercase (text.trim s)

/-- An entity is asked for under a name. -/
abbrev AliasCall := String × String

def aliasKey (text : TextOps F) (call : AliasCall) : String :=
  call.1 ++ ":" ++ text.toLowercase call.2

/-- The two aliases of a name have one key, so a name adds itself or nothing. -/
theorem pushNameAliases_eq {ctx : BuildContext F} (hlaws : LowercaseLaws ctx.text)
    {canonical : String} (htrim : ctx.text.trim canonical = canonical)
    (hsome : canonical.isEmpty = false) (entityId : String) (confidence : F)
    (s : ExtractionBuild F) :
    pushNameAliases ctx entityId canonical confidence s =
      if aliasKey ctx.text (entityId, canonical) ∈ s.aliasKeys then s
      else
        { s with
          aliasKeys := s.aliasKeys ++ [aliasKey ctx.text (entityId, canonical)]
          aliases := s.aliases ++
            [((entityId, canonical),
              { source := some ctx.aliasSource, confidence := confidence })] } := by
  have hlower : ctx.text.trim (ctx.text.toLowercase canonical) =
      ctx.text.toLowercase canonical := by
    rw [← htrim]
    exact hlaws.trim_lower canonical
  have hfirst : pushEntityAlias ctx entityId canonical confidence s =
      if aliasKey ctx.text (entityId, canonical) ∈ s.aliasKeys then s
      else
        { s with
          aliasKeys := s.aliasKeys ++ [aliasKey ctx.text (entityId, canonical)]
          aliases := s.aliases ++
            [((entityId, canonical),
              { source := some ctx.aliasSource, confidence := confidence })] } := by
    have hsame : (canonical.isEmpty = true ∨
        entityId ++ ":" ++ ctx.text.toLowercase canonical ∈ s.aliasKeys) <->
          aliasKey ctx.text (entityId, canonical) ∈ s.aliasKeys := by
      rw [hsome]
      exact or_iff_right Bool.false_ne_true
    rw [pushEntityAlias]
    simp only [htrim]
    by_cases hknown : aliasKey ctx.text (entityId, canonical) ∈ s.aliasKeys
    · rw [if_pos (hsame.mpr hknown), if_pos hknown]
    · rw [if_neg (fun h => hknown (hsame.mp h)), if_neg hknown]
      rfl
  have hkept : aliasKey ctx.text (entityId, canonical) ∈
      (pushEntityAlias ctx entityId canonical confidence s).aliasKeys := by
    rw [hfirst]
    split
    · assumption
    · exact List.mem_append_right _ List.mem_cons_self
  have hsecond : pushEntityAlias ctx entityId (ctx.text.toLowercase canonical) confidence
      (pushEntityAlias ctx entityId canonical confidence s) =
        pushEntityAlias ctx entityId canonical confidence s := by
    rw [pushEntityAlias]
    simp only [hlower, hlaws.lower_lower]
    exact if_pos (Or.inr hkept)
  unfold pushNameAliases
  simp only [hsecond, ite_self]
  exact hfirst

/-- The aliases of a build are the first spellings among its calls. -/
structure AliasesOf (text : TextOps F) (calls : List AliasCall) (s : ExtractionBuild F) :
    Prop where
  keys : forall key, key ∈ s.aliasKeys <-> exists call, call ∈ calls ∧ aliasKey text call = key
  names : forall call, call ∈ s.aliases.map Prod.fst <-> FirstBy (aliasKey text) calls call

theorem AliasesOf.push {ctx : BuildContext F} (hlaws : LowercaseLaws ctx.text)
    {calls : List AliasCall} {s : ExtractionBuild F} (h : AliasesOf ctx.text calls s)
    {canonical : String} (htrim : ctx.text.trim canonical = canonical)
    (hsome : canonical.isEmpty = false) (entityId : String) (confidence : F) :
    AliasesOf ctx.text (calls ++ [(entityId, canonical)])
      (pushNameAliases ctx entityId canonical confidence s) := by
  rw [pushNameAliases_eq hlaws htrim hsome]
  split
  · rename_i hknown
    rcases (h.keys _).mp hknown with ⟨earlier, hearlier, hkey⟩
    constructor
    · intro key
      rw [h.keys]
      constructor
      · rintro ⟨call, hcall, heq⟩
        exact ⟨call, List.mem_append_left _ hcall, heq⟩
      · rintro ⟨call, hcall, heq⟩
        cases List.mem_append.mp hcall with
        | inl hold => exact ⟨call, hold, heq⟩
        | inr hnew =>
            rw [List.mem_singleton.mp hnew] at heq
            exact ⟨earlier, hearlier, hkey.trans heq⟩
    · intro call
      rw [h.names, firstBy_snoc]
      constructor
      · exact Or.inl
      · rintro (hold | ⟨_, hfirst⟩)
        · exact hold
        · exact absurd hkey (hfirst earlier hearlier)
  · rename_i hnew
    constructor
    · intro key
      rw [List.mem_append, List.mem_singleton, h.keys]
      constructor
      · rintro (⟨call, hcall, heq⟩ | heq)
        · exact ⟨call, List.mem_append_left _ hcall, heq⟩
        · exact ⟨_, List.mem_append_right _ List.mem_cons_self, heq.symm⟩
      · rintro ⟨call, hcall, heq⟩
        cases List.mem_append.mp hcall with
        | inl hold => exact Or.inl ⟨call, hold, heq⟩
        | inr hlast =>
            rw [List.mem_singleton.mp hlast] at heq
            exact Or.inr heq.symm
    · intro call
      rw [List.map_append, List.mem_append, h.names, firstBy_snoc]
      have hfirst : forall earlier, earlier ∈ calls ->
          aliasKey ctx.text earlier ≠ aliasKey ctx.text (entityId, canonical) :=
        fun earlier hearlier heq => hnew ((h.keys _).mpr ⟨earlier, hearlier, heq⟩)
      constructor
      · rintro (hold | hlast)
        · exact Or.inl hold
        · exact Or.inr ⟨List.mem_singleton.mp hlast, hfirst⟩
      · rintro (hold | ⟨heq, _⟩)
        · exact Or.inl hold
        · exact Or.inr (List.mem_singleton.mpr heq)

theorem AliasesOf.congr {text : TextOps F} {calls : List AliasCall} {s s' : ExtractionBuild F}
    (h : AliasesOf text calls s) (hkeys : s'.aliasKeys = s.aliasKeys)
    (haliases : s'.aliases = s.aliases) : AliasesOf text calls s' := by
  constructor
  · rw [hkeys]
    exact h.keys
  · rw [haliases]
    exact h.names

theorem pushNameAliases_beside (ctx : BuildContext F) (entityId canonical : String)
    (confidence : F) (s : ExtractionBuild F) :
    (pushNameAliases ctx entityId canonical confidence s).entitiesByKey = s.entitiesByKey ∧
      (pushNameAliases ctx entityId canonical confidence s).drawn = s.drawn := by
  have hpush : forall (name : String) (v : ExtractionBuild F),
      (pushEntityAlias ctx entityId name confidence v).entitiesByKey = v.entitiesByKey ∧
        (pushEntityAlias ctx entityId name confidence v).drawn = v.drawn := by
    intro name v
    unfold pushEntityAlias
    simp only
    split
    · exact ⟨rfl, rfl⟩
    · exact ⟨rfl, rfl⟩
  unfold pushNameAliases
  simp only
  split
  · exact ⟨(hpush _ _).1.trans (hpush _ _).1, (hpush _ _).2.trans (hpush _ _).2⟩
  · exact hpush _ _

/-!
## What one call does
-/

section Ensure

variable [Scalar F] {ctx : BuildContext F}

/-- Where the identifier of an entity comes from, and how many are drawn afterwards. -/
inductive DrawsId (ctx : BuildContext F) (s : ExtractionBuild F) (entityType canonical : String) :
    String -> Nat -> Prop where
  | known {record} :
      s.entitiesByKey.find? (normalizeEntityKey ctx.text canonical) = some record ->
      DrawsId ctx s entityType canonical record.1 s.drawn
  | loaded {record} :
      s.entitiesByKey.find? (normalizeEntityKey ctx.text canonical) = none ->
      ctx.tables.entityByCanonical entityType canonical = some record ->
      DrawsId ctx s entityType canonical record.1 s.drawn
  | created :
      s.entitiesByKey.find? (normalizeEntityKey ctx.text canonical) = none ->
      DrawsId ctx s entityType canonical (ctx.newId s.drawn) (s.drawn + 1)

theorem findEntity_ok {entityType canonical : String} {s s' : ExtractionBuild F}
    {record : EntityRecord F}
    (h : findEntity ctx entityType canonical s = (Except.ok record, s')) :
    exists drawn, DrawsId ctx s entityType canonical record.1 drawn ∧
      s' = { s with drawn := drawn } := by
  unfold findEntity at h
  cases hknown : s.entitiesByKey.find? (normalizeEntityKey ctx.text canonical) with
  | some existing =>
      rw [hknown] at h
      cases h
      exact ⟨s.drawn, DrawsId.known hknown, rfl⟩
  | none =>
      rw [hknown] at h
      simp only [loadOrCreate] at h
      cases hfind : ctx.tables.entityByCanonical entityType canonical with
      | some found =>
          rw [hfind] at h
          cases h
          exact ⟨s.drawn, DrawsId.loaded hknown hfind, rfl⟩
      | none =>
          rw [hfind] at h
          cases h
          exact ⟨s.drawn + 1, DrawsId.created hknown, rfl⟩

omit [Scalar F] in
theorem ofExcept_ok {α : Type} {x : Except MenteError α} {a : α} {s s' : ExtractionBuild F}
    (h : ofExcept x s = (Except.ok a, s')) : x = Except.ok a ∧ s' = s := by
  unfold ofExcept at h
  cases h
  exact ⟨rfl, rfl⟩

/-- A call registers an entity under the key of its name and adds the name's alias. -/
theorem ensureEntity_ok {name entityType entityId : String} {attributes : Assoc String String}
    {confidence : F} {s s' : ExtractionBuild F}
    (h : ensureEntity ctx name entityType attributes confidence s = (Except.ok entityId, s')) :
    (ctx.text.trim (ctx.text.trim name)).isEmpty = false ∧
      exists row drawn,
        DrawsId ctx s (entityName ctx.text name entityType).1 (ctx.text.trim name) entityId drawn ∧
        s' = pushNameAliases ctx entityId (ctx.text.trim name) confidence
          { s with
            drawn := drawn
            entitiesByKey := s.entitiesByKey.insert
              (normalizeEntityKey ctx.text (ctx.text.trim name)) (entityId, row) } := by
  rcases Prog.bind_ok h with ⟨_, s1, hrequired, h⟩
  rcases Prog.bind_ok h with ⟨value, s2, hvalue, h⟩
  rcases Prog.bind_ok h with ⟨entity, s3, hentity, h⟩
  rcases Prog.bind_ok h with ⟨row, s4, hmerge, h⟩
  rcases ofExcept_ok hrequired with ⟨hnonempty, hs1⟩
  rcases Prog.bind_ok hvalue with ⟨_, s2', hchecked, hpure⟩
  cases hpure
  rcases findEntity_ok hentity with ⟨drawn, hdraws, hs3⟩
  have hs2 := (ofExcept_ok hchecked).2
  have hs4 := (ofExcept_ok hmerge).2
  subst hs1 hs2 hs3 hs4
  cases h
  refine ⟨?_, row, drawn, hdraws, rfl⟩
  unfold requireNonEmpty at hnonempty
  split at hnonempty
  · cases hnonempty
  · rename_i hsome
    exact Bool.not_eq_true _ ▸ hsome

end Ensure

/-!
## Identifiers

New identifiers are texts of random UUIDs: they differ from each other and from what is
stored, and they hold no colon.
-/

structure FreshIds (newId : Nat -> String) (t : Tables F) : Prop where
  injective : forall i j, newId i = newId j -> i = j
  noColon : forall i, ':' ∉ (newId i).toList
  unused : forall i e, t.entities.contains e = true -> ¬ (newId i).toList <+: e.toList
  noAlias : forall i name, t.entityAliases.contains (newId i, name) = false

/-- Where both identifiers are known, so are they from the key. -/
theorem append_colon_inj {a b l m : List Char} (ha : ':' ∉ a) (hb : ':' ∉ b ∨ ¬ a <+: b)
    (h : a ++ ':' :: l = b ++ ':' :: m) : a = b ∧ l = m := by
  rcases List.append_eq_append_iff.mp h with ⟨mid, hmid, hrest⟩ | ⟨mid, hmid, hrest⟩
  · cases mid with
    | nil =>
        rw [List.append_nil] at hmid
        cases hrest
        exact ⟨hmid.symm, rfl⟩
    | cons c more =>
        cases hrest
        have hcolon : ':' ∈ b := by
          rw [hmid]
          exact List.mem_append_right a List.mem_cons_self
        have hinit : a <+: b := ⟨_, hmid.symm⟩
        rcases hb with hnot | hnot
        · exact absurd hcolon hnot
        · exact absurd hinit hnot
  · cases mid with
    | nil =>
        rw [List.append_nil] at hmid
        cases hrest
        exact ⟨hmid, rfl⟩
    | cons c more =>
        cases hrest
        refine absurd ?_ ha
        rw [hmid]
        exact List.mem_append_right b List.mem_cons_self

/-!
## The aliases of a batch
-/

/-- The calls of a build, the aliases they have left and the identifiers of its entities. -/
structure Aliased (ctx : BuildContext F) (asked : List (String × String))
    (calls : List AliasCall) (s : ExtractionBuild F) : Prop where
  asked : calls.map Prod.snd = asked.map Prod.snd
  aliases : AliasesOf ctx.text calls s
  registered : forall call, call ∈ calls -> exists record,
    s.entitiesByKey.find? (normalizeEntityKey ctx.text call.2) = some record ∧ record.1 = call.1
  origin : forall key record, s.entitiesByKey.find? key = some record ->
    ctx.tables.entities.contains record.1 = true ∨ exists i, i < s.drawn ∧ record.1 = ctx.newId i
  distinct : forall key key' record record', s.entitiesByKey.find? key = some record ->
    s.entitiesByKey.find? key' = some record' -> record.1 = record'.1 ->
    ctx.tables.entities.contains record.1 = false -> key = key'

theorem Aliased.congr {ctx : BuildContext F} {asked : List (String × String)}
    {calls : List AliasCall} {s s' : ExtractionBuild F} (h : Aliased ctx asked calls s)
    (hentities : s'.entitiesByKey = s.entitiesByKey) (haliases : s'.aliases = s.aliases)
    (hkeys : s'.aliasKeys = s.aliasKeys) (hdrawn : s.drawn <= s'.drawn) :
    Aliased ctx asked calls s' := by
  refine ⟨h.asked, h.aliases.congr hkeys haliases, ?_, ?_, ?_⟩
  · rw [hentities]
    exact h.registered
  · intro key record hfind
    rw [hentities] at hfind
    rcases h.origin key record hfind with hstored | ⟨i, hi, hid⟩
    · exact Or.inl hstored
    · exact Or.inr ⟨i, Nat.lt_of_lt_of_le hi hdrawn, hid⟩
  · rw [hentities]
    exact h.distinct

/-- The entity of a name has the identifier that the name was registered with before, one
that is stored, or one that no entity of the batch has. -/
theorem Aliased.of_drawsId {ctx : BuildContext F} (hfresh : FreshIds ctx.newId ctx.tables)
    {asked : List (String × String)} {calls : List AliasCall} {s : ExtractionBuild F}
    (h : Aliased ctx asked calls s) {entityType canonical entityId : String} {drawn : Nat}
    (hdraws : DrawsId ctx s entityType canonical entityId drawn) :
    (exists record, s.entitiesByKey.find? (normalizeEntityKey ctx.text canonical) = some record ∧
        record.1 = entityId ∧ drawn = s.drawn) ∨
      s.entitiesByKey.find? (normalizeEntityKey ctx.text canonical) = none ∧
        s.drawn <= drawn ∧
        (ctx.tables.entities.contains entityId = true ∨
          (exists i, i < drawn ∧ entityId = ctx.newId i) ∧
            forall key record, s.entitiesByKey.find? key = some record -> record.1 ≠ entityId) := by
  cases hdraws with
  | known hknown => exact Or.inl ⟨_, hknown, rfl, rfl⟩
  | loaded hnone hfound =>
      have hstored := (entityByCanonical_some hfound).1
      refine Or.inr ⟨hnone, Nat.le_refl _, Or.inl ?_⟩
      rw [Assoc.contains, hstored]
      rfl
  | created hnone =>
      refine Or.inr ⟨hnone, Nat.le_succ _, Or.inr ⟨⟨s.drawn, Nat.lt_succ_self _, rfl⟩, ?_⟩⟩
      intro key record hfind heq
      rcases h.origin key record hfind with hstored | ⟨i, hi, hid⟩
      · rw [heq] at hstored
        exact hfresh.unused _ _ hstored (List.prefix_refl _)
      · rw [heq] at hid
        exact absurd (hfresh.injective _ _ hid) (Nat.ne_of_gt hi)

section Registration

variable {ctx : BuildContext F} {asked : List (String × String)} {calls : List AliasCall}
  {s : ExtractionBuild F} {entityType canonical entityId : String} {drawn : Nat}

/-- The entities after a registration have a stored identifier or one that was drawn. -/
theorem Aliased.origin_insert (hfresh : FreshIds ctx.newId ctx.tables)
    (h : Aliased ctx asked calls s) (hdraws : DrawsId ctx s entityType canonical entityId drawn)
    (row : EntityRow F) {key : String} {record : EntityRecord F}
    (hfind : (s.entitiesByKey.insert (normalizeEntityKey ctx.text canonical)
      (entityId, row)).find? key = some record) :
    ctx.tables.entities.contains record.1 = true ∨
      exists i, i < drawn ∧ record.1 = ctx.newId i := by
  have hcases := h.of_drawsId hfresh hdraws
  have hle : s.drawn <= drawn := by
    rcases hcases with ⟨_, _, _, heq⟩ | ⟨_, hle, _⟩
    · exact Nat.le_of_eq heq.symm
    · exact hle
  rw [Assoc.find?_insert] at hfind
  split at hfind
  · cases hfind
    rcases hcases with ⟨known, hknown, hknownId, heq⟩ | ⟨_, _, hstored | ⟨hnew, _⟩⟩
    · rcases h.origin _ _ hknown with hstored | ⟨i, hi, hid⟩
      · exact Or.inl (hknownId ▸ hstored)
      · exact Or.inr ⟨i, Nat.lt_of_lt_of_le hi hle, hknownId ▸ hid⟩
    · exact Or.inl hstored
    · exact Or.inr hnew
  · rcases h.origin _ _ hfind with hstored | ⟨i, hi, hid⟩
    · exact Or.inl hstored
    · exact Or.inr ⟨i, Nat.lt_of_lt_of_le hi hle, hid⟩

/-- Only the entity that is registered can share its identifier with another. -/
theorem Aliased.key_of_drawsId (hfresh : FreshIds ctx.newId ctx.tables)
    (h : Aliased ctx asked calls s) (hdraws : DrawsId ctx s entityType canonical entityId drawn)
    {key : String} {record : EntityRecord F} (hfind : s.entitiesByKey.find? key = some record)
    (hid : record.1 = entityId) (hunknown : ctx.tables.entities.contains entityId = false) :
    key = normalizeEntityKey ctx.text canonical := by
  rcases h.of_drawsId hfresh hdraws with
    ⟨known, hknown, hknownId, _⟩ | ⟨_, _, hstored | ⟨_, hfree⟩⟩
  · refine h.distinct key _ record known hfind hknown (hid.trans hknownId.symm) ?_
    rw [hid]
    exact hunknown
  · rw [hunknown] at hstored
    cases hstored
  · exact absurd hid (hfree key record hfind)

theorem Aliased.distinct_insert (hfresh : FreshIds ctx.newId ctx.tables)
    (h : Aliased ctx asked calls s) (hdraws : DrawsId ctx s entityType canonical entityId drawn)
    (row : EntityRow F) {key key' : String} {record record' : EntityRecord F}
    (hfind : (s.entitiesByKey.insert (normalizeEntityKey ctx.text canonical)
      (entityId, row)).find? key = some record)
    (hfind' : (s.entitiesByKey.insert (normalizeEntityKey ctx.text canonical)
      (entityId, row)).find? key' = some record')
    (hid : record.1 = record'.1) (hunknown : ctx.tables.entities.contains record.1 = false) :
    key = key' := by
  rw [Assoc.find?_insert] at hfind hfind'
  split at hfind
  · rename_i hkey
    cases hfind
    split at hfind'
    · rename_i hkey'
      rw [hkey, hkey']
    · rw [hkey]
      exact (h.key_of_drawsId hfresh hdraws hfind' hid.symm hunknown).symm
  · split at hfind'
    · rename_i hkey'
      cases hfind'
      have hsame : record.1 = entityId := hid
      rw [hsame] at hunknown
      rw [hkey']
      exact h.key_of_drawsId hfresh hdraws hfind hsame hunknown
    · exact h.distinct key key' record record' hfind hfind' hid hunknown

theorem Aliased.registered_insert (hfresh : FreshIds ctx.newId ctx.tables)
    (h : Aliased ctx asked calls s) (hdraws : DrawsId ctx s entityType canonical entityId drawn)
    (row : EntityRow F) {call : AliasCall} (hcall : call ∈ calls ++ [(entityId, canonical)]) :
    exists record, (s.entitiesByKey.insert (normalizeEntityKey ctx.text canonical)
      (entityId, row)).find? (normalizeEntityKey ctx.text call.2) = some record ∧
        record.1 = call.1 := by
  rw [Assoc.find?_insert]
  split
  · rename_i hkey
    refine ⟨_, rfl, ?_⟩
    cases List.mem_append.mp hcall with
    | inl hold =>
        rcases h.registered call hold with ⟨record, hfind, hid⟩
        rw [hkey] at hfind
        rcases h.of_drawsId hfresh hdraws with ⟨known, hknown, hknownId, _⟩ | ⟨hnone, _⟩
        · rw [hfind] at hknown
          cases hknown
          exact hknownId.symm.trans hid
        · rw [hfind] at hnone
          cases hnone
    | inr hnew => rw [List.mem_singleton.mp hnew]
  · rename_i hkey
    cases List.mem_append.mp hcall with
    | inl hold => exact h.registered call hold
    | inr hnew =>
        rw [List.mem_singleton.mp hnew] at hkey
        exact absurd rfl hkey

/-- A call adds a name to the aliases of the entity it registers. -/
theorem Aliased.ensure (hlaws : LowercaseLaws ctx.text) (hfresh : FreshIds ctx.newId ctx.tables)
    (h : Aliased ctx asked calls s) (row : EntityRow F) (confidence : F)
    (htrim : ctx.text.trim canonical = canonical) (hsome : canonical.isEmpty = false)
    (hdraws : DrawsId ctx s entityType canonical entityId drawn) :
    Aliased ctx (asked ++ [(entityType, canonical)]) (calls ++ [(entityId, canonical)])
      (pushNameAliases ctx entityId canonical confidence
        { s with
          drawn := drawn
          entitiesByKey := s.entitiesByKey.insert (normalizeEntityKey ctx.text canonical)
            (entityId, row) }) := by
  have hbeside := pushNameAliases_beside ctx entityId canonical confidence
    { s with
      drawn := drawn
      entitiesByKey := s.entitiesByKey.insert (normalizeEntityKey ctx.text canonical)
        (entityId, row) }
  refine ⟨?_, ?_, ?_, ?_, ?_⟩
  · rw [List.map_append, List.map_append, h.asked]
    rfl
  · refine AliasesOf.push hlaws ?_ htrim hsome entityId confidence
    exact h.aliases.congr rfl rfl
  · intro call hcall
    rw [hbeside.1]
    exact h.registered_insert hfresh hdraws row hcall
  · intro key record hfind
    rw [hbeside.1] at hfind
    rw [hbeside.2]
    exact h.origin_insert hfresh hdraws row hfind
  · intro key key' record record' hfind hfind' hid hunknown
    rw [hbeside.1] at hfind hfind'
    exact h.distinct_insert hfresh hdraws row hfind hfind' hid hunknown

end Registration

theorem buildRules_aliased [Scalar F] {ctx : BuildContext F} (hlaws : LowercaseLaws ctx.text)
    (hfresh : FreshIds ctx.newId ctx.tables) :
    BuildRules ctx (fun asked s => exists calls, Aliased ctx asked calls s) where
  ensure name entityType attributes confidence := by
    intro asked s hs
    rcases hs with ⟨calls, hcalls⟩
    rcases hrun : ensureEntity ctx name entityType attributes confidence s with ⟨outcome, s'⟩
    cases outcome with
    | error e => trivial
    | ok entityId =>
        rcases ensureEntity_ok hrun with ⟨hsome, row, drawn, hdraws, heq⟩
        rw [hlaws.trim_trim] at hsome
        rw [heq]
        exact ⟨_, hcalls.ensure hlaws hfresh row confidence (hlaws.trim_trim name) hsome hdraws⟩
  draw := by
    apply asks_nothing
    rintro asked s ⟨calls, hcalls⟩
    exact ⟨calls, hcalls.congr rfl rfl rfl (Nat.le_succ _)⟩
  link entityId role confidence evidence := by
    apply asks_nothing
    rintro asked s ⟨calls, hcalls⟩
    refine ⟨calls, ?_⟩
    unfold pushMemoryEntityLink
    simp only
    split
    · exact hcalls
    · exact hcalls.congr rfl rfl rfl (Nat.le_refl _)
  beside f hf := by
    apply asks_nothing
    rintro asked s ⟨calls, hcalls⟩
    exact ⟨calls, hcalls.congr (hf s).entitiesByKey (hf s).aliases (hf s).aliasKeys
      (Nat.le_of_eq (hf s).drawn.symm)⟩

/-- The aliases of a finished build come from the names of the result. -/
theorem aliased_buildExtraction [Scalar F] {ctx : BuildContext F}
    (hlaws : LowercaseLaws ctx.text) (hfresh : FreshIds ctx.newId ctx.tables)
    {result : Schema.ExtractionResult F} {built : ExtractionBuild F}
    (hbuild : buildExtraction ctx result (ExtractionBuild.new 1) = (Except.ok (), built)) :
    exists calls, Aliased ctx (resultNames ctx.text result) calls built := by
  have hstart : Aliased ctx [] [] (ExtractionBuild.new 1) := by
    refine ⟨rfl, ⟨?_, ?_⟩, ?_, ?_, ?_⟩
    · intro key
      constructor
      · intro hkey
        cases hkey
      · rintro ⟨call, hcall, _⟩
        cases hcall
    · intro call
      constructor
      · intro hcall
        cases hcall
      · rintro ⟨before, after, hsplit, _⟩
        cases before <;> cases hsplit
    · intro call hcall
      cases hcall
    · intro key record hfind
      cases hfind
    · intro key key' record record' hfind
      cases hfind
  have hend := (buildRules_aliased hlaws hfresh).asks_buildExtraction result [] _ ⟨[], hstart⟩
  rw [hbuild] at hend
  exact hend

/-!
## Finding an entity by its name
-/

/-- The first name with the entity's key and this lower case is spelled like this. -/
def FirstSpelled (text : TextOps F) (names : List String) (canonical spelled : String) : Prop :=
  exists before after, names = before ++ spelled :: after ∧
    normalizeEntityKey text spelled = normalizeEntityKey text canonical ∧
    forall earlier, earlier ∈ before ->
      normalizeEntityKey text earlier = normalizeEntityKey text canonical ->
        text.toLowercase earlier ≠ text.toLowercase spelled

section NewEntity

variable {ctx : BuildContext F} {asked : List (String × String)} {calls : List AliasCall}
  {s : ExtractionBuild F} {canonical : String} {record : EntityRecord F}

/-- The calls with the key of a new entity are those with its identifier. -/
theorem Aliased.key_iff_id (h : Aliased ctx asked calls s)
    (hfind : s.entitiesByKey.find? (normalizeEntityKey ctx.text canonical) = some record)
    (hnew : ctx.tables.entities.contains record.1 = false) {call : AliasCall}
    (hmem : call ∈ calls) :
    normalizeEntityKey ctx.text call.2 = normalizeEntityKey ctx.text canonical <->
      call.1 = record.1 := by
  rcases h.registered call hmem with ⟨other, hother, hid⟩
  constructor
  · intro hkey
    rw [hkey, hfind] at hother
    cases hother
    exact hid.symm
  · intro heq
    apply h.distinct _ _ other record hother hfind (hid.trans heq)
    rw [hid, heq]
    exact hnew

/-- A drawn identifier ends where the key of an alias has its first colon. -/
theorem Aliased.aliasKey_eq_iff (hfresh : FreshIds ctx.newId ctx.tables)
    (h : Aliased ctx asked calls s)
    (hfind : s.entitiesByKey.find? (normalizeEntityKey ctx.text canonical) = some record)
    (hnew : ctx.tables.entities.contains record.1 = false) {call : AliasCall}
    (hmem : call ∈ calls) (spelled : String) :
    aliasKey ctx.text call = aliasKey ctx.text (record.1, spelled) <->
      call.1 = record.1 ∧ ctx.text.toLowercase call.2 = ctx.text.toLowercase spelled := by
  have hdrawn : exists i, record.1 = ctx.newId i := by
    rcases h.origin _ _ hfind with hstored | ⟨i, _, hid⟩
    · rw [hnew] at hstored
      cases hstored
    · exact ⟨i, hid⟩
  constructor
  · intro heq
    rcases hdrawn with ⟨i, hi⟩
    rcases h.registered call hmem with ⟨other, hother, hid⟩
    have hchars := congrArg String.toList heq
    simp only [aliasKey, String.toList_append] at hchars
    rw [List.append_assoc, List.append_assoc] at hchars
    have hfree : ':' ∉ call.1.toList ∨ ¬ record.1.toList <+: call.1.toList := by
      rw [← hid, hi]
      rcases h.origin _ _ hother with hstored | ⟨j, _, hj⟩
      · exact Or.inr (hfresh.unused i _ hstored)
      · rw [hj]
        exact Or.inl (hfresh.noColon j)
    have hcolon : ':' ∉ record.1.toList := by
      rw [hi]
      exact hfresh.noColon i
    rcases append_colon_inj hcolon hfree hchars.symm with ⟨hids, hlower⟩
    exact ⟨(String.toList_inj.mp hids).symm, (String.toList_inj.mp hlower).symm⟩
  · rintro ⟨hid, hlower⟩
    simp only [aliasKey, hid, hlower]

/-- An alias of a new entity is the first spelling of a name of the batch. -/
theorem Aliased.mem_aliases_iff (hfresh : FreshIds ctx.newId ctx.tables)
    (h : Aliased ctx asked calls s) {spelled : String}
    (hfind : s.entitiesByKey.find? (normalizeEntityKey ctx.text canonical) = some record)
    (hnew : ctx.tables.entities.contains record.1 = false) :
    (record.1, spelled) ∈ s.aliases.map Prod.fst <->
      FirstSpelled ctx.text (asked.map Prod.snd) canonical spelled := by
  have hcall : forall call, call ∈ calls ->
      (normalizeEntityKey ctx.text call.2 = normalizeEntityKey ctx.text canonical <->
        call.1 = record.1) := fun _ hmem => h.key_iff_id hfind hnew hmem
  rw [h.aliases.names, ← h.asked]
  constructor
  · rintro ⟨before, after, hsplit, hfirst⟩
    have hmem : forall call, call ∈ before -> call ∈ calls :=
      fun call hbefore => hsplit ▸ List.mem_append_left _ hbefore
    refine ⟨before.map Prod.snd, after.map Prod.snd, ?_, ?_, ?_⟩
    · rw [hsplit, List.map_append, List.map_cons]
    · apply (hcall (record.1, spelled) ?_).mpr rfl
      rw [hsplit]
      exact List.mem_append_right before List.mem_cons_self
    · intro earlier hearlier hkey hlower
      rcases List.mem_map.mp hearlier with ⟨call, hbefore, heq⟩
      subst heq
      apply hfirst call hbefore
      exact (h.aliasKey_eq_iff hfresh hfind hnew (hmem call hbefore) spelled).mpr
        ⟨(hcall call (hmem call hbefore)).mp hkey, hlower⟩
  · rintro ⟨before, after, hsplit, hkey, hfirst⟩
    rcases List.map_eq_append_iff.mp hsplit with ⟨calls1, rest, hcalls, hbefore, hrest⟩
    rcases List.map_eq_cons_iff.mp hrest with ⟨call, calls2, hrestEq, hspelled, _⟩
    subst hspelled hbefore
    rw [hrestEq] at hcalls
    have hid : call.1 = record.1 := by
      apply (hcall call ?_).mp hkey
      rw [hcalls]
      exact List.mem_append_right calls1 List.mem_cons_self
    rw [← hid]
    refine ⟨calls1, calls2, hcalls, ?_⟩
    intro earlier hearlier heq
    have hmem : earlier ∈ calls := by
      rw [hcalls]
      exact List.mem_append_left _ hearlier
    rw [show (call.1, call.2) = (record.1, call.2) by rw [hid]] at heq
    rcases (h.aliasKey_eq_iff hfresh hfind hnew hmem call.2).mp heq with ⟨hsame, hlower⟩
    exact hfirst earlier.2 (List.mem_map_of_mem hearlier) ((hcall earlier hmem).mpr hsame) hlower

end NewEntity

/-- The aliases after a batch has been written. -/
theorem entityAliases_persistExtractionArtifacts {artifacts : ExtractionArtifacts F}
    {t t' : Tables F} (h : Tables.persistExtractionArtifacts artifacts t = Except.ok t') :
    t'.entityAliases =
      artifacts.entityAliases.foldl (fun table x => table.insert x.1 x.2) t.entityAliases := by
  rw [Tables.persistExtractionArtifacts_ok h]
  rfl

/-- The lookup by this alias finds the entity. -/
def FoundByAlias [Scalar F] (t : Tables F) (entityId name : String) : Prop :=
  exists row, (entityId, row) ∈ t.entitiesByAlias name

theorem foundByAlias_iff [Scalar F] {t : Tables F} {entityId name : String} :
    FoundByAlias t entityId name <->
      t.entityAliases.contains (entityId, name) = true ∧
        t.entities.contains entityId = true := by
  unfold FoundByAlias Tables.entitiesByAlias
  simp only [List.mem_map, mem_orderBy, List.mem_filterMap]
  constructor
  · rintro ⟨row, found, ⟨entry, hentry, heq⟩, hfound⟩
    split at heq
    · rename_i hname
      rcases Option.map_eq_some_iff.mp heq with ⟨e, he, hjoined⟩
      subst hjoined
      cases hfound
      have halias : t.entityAliases.find? (entry.1.1, name) = some entry.2 := by
        rw [← hname]
        exact Assoc.find?_eq_some_iff.mpr hentry
      exact ⟨by rw [Assoc.contains, halias]; rfl, by rw [Assoc.contains, he]; rfl⟩
    · cases heq
  · rintro ⟨halias, hentity⟩
    rcases Option.isSome_iff_exists.mp halias with ⟨alias_, hfind⟩
    rcases Option.isSome_iff_exists.mp hentity with ⟨row, hrow⟩
    refine ⟨row, (alias_.confidence, entityId, row),
      ⟨((entityId, name), alias_), Assoc.find?_eq_some_iff.mp hfind, ?_⟩, rfl⟩
    rw [if_pos rfl, hrow]
    rfl

/-- The entity was not there before, and its name is the trimmed one. -/
structure CreatedFor (text : TextOps F) (t t' : Tables F) (entityId name : String) : Prop where
  absent : t.entities.contains entityId = false
  written : exists row, t'.entities.find? entityId = some row ∧ row.canonical = text.trim name

/-- A created entity is found by the lower case of its name if and only if the first name of
the batch with its key and that lower case is spelled in lower case. -/
theorem extracted_found_iff [Scalar F] {env : Env F} {json : JsonOps} {id : MemoryId}
    {result : Schema.ExtractionResult F} {options : ExtractionStoreOptions}
    {report : ExtractionStoreReport} {w w' : World F} (hlaws : LowercaseLaws env.text)
    (hfresh : FreshIds (env.freshEntityId (w.ticks + 1)) w.tables)
    (hrun : storeExtractionResult env json id result options w = (Except.ok report, w'))
    {entityId name : String} (hcreated : CreatedFor env.text w.tables w'.tables entityId name) :
    FoundByAlias w'.tables entityId (env.text.toLowercase name) <->
      FirstSpelled env.text ((resultNames env.text result).map Prod.snd) (env.text.trim name)
        (env.text.toLowercase name) := by
  rcases storeExtractionResult_ok hrun with
    ⟨ctx, built, htables, htext, _, _, hnewId, hbuild, hpersist⟩
  rw [← htext] at hlaws hcreated ⊢
  rw [← htables] at hpersist hcreated
  rw [← hnewId, ← htables] at hfresh
  rcases aliased_buildExtraction hlaws hfresh hbuild with ⟨calls, haliased⟩
  rcases hcreated.written with ⟨row, hrow, hcanonical⟩
  -- The row was written from the record that the batch has under the key of the name.
  have hrecord : exists record, record.1 = entityId ∧
      built.entitiesByKey.find? (normalizeEntityKey ctx.text (ctx.text.trim name)) =
        some record := by
    rw [(sameLinks_of_claims hpersist).1] at hrow
    rcases find?_upsertEntities hrow with ⟨record, hmem, hid, _, hname⟩ | ⟨_, hold⟩
    · have hvalues := (HashOrder.mem_order env.hashOrder).mp hmem
      rcases List.mem_map.mp hvalues with ⟨entry, hentry, heq⟩
      subst heq
      have hfind := Assoc.find?_eq_some_iff.mpr hentry
      rcases (registered_buildExtraction hbuild).first _ _ hfind with ⟨asked, _, hfor, hkey⟩
      refine ⟨entry.2, hid, ?_⟩
      rw [← hcanonical, hname, hfor.canonical, ← hkey]
      exact hfind
    · have habsent := hcreated.absent
      rw [Assoc.contains, hold] at habsent
      cases habsent
  rcases hrecord with ⟨record, hid, hfind⟩
  subst hid
  have hdrawn : exists i, record.1 = ctx.newId i := by
    rcases haliased.origin _ _ hfind with hstored | ⟨i, _, hid⟩
    · rw [hcreated.absent] at hstored
      cases hstored
    · exact ⟨i, hid⟩
  have hpresent : w'.tables.entities.contains record.1 = true := by
    rw [Assoc.contains, hrow]
    rfl
  have halias : forall spelled, w'.tables.entityAliases.contains (record.1, spelled) = true <->
      (record.1, spelled) ∈ built.aliases.map Prod.fst := by
    intro spelled
    rcases hdrawn with ⟨i, hi⟩
    have hbefore : ctx.tables.entityAliases.contains (record.1, spelled) = false := by
      rw [hi]
      exact hfresh.noAlias i spelled
    rw [entityAliases_persistExtractionArtifacts hpersist, Assoc.contains_foldl_insert_rows,
      hbefore]
    exact or_iff_left Bool.false_ne_true
  rw [foundByAlias_iff, halias]
  constructor
  · intro hfound
    exact (haliased.mem_aliases_iff hfresh hfind hcreated.absent).mp hfound.1
  · intro hfirst
    exact ⟨(haliased.mem_aliases_iff hfresh hfind hcreated.absent).mpr hfirst, hpresent⟩

section Examples

/-- Single words in ASCII, without white space around them. -/
def wordText : TextOps Rat where
  splitWhitespace := fun s => [s]
  toLowercase := fun s => String.ofList (s.toList.map Char.toLower)
  trim := fun s => s
  fixed2 := fun _ => "1.00"
  fixed3 := fun _ => "1.000"

theorem lowercaseLaws_wordText : LowercaseLaws wordText where
  trim_trim _ := rfl
  lower_lower s := by
    show String.ofList ((String.ofList (s.toList.map Char.toLower)).toList.map Char.toLower) =
      String.ofList (s.toList.map Char.toLower)
    rw [String.toList_ofList, List.map_map]
    congr 1
    exact List.map_congr_left (fun c _ => toLower_toLower c)
  trim_lower _ := rfl

def wordEnv : Env Rat :=
  { calmEnv CognitiveConfig.default with
    text := wordText
    freshEntityId := fun _ i => unaryId (i + 1) }

def beforeExtraction : World Rat := (store wordEnv adaMemory emptyWorld).2

/-- The model reports one entity under this name. -/
def namedResult (name : String) : Schema.ExtractionResult Rat :=
  { adaResult with
    entities := [{ name := name, entityType := "concept", attributes := Assoc.empty }] }

def extractionOf (name : String) : Except MenteError ExtractionStoreReport × World Rat :=
  storeExtractionResult wordEnv adaJson adaMemory.id (namedResult name)
    ExtractionStoreOptions.default beforeExtraction

theorem freshIds_beforeExtraction :
    FreshIds (wordEnv.freshEntityId (beforeExtraction.ticks + 1)) beforeExtraction.tables where
  injective i j h := Nat.succ_inj.mp (unaryId_injective h)
  noColon i := by
    show ':' ∉ (unaryId (i + 1)).toList
    unfold unaryId
    rw [String.toList_ofList]
    intro hcolon
    cases List.eq_of_mem_replicate hcolon
  unused i e h := by
    have hnone : beforeExtraction.tables.entities.keys = [] := by decide +kernel
    rw [Assoc.contains_iff_mem_keys, hnone] at h
    cases h
  noAlias i name := by
    have hnone : beforeExtraction.tables.entityAliases.keys = [] := by decide +kernel
    rw [Bool.eq_false_iff]
    intro h
    rw [Assoc.contains_iff_mem_keys, hnone] at h
    cases h

theorem createdFor_extractionOf {name : String}
    (h : ((extractionOf name).2.tables.entities.find? "ii").map EntityRow.canonical = some name) :
    CreatedFor wordEnv.text beforeExtraction.tables (extractionOf name).2.tables "ii" name := by
  rcases Option.map_eq_some_iff.mp h with ⟨row, hrow, hcanonical⟩
  refine ⟨?_, row, hrow, hcanonical⟩
  have hnone : beforeExtraction.tables.entities.keys = [] := by decide +kernel
  rw [Bool.eq_false_iff]
  intro hstored
  rw [Assoc.contains_iff_mem_keys, hnone] at hstored
  cases hstored

theorem extracted_found_iff_lower :
    CreatedFor wordEnv.text beforeExtraction.tables (extractionOf "ada").2.tables "ii" "ada" ∧
      FoundByAlias (extractionOf "ada").2.tables "ii" "ada" := by
  have hcreated : CreatedFor wordEnv.text beforeExtraction.tables (extractionOf "ada").2.tables
      "ii" "ada" := createdFor_extractionOf (by decide +kernel)
  have hok : (extractionOf "ada").1.isOk = true := by decide +kernel
  rcases hrun : extractionOf "ada" with ⟨outcome, w'⟩
  rw [hrun] at hcreated hok
  cases outcome with
  | error e => cases hok
  | ok report =>
      have hspelled : FirstSpelled wordEnv.text
          ((resultNames wordEnv.text (namedResult "ada")).map Prod.snd) "ada" "ada" :=
        ⟨[], [], rfl, rfl, fun _ h => absurd h List.not_mem_nil⟩
      have hlower : wordEnv.text.toLowercase "ada" = "ada" := by decide +kernel
      have hiff := extracted_found_iff lowercaseLaws_wordText freshIds_beforeExtraction hrun
        hcreated
      rw [hlower] at hiff
      exact ⟨hcreated, hiff.mpr hspelled⟩

/-- Ada is created with the alias Ada alone and is not found as ada. -/
theorem extracted_not_found :
    CreatedFor wordEnv.text beforeExtraction.tables (extractionOf "Ada").2.tables "ii" "Ada" ∧
      (extractionOf "Ada").1.isOk = true ∧ wordEnv.text.toLowercase "Ada" = "ada" ∧
      ¬ FoundByAlias (extractionOf "Ada").2.tables "ii" "ada" := by
  refine ⟨createdFor_extractionOf (by decide +kernel), by decide +kernel, by decide +kernel, ?_⟩
  rw [foundByAlias_iff]
  rintro ⟨halias, _⟩
  have hnone : (extractionOf "Ada").2.tables.entityAliases.contains ("ii", "ada") = false := by
    decide +kernel
  rw [hnone] at halias
  cases halias

end Examples

end Facade
end MenteDb
