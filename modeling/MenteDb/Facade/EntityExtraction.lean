import MenteDb.Facade.World
import MenteDb.Foundation.Strings

/-!
# The surface linker

Entities that a memory names explicitly: in tags, and in lines that are structured
fields.  Mentions with one type and one name, up to case, are merged; a mention is
named by a phrase whose white space is folded.
-/

namespace MenteDb
namespace Facade

open Foundation
open Cognitive

variable {F : Type}

/-!
## Pieces of a text
-/

def stripPrefix (pattern s : String) : Option String :=
  (Strings.stripPrefix pattern.toList s.toList).map String.ofList

def splitOnce (pattern s : String) : Option (String × String) :=
  (Strings.splitOnce pattern.toList s.toList).map (fun parts =>
    (String.ofList parts.1, String.ofList parts.2))

def replaceText (pattern replacement s : String) : String :=
  String.ofList (Strings.replace pattern.toList replacement.toList s.toList)

def trimStartText (pattern s : String) : String :=
  String.ofList (Strings.trimStartMatches pattern.toList s.toList)

def trimEndDots (s : String) : String :=
  String.ofList (Strings.trimEndMatches (fun c => c == '.') s.toList)

/-- A line feed ends a line, and a carriage return right before it is not part of it. -/
def lines (s : String) : List String :=
  let pieces := s.toList.splitOnP (fun c => c == '\n')
  let ended := pieces.dropLast.map (fun line =>
    if line.getLast? = some '\r' then line.dropLast else line)
  let rest := pieces.getLast?.getD []
  (if rest.isEmpty then ended else ended ++ [rest]).map String.ofList

def fieldValue (text : TextOps F) (line field : String) : Option String :=
  match splitOnce ":" line with
  | none => none
  | some (head, value) =>
      if (text.trim head).toList.map Char.toLower = field.toList.map Char.toLower then
        some (text.trim value)
      else none

def firstStructuredValue (text : TextOps F) (value : String) : String :=
  text.trim (trimEndDots (((splitOnce ". " value).map Prod.fst).getD value))

def splitStructuredList (text : TextOps F) (value : String) : List String :=
  let normalized :=
    replaceText " plus " "," (replaceText " and " "," (replaceText " with " "," value))
  ((normalized.toList.splitOnP (fun c => c == ',')).map (fun part =>
    text.trim (trimEndDots (trimStartText "with "
      (trimStartText "and " (text.trim (String.ofList part))))))).filter
    (fun cleaned => !cleaned.isEmpty)

def takeUntilBoundary (raw : String) : String :=
  ((((splitOnce " is " raw).or (splitOnce " uses " raw)).or
    (splitOnce " includes " raw)).map Prod.fst).getD raw

def trimSectionPrefix (text : TextOps F) (line : String) : String :=
  let trimmed := text.trim line
  match (stripPrefix "[" trimmed).bind (splitOnce "]") with
  | some (_, after) => text.trim after
  | none => trimmed

def trimContextPrefix (text : TextOps F) (line : String) : String :=
  let withoutSection := trimSectionPrefix text line
  match ["User:", "Assistant:", "System:"].findSome? (fun speaker =>
    stripPrefix speaker withoutSection) with
  | some rest => text.trim rest
  | none => withoutSection

def isQuoting (c : Char) : Bool :=
  c ∈ [',', ';', ':', '"', '\'', '(', ')', '[', ']']

/-- The words of a phrase without the punctuation around it. -/
def phraseWords (text : TextOps F) (raw : String) : List String :=
  text.splitWhitespace
    (trimEndDots (String.ofList (Strings.trimMatches isQuoting (text.trim raw).toList)))

def stripKind (cleaned : String) : String :=
  ((stripPrefix "Project " cleaned).or (stripPrefix "Name " cleaned)).getD cleaned

def capitalized (word : String) : String :=
  match word.toList with
  | [] => ""
  | first :: rest => String.ofList (first.toUpper :: rest)

def canonicalizePhrase (text : TextOps F) (raw : String) : Option String :=
  let cleaned := stripKind (" ".intercalate (phraseWords text raw))
  if cleaned.isEmpty ∨ ¬ cleaned.toList.any Char.isAlpha then none
  else if cleaned.toList.any Char.isUpper then some cleaned
  else some (" ".intercalate ((text.splitWhitespace cleaned).map capitalized))

def aliasesFor (text : TextOps F) (raw canonical : String) (maxAliases : Nat) : List String :=
  [trimEndDots (text.trim raw), canonical, text.toLowercase canonical].foldl
    (fun aliases name =>
      if aliases.length < maxAliases ∧ ¬ name.isEmpty ∧ name ∉ aliases then aliases ++ [name]
      else aliases) []

def normalizeType (text : TextOps F) (raw : String) : String :=
  replaceText " " "_" (text.toLowercase (text.trim raw))

/-!
## Mentions
-/

section Mentions

variable [Scalar F]

/-- The mention of a phrase, if the phrase has a name in it. -/
def explicitMention (text : TextOps F) (config : EntityExtractionConfig F)
    (raw entityType role : String) (confidence : F) (evidence : String) :
    Option (ExtractedEntity F) :=
  (canonicalizePhrase text raw).map (fun canonical =>
    { canonical := canonical
      entityType := normalizeType text entityType
      aliases := aliasesFor text raw canonical config.maxAliasesPerEntity
      role := some role
      confidence := confidence
      evidence := some evidence })

def extractTagEntities (text : TextOps F) (config : EntityExtractionConfig F)
    (tags : List String) : List (ExtractedEntity F) :=
  let taggedType := (tags.findSome? (stripPrefix "entity_type:")).map (normalizeType text)
  tags.filterMap (fun tag =>
    (stripPrefix "entity:" tag).bind (fun raw =>
      explicitMention text config raw (taggedType.getD "concept") "mentioned"
        config.tagConfidence (text.trim raw)))

/-- The fields that list several values, with the type and the role of what they name. -/
def listFields : List (String × String × String) :=
  [("Location", "place", "location"), ("Base location", "place", "location"),
    ("Organization", "organization", "affiliation"),
    ("Company", "organization", "affiliation"), ("Employer", "organization", "affiliation"),
    ("Technology", "technology", "tool"), ("Technologies", "technology", "tool"),
    ("Stack", "technology", "tool"), ("Core stack", "technology", "tool")]

def extractNameField (text : TextOps F) (config : EntityExtractionConfig F) (clean : String) :
    Option (ExtractedEntity F) :=
  (fieldValue text clean "Name").bind (fun field =>
    let value := firstStructuredValue text field
    explicitMention text config value "person" "subject" config.structuredConfidence
      (trimEndDots (text.trim value)))

def extractProject (text : TextOps F) (config : EntityExtractionConfig F) (clean : String) :
    Option (ExtractedEntity F) :=
  (stripPrefix "Project " clean).bind (fun raw =>
    let project := takeUntilBoundary raw
    if (text.trim project).isEmpty then none
    else
      explicitMention text config project "project" "subject" config.structuredConfidence
        (text.trim project))

/-- Places that are only near are not mentioned. -/
def extractListField (text : TextOps F) (config : EntityExtractionConfig F) (clean : String)
    (field : String × String × String) : List (ExtractedEntity F) :=
  match fieldValue text clean field.1 with
  | none => []
  | some value =>
      (splitStructuredList text value).filterMap (fun part =>
        if field.2.1 = "place" ∧ (stripPrefix "near " (text.toLowercase part)).isSome then none
        else
          explicitMention text config part field.2.1 field.2.2 config.structuredConfidence part)

def extractStructuredFields (text : TextOps F) (config : EntityExtractionConfig F)
    (content : String) : List (ExtractedEntity F) :=
  (lines content).flatMap (fun line =>
    let clean := text.trim (trimContextPrefix text line)
    (extractNameField text config clean).toList ++ (extractProject text config clean).toList ++
      listFields.flatMap (extractListField text config clean))

/-!
## Accumulating
-/

omit [Scalar F] in
def mentionKey (text : TextOps F) (entity : ExtractedEntity F) : String :=
  text.toLowercase entity.entityType ++ ":" ++ text.toLowercase entity.canonical

/-- A mention met again keeps its name; a higher confidence brings its role. -/
def absorb (config : EntityExtractionConfig F) (existing entity : ExtractedEntity F) :
    ExtractedEntity F :=
  let stronger :=
    if existing.confidence < entity.confidence then
      { existing with
        confidence := entity.confidence
        role := entity.role.or existing.role
        evidence := existing.evidence.or entity.evidence }
    else existing
  { stronger with
    aliases := entity.aliases.foldl (fun aliases name =>
      if aliases.length < config.maxAliasesPerEntity ∧ name ∉ aliases then aliases ++ [name]
      else aliases) stronger.aliases }

def accumulate (text : TextOps F) (config : EntityExtractionConfig F)
    (byKey : Assoc String (ExtractedEntity F)) (entity : ExtractedEntity F) :
    Assoc String (ExtractedEntity F) :=
  if entity.confidence < config.minConfidence then byKey
  else if entity.canonical.utf8ByteSize < config.minPhraseChars ∨
      config.maxPhraseChars < entity.canonical.utf8ByteSize then byKey
  else
    match byKey.find? (mentionKey text entity) with
    | some existing => byKey.insert (mentionKey text entity) (absorb config existing entity)
    | none =>
        if byKey.entries.length < config.maxEntitiesPerMemory then
          byKey.insert (mentionKey text entity) entity
        else byKey

/-- The most confident mentions first, then by name. -/
def finishMentions (order : HashOrder) (config : EntityExtractionConfig F)
    (byKey : Assoc String (ExtractedEntity F)) : List (ExtractedEntity F) :=
  ((order.order (byKey.entries.map Prod.snd)).insertionSort (fun a b =>
    b.confidence < a.confidence ∨ a.confidence = b.confidence ∧ ¬ b.canonical < a.canonical)).take
    config.maxEntitiesPerMemory

def extractText (text : TextOps F) (order : HashOrder) (config : EntityExtractionConfig F)
    (content : String) (tags : List String) : List (ExtractedEntity F) :=
  if config.enabled then
    finishMentions order config
      ((extractTagEntities text config tags ++ extractStructuredFields text config content).foldl
        (accumulate text config) Assoc.empty)
  else []

/-- The environment with this linker, and with white space as the string library has it. -/
def Env.withSurfaceLinker (env : Env F) : Env F :=
  { env with
    text := env.text.atWhitespace
    extractMemory := fun node =>
      extractText env.text.atWhitespace env.hashOrder env.config.entityExtractionConfig
        node.content node.tags }

end Mentions

/-!
## Names with folded white space
-/

/-- Folding the white space of the name gives the name. -/
def Folded (text : TextOps F) (name : String) : Prop :=
  " ".intercalate (text.splitWhitespace name) = name

theorem stripPrefix_some {pattern s rest : String} (h : stripPrefix pattern s = some rest) :
    s.toList = pattern.toList ++ rest.toList := by
  unfold stripPrefix Strings.stripPrefix at h
  split at h
  · rename_i hprefix
    cases h
    rw [String.toList_ofList]
    rcases List.isPrefixOf_iff_prefix.mp hprefix with ⟨tail, htail⟩
    rw [← htail, List.drop_left]
  · cases h

/-- A word in front of joined words, once stripped, leaves joined words. -/
theorem stripPrefix_join {kind : String}
    (hkind : forall c, c ∈ kind.toList -> isWhitespace c = false)
    {ws : List String} (hws : forall w, w ∈ ws -> Strings.IsWord isWhitespace w.toList)
    {rest : String} (h : stripPrefix (kind ++ " ") (" ".intercalate ws) = some rest) :
    exists others : List String, (forall w, w ∈ others -> w ∈ ws) ∧
      rest = " ".intercalate others := by
  have hlist := stripPrefix_some h
  rw [String.toList_intercalate, String.toList_append] at hlist
  have hwords : forall w, w ∈ ws.map String.toList -> Strings.IsWord isWhitespace w := by
    intro w hw
    rcases List.mem_map.mp hw with ⟨v, hv, heq⟩
    subst heq
    exact hws v hv
  rcases Strings.join_eq_append rfl hwords hkind hlist with ⟨others, hsplit, hrest⟩
  cases ws with
  | nil => cases hsplit
  | cons w tail =>
      refine ⟨tail, fun v hv => List.mem_cons_of_mem w hv, ?_⟩
      rw [← String.toList_inj, hrest, String.toList_intercalate]
      rw [← (List.cons.inj hsplit).2]
      rfl

theorem stripKind_join {ws : List String}
    (hws : forall w, w ∈ ws -> Strings.IsWord isWhitespace w.toList) :
    exists others : List String, (forall w, w ∈ others -> w ∈ ws) ∧
      stripKind (" ".intercalate ws) = " ".intercalate others := by
  unfold stripKind
  cases hproject : stripPrefix "Project " (" ".intercalate ws) with
  | some rest =>
      have hkind : forall c, c ∈ "Project".toList -> isWhitespace c = false := by
        simp [isWhitespace]
      exact stripPrefix_join hkind hws hproject
  | none =>
      cases hname : stripPrefix "Name " (" ".intercalate ws) with
      | some rest =>
          have hkind : forall c, c ∈ "Name".toList -> isWhitespace c = false := by
            simp [isWhitespace]
          exact stripPrefix_join hkind hws hname
      | none => exact ⟨ws, fun _ hw => hw, rfl⟩

theorem isWhitespace_toUpper {c : Char} (h : isWhitespace c = false) :
    isWhitespace c.toUpper = false := by
  by_cases hlower : 97 <= c.toNat ∧ c.toNat <= 122
  · have hletters : forall n, n ∈ List.range 26 ->
        isWhitespace (Char.ofNat (97 + n)).toUpper = false := by decide
    have hletter := hletters (c.toNat - 97) (List.mem_range.mpr (by omega))
    have hsum : 97 + (c.toNat - 97) = c.toNat := by omega
    rw [hsum, Char.ofNat_toNat] at hletter
    exact hletter
  · have hsame : c.toUpper = c := by
      unfold Char.toUpper
      exact dif_neg hlower
    rw [hsame]
    exact h

theorem isWord_capitalized {w : String} (h : Strings.IsWord isWhitespace w.toList) :
    Strings.IsWord isWhitespace (capitalized w).toList := by
  unfold capitalized
  cases hchars : w.toList with
  | nil => exact absurd hchars h.1
  | cons first rest =>
      rw [hchars] at h
      show Strings.IsWord isWhitespace (String.ofList (first.toUpper :: rest)).toList
      rw [String.toList_ofList]
      refine ⟨List.cons_ne_nil _ _, ?_⟩
      intro c hc
      cases List.mem_cons.mp hc with
      | inl heq =>
          rw [heq]
          exact isWhitespace_toUpper (h.2 first List.mem_cons_self)
      | inr hrest => exact h.2 c (List.mem_cons_of_mem first hrest)

theorem folded_join (text : TextOps F) {ws : List String}
    (hws : forall w, w ∈ ws -> Strings.IsWord isWhitespace w.toList) :
    Folded text.atWhitespace (" ".intercalate ws) := by
  unfold Folded
  rw [splitWhitespace_join text hws]

theorem folded_canonicalizePhrase (text : TextOps F) {raw canonical : String}
    (h : canonicalizePhrase text.atWhitespace raw = some canonical) :
    Folded text.atWhitespace canonical := by
  have hphrase : forall w, w ∈ phraseWords text.atWhitespace raw ->
      Strings.IsWord isWhitespace w.toList :=
    fun w hw => isWord_of_mem_splitWhitespace text hw
  rcases stripKind_join hphrase with ⟨ws, hsub, hcleaned⟩
  have hws := fun w hw => hphrase w (hsub w hw)
  unfold canonicalizePhrase at h
  simp only [hcleaned, splitWhitespace_join text hws] at h
  split at h
  · cases h
  · split at h
    · cases h
      exact folded_join text hws
    · cases h
      apply folded_join text
      intro w hw
      rcases List.mem_map.mp hw with ⟨v, hv, heq⟩
      subst heq
      exact isWord_capitalized (hws v hv)

/-!
## Mentions of one memory
-/

theorem folded_explicitMention {text : TextOps F} {config : EntityExtractionConfig F}
    {raw entityType role evidence : String} {confidence : F} {entity : ExtractedEntity F}
    (h : explicitMention text.atWhitespace config raw entityType role confidence evidence =
      some entity) : Folded text.atWhitespace entity.canonical := by
  rcases Option.map_eq_some_iff.mp h with ⟨canonical, hcanonical, heq⟩
  subst heq
  exact folded_canonicalizePhrase text hcanonical

theorem folded_extractTagEntities {text : TextOps F} {config : EntityExtractionConfig F}
    {tags : List String} {entity : ExtractedEntity F}
    (h : entity ∈ extractTagEntities text.atWhitespace config tags) :
    Folded text.atWhitespace entity.canonical := by
  rcases List.mem_filterMap.mp h with ⟨tag, _, hmention⟩
  rcases Option.bind_eq_some_iff.mp hmention with ⟨raw, _, hmention⟩
  exact folded_explicitMention hmention

theorem folded_extractListField {text : TextOps F} {config : EntityExtractionConfig F}
    {clean : String} {field : String × String × String} {entity : ExtractedEntity F}
    (h : entity ∈ extractListField text.atWhitespace config clean field) :
    Folded text.atWhitespace entity.canonical := by
  unfold extractListField at h
  split at h
  · cases h
  · rcases List.mem_filterMap.mp h with ⟨part, _, hmention⟩
    split at hmention
    · cases hmention
    · exact folded_explicitMention hmention

theorem folded_extractStructuredFields {text : TextOps F} {config : EntityExtractionConfig F}
    {content : String} {entity : ExtractedEntity F}
    (h : entity ∈ extractStructuredFields text.atWhitespace config content) :
    Folded text.atWhitespace entity.canonical := by
  rcases List.mem_flatMap.mp h with ⟨line, _, hline⟩
  cases List.mem_append.mp hline with
  | inl hsingle =>
      cases List.mem_append.mp hsingle with
      | inl hname =>
          rcases Option.bind_eq_some_iff.mp (Option.mem_toList.mp hname) with ⟨_, _, hmention⟩
          exact folded_explicitMention hmention
      | inr hproject =>
          rcases Option.bind_eq_some_iff.mp (Option.mem_toList.mp hproject) with ⟨_, _, hmention⟩
          simp only at hmention
          split at hmention
          · cases hmention
          · exact folded_explicitMention hmention
  | inr hlist =>
      rcases List.mem_flatMap.mp hlist with ⟨field, _, hfield⟩
      exact folded_extractListField hfield

/-- Mentions are kept under their key and have folded names. -/
def Keyed (text : TextOps F) (byKey : Assoc String (ExtractedEntity F)) : Prop :=
  forall key entity, byKey.find? key = some entity ->
    key = mentionKey text entity ∧ Folded text entity.canonical

theorem Keyed.insert {text : TextOps F} {byKey : Assoc String (ExtractedEntity F)}
    (h : Keyed text byKey) {key : String} {entity : ExtractedEntity F}
    (hkey : key = mentionKey text entity) (hfolded : Folded text entity.canonical) :
    Keyed text (byKey.insert key entity) := by
  intro key' entity' hfind
  rw [Assoc.find?_insert] at hfind
  split at hfind
  · rename_i heq
    cases hfind
    exact ⟨heq.trans hkey, hfolded⟩
  · exact h key' entity' hfind

theorem Keyed.map_mentionKey {text : TextOps F} {byKey : Assoc String (ExtractedEntity F)}
    (h : Keyed text byKey) :
    (byKey.entries.map Prod.snd).map (mentionKey text) = byKey.keys := by
  rw [List.map_map]
  apply List.map_congr_left
  intro entry hentry
  exact (h entry.1 entry.2 (Assoc.find?_eq_some_iff.mpr hentry)).1.symm

section Distinct

variable [Scalar F]

theorem absorb_name (config : EntityExtractionConfig F) (existing entity : ExtractedEntity F) :
    (absorb config existing entity).canonical = existing.canonical ∧
      (absorb config existing entity).entityType = existing.entityType := by
  unfold absorb
  simp only
  split
  · exact ⟨rfl, rfl⟩
  · exact ⟨rfl, rfl⟩

theorem Keyed.accumulate {text : TextOps F} {config : EntityExtractionConfig F}
    {byKey : Assoc String (ExtractedEntity F)} (h : Keyed text byKey)
    {entity : ExtractedEntity F} (hfolded : Folded text entity.canonical) :
    Keyed text (accumulate text config byKey entity) := by
  unfold Facade.accumulate
  split
  · exact h
  · split
    · exact h
    · cases hfind : byKey.find? (mentionKey text entity) with
      | some existing =>
          have hexisting := h _ _ hfind
          have hname := absorb_name config existing entity
          apply h.insert
          · unfold mentionKey at hexisting ⊢
            rw [hname.1, hname.2]
            exact hexisting.1
          · rw [hname.1]
            exact hexisting.2
      | none =>
          simp only
          split
          · exact h.insert rfl hfolded
          · exact h

theorem Keyed.foldl {text : TextOps F} {config : EntityExtractionConfig F}
    {mentions : List (ExtractedEntity F)}
    (hfolded : forall entity, entity ∈ mentions -> Folded text entity.canonical)
    {byKey : Assoc String (ExtractedEntity F)} (h : Keyed text byKey) :
    Keyed text (mentions.foldl (Facade.accumulate text config) byKey) := by
  induction mentions generalizing byKey with
  | nil => exact h
  | cons entity rest ih =>
      exact ih (fun e he => hfolded e (List.mem_cons_of_mem entity he))
        (h.accumulate (hfolded entity List.mem_cons_self))

theorem keyed_accumulated (text : TextOps F) (config : EntityExtractionConfig F)
    (content : String) (tags : List String) :
    Keyed text.atWhitespace ((extractTagEntities text.atWhitespace config tags ++
      extractStructuredFields text.atWhitespace config content).foldl
        (accumulate text.atWhitespace config) Assoc.empty) := by
  apply Keyed.foldl
  · intro entity hentity
    cases List.mem_append.mp hentity with
    | inl htag => exact folded_extractTagEntities htag
    | inr hfield => exact folded_extractStructuredFields hfield
  · intro key entity hfind
    cases hfind

/-- Two mentions of a memory differ in their type or in more than the case of their
names. -/
theorem nodup_mentionKeys (text : TextOps F) (order : HashOrder)
    (config : EntityExtractionConfig F) (content : String) (tags : List String) :
    ((extractText text.atWhitespace order config content tags).map
      (mentionKey text.atWhitespace)).Nodup := by
  unfold extractText
  split
  · have hkeyed := keyed_accumulated text config content tags
    generalize (extractTagEntities text.atWhitespace config tags ++
      extractStructuredFields text.atWhitespace config content).foldl
        (accumulate text.atWhitespace config) Assoc.empty = byKey at hkeyed ⊢
    have hall : ((byKey.entries.map Prod.snd).map (mentionKey text.atWhitespace)).Nodup := by
      rw [hkeyed.map_mentionKey]
      exact byKey.nodup
    unfold finishMentions
    apply List.Nodup.sublist ((List.take_sublist _ _).map _)
    have hperm := (List.perm_insertionSort (fun a b : ExtractedEntity F =>
      b.confidence < a.confidence ∨ a.confidence = b.confidence ∧ ¬ b.canonical < a.canonical)
      (order.order (byKey.entries.map Prod.snd))).trans (order.perm _)
    exact ((hperm.map (mentionKey text.atWhitespace)).nodup_iff).mpr hall
  · exact List.nodup_nil

theorem folded_extractText {text : TextOps F} {order : HashOrder}
    {config : EntityExtractionConfig F} {content : String} {tags : List String}
    {entity : ExtractedEntity F}
    (h : entity ∈ extractText text.atWhitespace order config content tags) :
    Folded text.atWhitespace entity.canonical := by
  unfold extractText at h
  split at h
  · have hsorted := List.mem_of_mem_take h
    rw [List.mem_insertionSort, HashOrder.mem_order] at hsorted
    rcases List.mem_map.mp hsorted with ⟨entry, hentry, heq⟩
    subst heq
    exact (keyed_accumulated text config content tags entry.1 entry.2
      (Assoc.find?_eq_some_iff.mpr hentry)).2
  · cases h

end Distinct

end Facade
end MenteDb
