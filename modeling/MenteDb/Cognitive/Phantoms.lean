import Mathlib.Data.List.Induction
import MenteDb.Cognitive.Stream
import MenteDb.Foundation.FirstSeen
import MenteDb.Foundation.Ranking
import MenteDb.Foundation.Sorting

/-!
# Phantom memories

A phantom stands for something a text mentions of which nothing is known.  Registered entities
are looked for first; quoted terms, capitalized words and technical terms are guesses.  A phantom
stays active until it is resolved.
-/

namespace MenteDb
namespace Cognitive

open Foundation

variable {F : Type}

inductive PhantomPriority where
  | low
  | medium
  | high
  | critical
deriving DecidableEq, Repr

def PhantomPriority.rank : PhantomPriority -> Nat
  | low => 0
  | medium => 1
  | high => 2
  | critical => 3

structure PhantomMemory where
  id : MemoryId
  gapDescription : String
  sourceReference : String
  sourceTurn : UInt64
  priority : PhantomPriority
  createdAt : Timestamp
  resolved : Bool
deriving DecidableEq

structure PhantomConfig where
  stopWords : List String
  maxWarnings : Nat
  minWordLength : Nat
  useHeuristicDetection : Bool

def PhantomConfig.default : PhantomConfig where
  stopWords :=
    ["the", "a", "an", "is", "are", "was", "were", "it", "this", "that", "we", "you", "they",
      "he", "she", "i", "my", "our", "but", "and", "or", "if", "then", "when", "how", "what",
      "where", "who", "do", "does", "did", "have", "has", "had", "be", "been", "being", "so",
      "also", "just", "very", "too", "not", "no", "yes", "can", "will", "should", "would",
      "could", "may", "might", "must", "shall", "note", "see", "use", "make", "let", "new",
      "set", "get"]
  maxWarnings := 5
  minWordLength := 3
  useHeuristicDetection := true

/-- The registered entities are a hash set. -/
structure PhantomTracker where
  phantoms : List PhantomMemory
  config : PhantomConfig
  knownEntities : List String

/-- The classes of Unicode characters that are asked for. -/
structure CharClasses where
  isUppercase : Char -> Bool
  isAlphanumeric : Char -> Bool

/-!
## Guesses
-/

section Guesses

def isQuote (c : Char) : Bool :=
  c == '\'' || c == '"' || c.toNat == 0x2018 || c.toNat == 0x2019

/-- What stands between one quotation mark and the next, given what follows the first one. -/
def quotedTerms : Option (List Char) -> List Char -> List String
  | _, [] => []
  | none, c :: rest => quotedTerms (if isQuote c then some [] else none) rest
  | some term, c :: rest =>
      if isQuote c then String.ofList term :: quotedTerms none rest
      else quotedTerms (some (term ++ [c])) rest

variable (classes : CharClasses)

def isOuter (c : Char) : Bool :=
  !classes.isAlphanumeric c && c != '-' && c != '_' && c != '.'

/-- Without the punctuation around the word. -/
def trimWord (w : String) : String :=
  String.ofList (Strings.trimMatches (isOuter classes) w.toList)

def startsUppercase (w : String) : Bool := w.toList.head?.any classes.isUppercase

/-- A technical term by its punctuation, or because it is in capitals. -/
def isTechnical (minWordLength : Nat) (w : String) : Bool :=
  decide ('-' ∈ w.toList) || decide ('.' ∈ w.toList) || decide ('_' ∈ w.toList) ||
    (decide (minWordLength <= w.utf8ByteSize) &&
      w.toList.all (fun c => classes.isUppercase c || c.isDigit || c == '_'))

variable (text : TextOps F) (config : PhantomConfig)

/-- A single stop word is no entity. -/
def isStopWord (entity : String) : Bool :=
  decide ((text.splitWhitespace entity).length = 1) &&
    decide (text.toLowercase entity ∈ config.stopWords)

/-- The loop over the words; those that belong to the last entity are skipped. -/
def wordTerms : Nat -> List String -> List String
  | _, [] => []
  | skip + 1, _ :: rest => wordTerms skip rest
  | 0, raw :: rest =>
      let w := trimWord classes raw
      if !w.isEmpty && startsUppercase classes w && decide (2 <= w.utf8ByteSize) then
        let more := (rest.map (trimWord classes)).takeWhile (fun next =>
          !next.isEmpty && startsUppercase classes next)
        let entity := " ".intercalate (w :: more)
        (if isStopWord text config entity then [] else [entity]) ++ wordTerms more.length rest
      else
        (if !w.isEmpty && decide (config.minWordLength <= w.utf8ByteSize) &&
            isTechnical classes config.minWordLength w then [w] else []) ++ wordTerms 0 rest

/-- The quoted terms of at least two bytes, then the terms among the words. -/
def heuristicTerms (content : String) : List String :=
  ((quotedTerms none content.toList).map text.trim).filter (fun term =>
    !term.isEmpty && decide (2 <= term.utf8ByteSize)) ++
    wordTerms classes text config 0 (text.splitWhitespace content)

end Guesses

namespace PhantomTracker

def new (config : PhantomConfig) : PhantomTracker where
  phantoms := []
  config := config
  knownEntities := []

def registerEntity (t : PhantomTracker) (entity : String) : PhantomTracker :=
  if entity ∈ t.knownEntities then t
  else { t with knownEntities := t.knownEntities ++ [entity] }

def unregister (t : PhantomTracker) (entity : String) : PhantomTracker :=
  { t with knownEntities := t.knownEntities.filter (fun e => decide (e ≠ entity)) }

def registerEntities (t : PhantomTracker) (entities : List String) : PhantomTracker :=
  entities.foldl registerEntity t

def phantomOf (turnId : UInt64) (now : Timestamp) (id : MemoryId) (entity : String)
    (priority : PhantomPriority) : PhantomMemory where
  id := id
  gapDescription := "No stored knowledge about '" ++ entity ++ "'"
  sourceReference := entity
  sourceTurn := turnId
  priority := priority
  createdAt := now
  resolved := false

section Detection

variable (classes : CharClasses) (text : TextOps F) (hash : HashOrder)

/-- The registered entities that the text names. -/
def registeredMentions (t : PhantomTracker) (content : String) :
    List (String × PhantomPriority) :=
  ((hash.order t.knownEntities).filter (fun entity =>
    containsText (text.toLowercase content) (text.toLowercase entity))).map (fun entity =>
      (entity, if 1 < (text.splitWhitespace entity).length then PhantomPriority.high
        else PhantomPriority.medium))

/-- The mentions of which nothing is known, one of each name up to case. -/
def unknownMentions (t : PhantomTracker) (content : String) (knownEntities : List String) :
    List (String × PhantomPriority) :=
  let known := knownEntities.map text.toLowercase
  let unknown := fun (mention : String × PhantomPriority) =>
    decide (text.toLowercase mention.1 ∉ known)
  let name := fun (mention : String × PhantomPriority) => text.toLowercase mention.1
  let registered := firstOfEach name [] ((t.registeredMentions text hash content).filter unknown)
  if t.config.useHeuristicDetection then
    registered.1 ++ (firstOfEach name registered.2
      (((heuristicTerms classes text t.config content).map (fun term =>
        (term, PhantomPriority.low))).filter unknown)).1
  else registered.1

/-- The new phantoms, with fresh identifiers. -/
def detectGaps (t : PhantomTracker) (content : String) (knownEntities : List String)
    (turnId : UInt64) (now : Timestamp) (newId : Nat -> MemoryId) :
    List PhantomMemory × PhantomTracker :=
  let newPhantoms := (t.unknownMentions classes text hash content knownEntities).zipIdx.map
    (fun m => phantomOf turnId now (newId m.2) m.1.1 m.1.2)
  (newPhantoms, { t with phantoms := t.phantoms ++ newPhantoms })

/-- The caller says what was mentioned. -/
def detectGapsExplicit (t : PhantomTracker) (mentionedEntities : List String) (turnId : UInt64)
    (now : Timestamp) (newId : Nat -> MemoryId) : List PhantomMemory × PhantomTracker :=
  let newPhantoms := ((mentionedEntities.filter (fun e =>
    decide (e ∉ t.knownEntities))).zipIdx).map (fun e =>
      phantomOf turnId now (newId e.2) e.1 PhantomPriority.medium)
  (newPhantoms, { t with phantoms := t.phantoms ++ newPhantoms })

end Detection

/-- The first phantom with the identifier is resolved. -/
def resolveFirst (id : MemoryId) : List PhantomMemory -> List PhantomMemory
  | [] => []
  | p :: rest =>
      if p.id = id then { p with resolved := true } :: rest else p :: resolveFirst id rest

def resolve (t : PhantomTracker) (id : MemoryId) : PhantomTracker :=
  { t with phantoms := resolveFirst id t.phantoms }

/-- The most urgent first, equals in the order in which they were found. -/
def getActivePhantoms (t : PhantomTracker) : List PhantomMemory :=
  (t.phantoms.filter (fun p => !p.resolved)).insertionSort
    (fun a b => b.priority.rank <= a.priority.rank)

end PhantomTracker

/-!
## What is mentioned
-/

section Mentions

variable {classes : CharClasses} {text : TextOps F} {config : PhantomConfig}

/-- A term stands between quotation marks without another one in between. -/
def Quoted (content : List Char) (term : String) : Prop :=
  exists before q inner q' after, content = before ++ q :: (inner ++ q' :: after) ∧
    isQuote q = true ∧ isQuote q' = true ∧ (forall c, c ∈ inner -> isQuote c = false) ∧
    term = String.ofList inner

theorem Quoted.cons {content : List Char} {term : String} (h : Quoted content term) (c : Char) :
    Quoted (c :: content) term := by
  rcases h with ⟨before, q, inner, q', after, rfl, hrest⟩
  exact ⟨c :: before, q, inner, q', after, rfl, hrest⟩

/-- Inside a quotation the term has begun already. -/
theorem quoted_of_mem_quotedTerms {content : List Char} {open_ : Option (List Char)}
    {term : String} (h : term ∈ quotedTerms open_ content) :
    Quoted content term ∨
      exists begun inner q' after, open_ = some begun ∧ content = inner ++ q' :: after ∧
        isQuote q' = true ∧ (forall c, c ∈ inner -> isQuote c = false) ∧
        term = String.ofList (begun ++ inner) := by
  induction content generalizing open_ with
  | nil =>
      rw [quotedTerms] at h
      cases h
  | cons c rest ih =>
      cases open_ with
      | none =>
          rw [quotedTerms] at h
          rcases ih h with hlater | ⟨begun, inner, q', after, hopen, hrest, hq', hinner, hterm⟩
          · exact Or.inl (hlater.cons c)
          · split at hopen
            · rename_i hq
              cases hopen
              refine Or.inl ⟨[], c, inner, q', after, ?_, hq, hq', hinner, hterm⟩
              rw [hrest]
              rfl
            · cases hopen
      | some begun =>
          rw [quotedTerms] at h
          split at h
          · rename_i hq
            rcases List.mem_cons.mp h with hterm | hlater
            · refine Or.inr ⟨begun, [], c, rest, rfl, rfl, hq, (fun _ h => by cases h), ?_⟩
              rw [hterm, List.append_nil]
            · rcases ih hlater with hlater | ⟨_, _, _, _, hopen, _⟩
              · exact Or.inl (hlater.cons c)
              · cases hopen
          · rename_i hc
            rcases ih h with hlater | ⟨begun', inner, q', after, hopen, hrest, hq', hinner, hterm⟩
            · exact Or.inl (hlater.cons c)
            · cases hopen
              refine Or.inr ⟨begun, c :: inner, q', after, rfl, ?_, hq', ?_, ?_⟩
              · rw [hrest]
                rfl
              · intro x hx
                rcases List.mem_cons.mp hx with heq | hx
                · rw [heq]
                  exact Bool.not_eq_true _ ▸ hc
                · exact hinner x hx
              · rw [hterm, List.append_assoc]
                rfl

/-- Neighbouring words in capitals, or a technical term. -/
inductive WordMention (classes : CharClasses) (minWordLength : Nat) (words : List String) :
    String -> Prop where
  | capitalized (before run after : List String) :
      words = before ++ run ++ after -> run ≠ [] ->
      (forall w, w ∈ run -> startsUppercase classes (trimWord classes w) = true) ->
      WordMention classes minWordLength words (" ".intercalate (run.map (trimWord classes)))
  | technical {w : String} :
      w ∈ words -> isTechnical classes minWordLength (trimWord classes w) = true ->
      WordMention classes minWordLength words (trimWord classes w)

theorem WordMention.cons {minWordLength : Nat} {words : List String} {term : String}
    (h : WordMention classes minWordLength words term) (w : String) :
    WordMention classes minWordLength (w :: words) term := by
  cases h with
  | capitalized before run after hwords hne hrun =>
      refine WordMention.capitalized (w :: before) run after ?_ hne hrun
      rw [hwords]
      rfl
  | technical hw htechnical => exact WordMention.technical (List.mem_cons_of_mem _ hw) htechnical

theorem map_take_takeWhile (f : String -> String) (p : String -> Bool) (ws : List String) :
    (ws.take ((ws.map f).takeWhile p).length).map f = (ws.map f).takeWhile p := by
  rw [List.map_take]
  exact (List.prefix_iff_eq_take.mp (List.takeWhile_prefix p)).symm

/-- The first word and those after it in capitals are one mention. -/
theorem wordMention_run {minWordLength : Nat} {raw : String} {rest : List String}
    (hstart : startsUppercase classes (trimWord classes raw) = true) :
    WordMention classes minWordLength (raw :: rest)
      (" ".intercalate (trimWord classes raw ::
        (rest.map (trimWord classes)).takeWhile (fun next =>
          !next.isEmpty && startsUppercase classes next))) := by
  have hrun := map_take_takeWhile (trimWord classes) (fun next =>
    !next.isEmpty && startsUppercase classes next) rest
  rw [← hrun, ← List.map_cons]
  refine WordMention.capitalized [] _ (rest.drop
    ((rest.map (trimWord classes)).takeWhile (fun next =>
      !next.isEmpty && startsUppercase classes next)).length) ?_ (List.cons_ne_nil _ _) ?_
  · rw [List.nil_append, List.cons_append, List.take_append_drop]
  · intro w hw
    rcases List.mem_cons.mp hw with heq | hw
    · rw [heq]
      exact hstart
    · have hmem : trimWord classes w ∈ List.map (trimWord classes) _ := List.mem_map_of_mem hw
      rw [hrun] at hmem
      have hnext := List.mem_takeWhile_imp hmem
      rw [Bool.and_eq_true] at hnext
      exact hnext.2

theorem wordMention_of_mem_wordTerms {words : List String} {skip : Nat} {term : String}
    (h : term ∈ wordTerms classes text config skip words) :
    WordMention classes config.minWordLength words term := by
  induction words generalizing skip with
  | nil =>
      rw [wordTerms] at h
      cases h
  | cons raw rest ih =>
      cases skip with
      | succ skip =>
          rw [wordTerms] at h
          exact (ih h).cons raw
      | zero =>
          rw [wordTerms] at h
          dsimp only at h
          split at h
          · rename_i hstart
            rcases List.mem_append.mp h with hhere | hlater
            · split at hhere
              · cases hhere
              · rw [List.mem_singleton.mp hhere]
                simp only [Bool.and_eq_true] at hstart
                exact wordMention_run hstart.1.2
            · exact (ih hlater).cons raw
          · rcases List.mem_append.mp h with hhere | hlater
            · split at hhere
              · rename_i htechnical
                rw [List.mem_singleton.mp hhere]
                rw [Bool.and_eq_true] at htechnical
                exact WordMention.technical List.mem_cons_self htechnical.2
              · cases hhere
            · exact (ih hlater).cons raw

/-- A guess is a quoted term, or found among the words. -/
theorem guessed_of_mem_heuristicTerms {content term : String}
    (h : term ∈ heuristicTerms classes text config content) :
    (exists quoted, Quoted content.toList quoted ∧ term = text.trim quoted) ∨
      WordMention classes config.minWordLength (text.splitWhitespace content) term := by
  rcases List.mem_append.mp h with hquoted | hword
  · left
    rcases List.mem_map.mp (List.mem_filter.mp hquoted).1 with ⟨quoted, hmem, rfl⟩
    rcases quoted_of_mem_quotedTerms hmem with hquoted | ⟨_, _, _, _, hopen, _⟩
    · exact ⟨quoted, hquoted, rfl⟩
    · cases hopen
  · exact Or.inr (wordMention_of_mem_wordTerms hword)

end Mentions

namespace PhantomTracker

section Gaps

variable {classes : CharClasses} {text : TextOps F}

/-- All mentions, registered ones first. -/
def mentions (classes : CharClasses) (text : TextOps F) (hash : HashOrder) (t : PhantomTracker)
    (content : String) : List (String × PhantomPriority) :=
  t.registeredMentions text hash content ++
    if t.config.useHeuristicDetection then
      (heuristicTerms classes text t.config content).map (fun term => (term, PhantomPriority.low))
    else []

/-- The two loops over the mentions are one. -/
theorem unknownMentions_eq (hash : HashOrder) (t : PhantomTracker) (content : String)
    (knownEntities : List String) :
    t.unknownMentions classes text hash content knownEntities =
      (firstOfEach (fun mention : String × PhantomPriority => text.toLowercase mention.1) []
        ((t.mentions classes text hash content).filter (fun mention =>
          decide (text.toLowercase mention.1 ∉ knownEntities.map text.toLowercase)))).1 := by
  unfold unknownMentions mentions
  dsimp only
  split
  · rw [List.filter_append, firstOfEach_append]
  · rw [List.append_nil]

variable (classes text) in
theorem map_sourceReference_detectGaps (hash : HashOrder) (t : PhantomTracker) (content : String)
    (knownEntities : List String) (turnId : UInt64) (now : Timestamp) (newId : Nat -> MemoryId) :
    ((t.detectGaps classes text hash content knownEntities turnId now newId).1).map
        PhantomMemory.sourceReference =
      (t.unknownMentions classes text hash content knownEntities).map Prod.fst := by
  unfold detectGaps
  dsimp only
  rw [List.map_map, ← List.zipIdx_map_fst 0 (t.unknownMentions classes text hash content
    knownEntities), List.map_map, List.zipIdx_map_fst]
  rfl

/-- A registered entity with this name, up to case, that the text names. -/
def NamesRegistered (text : TextOps F) (t : PhantomTracker) (content name : String) : Prop :=
  exists entity, entity ∈ t.knownEntities ∧ text.toLowercase entity = name ∧
    containsText (text.toLowercase content) name = true

theorem mem_registeredMentions {hash : HashOrder} {t : PhantomTracker} {content : String}
    {mention : String × PhantomPriority} :
    mention ∈ t.registeredMentions text hash content <->
      mention.1 ∈ t.knownEntities ∧
        containsText (text.toLowercase content) (text.toLowercase mention.1) = true ∧
        mention.2 = if 1 < (text.splitWhitespace mention.1).length then PhantomPriority.high
          else PhantomPriority.medium := by
  unfold registeredMentions
  rw [List.mem_map]
  constructor
  · rintro ⟨entity, hentity, rfl⟩
    rcases List.mem_filter.mp hentity with ⟨hmem, hin⟩
    exact ⟨hash.mem_order.mp hmem, hin, rfl⟩
  · rintro ⟨hmem, hin, hpriority⟩
    refine ⟨mention.1, List.mem_filter.mpr ⟨hash.mem_order.mpr hmem, hin⟩, ?_⟩
    rw [← hpriority]

/-- A name is mentioned when it is registered, or guessed. -/
theorem mem_names_mentions {hash : HashOrder} {t : PhantomTracker} {content name : String} :
    name ∈ (t.mentions classes text hash content).map (fun m => text.toLowercase m.1) <->
      NamesRegistered text t content name ∨
        (t.config.useHeuristicDetection = true ∧
          exists term, term ∈ heuristicTerms classes text t.config content ∧
            text.toLowercase term = name) := by
  unfold mentions
  rw [List.map_append, List.mem_append]
  apply or_congr
  · rw [List.mem_map]
    constructor
    · rintro ⟨mention, hmention, rfl⟩
      rcases mem_registeredMentions.mp hmention with ⟨hmem, hin, _⟩
      exact ⟨mention.1, hmem, rfl, hin⟩
    · rintro ⟨entity, hmem, rfl, hin⟩
      exact ⟨(entity, if 1 < (text.splitWhitespace entity).length then PhantomPriority.high
        else PhantomPriority.medium), mem_registeredMentions.mpr ⟨hmem, hin, rfl⟩, rfl⟩
  · split
    · rename_i hheuristic
      rw [List.map_map, List.mem_map]
      exact (and_iff_right hheuristic).symm
    · rename_i hoff
      rw [List.map_nil]
      exact iff_of_false List.not_mem_nil (fun h => hoff h.1)

theorem names_detectGaps (hash : HashOrder) (t : PhantomTracker) (content : String)
    (knownEntities : List String) (turnId : UInt64) (now : Timestamp) (newId : Nat -> MemoryId) :
    ((t.detectGaps classes text hash content knownEntities turnId now newId).1).map
        (fun gap => text.toLowercase gap.sourceReference) =
      ((firstOfEach (fun mention : String × PhantomPriority => text.toLowercase mention.1) []
        ((t.mentions classes text hash content).filter (fun mention =>
          decide (text.toLowercase mention.1 ∉ knownEntities.map text.toLowercase)))).1).map
            (fun mention => text.toLowercase mention.1) := by
  have href := map_sourceReference_detectGaps classes text hash t content knownEntities
    turnId now newId
  have hmap := congrArg (List.map text.toLowercase) href
  rw [List.map_map, List.map_map, unknownMentions_eq] at hmap
  exact hmap

/-- A detected gap is one of the mentions. -/
theorem mention_of_mem_detectGaps {hash : HashOrder} {t : PhantomTracker} {content : String}
    {knownEntities : List String} {turnId : UInt64} {now : Timestamp} {newId : Nat -> MemoryId}
    {gap : PhantomMemory}
    (h : gap ∈ (t.detectGaps classes text hash content knownEntities turnId now newId).1) :
    (gap.sourceReference, gap.priority) ∈ t.mentions classes text hash content := by
  rcases List.mem_map.mp h with ⟨⟨mention, i⟩, hmem, rfl⟩
  have hmention := List.fst_mem_of_mem_zipIdx hmem
  rw [unknownMentions_eq] at hmention
  exact (List.mem_filter.mp ((firstOfEach_sublist _ _).subset hmention)).1

/-- The names of the detected gaps, up to case, are those that are mentioned and not known, each
once, whatever the order of the registered entities.  A gap of low priority is a guess from the
text; any other one is a registered entity, urgent if its name has several words. -/
theorem gaps_found_once (hash : HashOrder) (t : PhantomTracker) (content : String)
    (knownEntities : List String) (turnId : UInt64) (now : Timestamp) (newId : Nat -> MemoryId) :
    let gaps := (t.detectGaps classes text hash content knownEntities turnId now newId).1
    let names := gaps.map (fun gap => text.toLowercase gap.sourceReference)
    names.Nodup ∧
      (forall name, name ∈ names <->
        name ∉ knownEntities.map text.toLowercase ∧
          (NamesRegistered text t content name ∨
            (t.config.useHeuristicDetection = true ∧
              exists term, term ∈ heuristicTerms classes text t.config content ∧
                text.toLowercase term = name))) ∧
      (forall gap, gap ∈ gaps ->
        if gap.priority = PhantomPriority.low then
          (exists quoted, Quoted content.toList quoted ∧
            gap.sourceReference = text.trim quoted) ∨
            WordMention classes t.config.minWordLength (text.splitWhitespace content)
              gap.sourceReference
        else
          gap.sourceReference ∈ t.knownEntities ∧
            gap.priority = if 1 < (text.splitWhitespace gap.sourceReference).length then
              PhantomPriority.high else PhantomPriority.medium) ∧
      forall hash', names.Perm
        ((t.detectGaps classes text hash' content knownEntities turnId now newId).1.map
          (fun gap => text.toLowercase gap.sourceReference)) := by
  dsimp only
  have hnodup : forall hash : HashOrder,
      ((t.detectGaps classes text hash content knownEntities turnId now newId).1.map
        (fun gap => text.toLowercase gap.sourceReference)).Nodup := by
    intro hash
    rw [names_detectGaps]
    exact nodup_firstOfEach _ _
  have hmem : forall (hash : HashOrder) (name : String),
      name ∈ (t.detectGaps classes text hash content knownEntities turnId now newId).1.map
        (fun gap => text.toLowercase gap.sourceReference) <->
      name ∉ knownEntities.map text.toLowercase ∧
        (NamesRegistered text t content name ∨
          (t.config.useHeuristicDetection = true ∧
            exists term, term ∈ heuristicTerms classes text t.config content ∧
              text.toLowercase term = name)) := by
    intro hash name
    rw [names_detectGaps, mem_keys_firstOfEach,
      and_iff_left (List.not_mem_nil : name ∉ ([] : List String)),
      ← mem_names_mentions]
    constructor
    · intro h
      rcases List.mem_map.mp h with ⟨mention, hmention, rfl⟩
      rcases List.mem_filter.mp hmention with ⟨hin, hunknown⟩
      exact ⟨of_decide_eq_true hunknown, List.mem_map_of_mem hin⟩
    · rintro ⟨hunknown, h⟩
      rcases List.mem_map.mp h with ⟨mention, hin, rfl⟩
      exact List.mem_map_of_mem (List.mem_filter.mpr ⟨hin, decide_eq_true hunknown⟩)
  refine ⟨hnodup hash, hmem hash, ?_, ?_⟩
  · intro gap hgap
    rcases List.mem_append.mp (mention_of_mem_detectGaps hgap) with hregistered | hguess
    · rcases mem_registeredMentions.mp hregistered with ⟨hknown, _, hpriority⟩
      dsimp only at hknown hpriority
      rw [if_neg]
      · exact ⟨hknown, hpriority⟩
      · rw [hpriority]
        split
        · intro hlow
          cases hlow
        · intro hlow
          cases hlow
    · split at hguess
      · rcases List.mem_map.mp hguess with ⟨term, hterm, heq⟩
        rw [Prod.mk.injEq] at heq
        rw [if_pos heq.2.symm, ← heq.1]
        exact guessed_of_mem_heuristicTerms hterm
      · cases hguess
  · intro hash'
    rw [List.perm_ext_iff_of_nodup (hnodup hash) (hnodup hash')]
    intro name
    rw [hmem, hmem]

end Gaps

end PhantomTracker

/-!
## Histories
-/

/-- What is done to a tracker; the caller brings the clock and the fresh identifiers. -/
inductive PhantomCall where
  | register (entity : String)
  | unregister (entity : String)
  | detect (content : String) (knownEntities : List String) (turnId : UInt64) (now : Timestamp)
      (newId : Nat -> MemoryId)
  | detectExplicit (mentionedEntities : List String) (turnId : UInt64) (now : Timestamp)
      (newId : Nat -> MemoryId)
  | resolve (id : MemoryId)

/-- The call resolves the phantom. -/
def PhantomCall.resolves (id : MemoryId) : PhantomCall -> Bool
  | PhantomCall.resolve id' => decide (id' = id)
  | _ => false

namespace PhantomTracker

section Calls

variable (classes : CharClasses) (text : TextOps F) (hash : HashOrder)

/-- The phantoms that a call reports. -/
def detectedBy (t : PhantomTracker) : PhantomCall -> List PhantomMemory
  | PhantomCall.detect content knownEntities turnId now newId =>
      (t.detectGaps classes text hash content knownEntities turnId now newId).1
  | PhantomCall.detectExplicit mentionedEntities turnId now newId =>
      (t.detectGapsExplicit mentionedEntities turnId now newId).1
  | _ => []

def step (t : PhantomTracker) : PhantomCall -> PhantomTracker
  | PhantomCall.register entity => t.registerEntity entity
  | PhantomCall.unregister entity => t.unregister entity
  | PhantomCall.detect content knownEntities turnId now newId =>
      (t.detectGaps classes text hash content knownEntities turnId now newId).2
  | PhantomCall.detectExplicit mentionedEntities turnId now newId =>
      (t.detectGapsExplicit mentionedEntities turnId now newId).2
  | PhantomCall.resolve id => t.resolve id

def runFrom (t : PhantomTracker) (calls : List PhantomCall) : PhantomTracker :=
  calls.foldl (step classes text hash) t

/-- Every phantom that is reported, with the calls that come after. -/
def detections (t : PhantomTracker) :
    List PhantomCall -> List (PhantomMemory × List PhantomCall)
  | [] => []
  | call :: rest =>
      (t.detectedBy classes text hash call).map (fun gap => (gap, rest)) ++
        detections (t.step classes text hash call) rest

end Calls

section Histories

variable {classes : CharClasses} {text : TextOps F} {hash : HashOrder}

/-- What a call does to the phantoms that are there. -/
def touch (phantoms : List PhantomMemory) : PhantomCall -> List PhantomMemory
  | PhantomCall.resolve id => resolveFirst id phantoms
  | _ => phantoms

theorem phantoms_step (t : PhantomTracker) (call : PhantomCall) :
    (t.step classes text hash call).phantoms =
      touch t.phantoms call ++ t.detectedBy classes text hash call := by
  cases call with
  | register entity =>
      show (t.registerEntity entity).phantoms = t.phantoms ++ []
      unfold registerEntity
      rw [List.append_nil]
      split <;> rfl
  | unregister entity => exact (List.append_nil _).symm
  | detect content knownEntities turnId now newId => rfl
  | detectExplicit mentionedEntities turnId now newId => rfl
  | resolve id => exact (List.append_nil _).symm

theorem map_id_resolveFirst (id : MemoryId) (phantoms : List PhantomMemory) :
    (resolveFirst id phantoms).map PhantomMemory.id = phantoms.map PhantomMemory.id := by
  induction phantoms with
  | nil => rfl
  | cons p rest ih =>
      rw [resolveFirst]
      split
      · rfl
      · rw [List.map_cons, List.map_cons, ih]

theorem map_id_touch (phantoms : List PhantomMemory) (call : PhantomCall) :
    (touch phantoms call).map PhantomMemory.id = phantoms.map PhantomMemory.id := by
  cases call with
  | resolve id => exact map_id_resolveFirst id phantoms
  | _ => rfl

/-- The active ones among these are left when one is resolved. -/
theorem filter_resolveFirst {phantoms : List PhantomMemory} (id : MemoryId)
    (keep : PhantomMemory -> Bool) (hids : (phantoms.map PhantomMemory.id).Nodup) :
    (resolveFirst id phantoms).filter (fun p => !p.resolved && keep p) =
      phantoms.filter (fun p => !p.resolved && (!decide (id = p.id) && keep p)) := by
  induction phantoms with
  | nil => rfl
  | cons p rest ih =>
      rw [List.map_cons, List.nodup_cons] at hids
      rw [resolveFirst]
      split
      · rename_i hid
        -- the identifier does not come again
        have hrest : forall q, q ∈ rest -> id ≠ q.id := by
          intro q hq heq
          exact hids.1 (hid ▸ heq ▸ List.mem_map_of_mem hq)
        rw [List.filter_cons_of_neg (by simp), List.filter_cons_of_neg (by simp [hid])]
        apply List.filter_congr
        intro q hq
        rw [decide_eq_false (hrest q hq)]
        rfl
      · rename_i hid
        rw [List.filter_cons, List.filter_cons, ih hids.2, decide_eq_false (Ne.symm hid)]
        rfl

theorem filter_touch {phantoms : List PhantomMemory} (call : PhantomCall)
    (keep : PhantomMemory -> Bool) (hids : (phantoms.map PhantomMemory.id).Nodup) :
    (touch phantoms call).filter (fun p => !p.resolved && keep p) =
      phantoms.filter (fun p => !p.resolved && (!call.resolves p.id && keep p)) := by
  cases call with
  | resolve id => exact filter_resolveFirst id keep hids
  | _ => rfl

theorem active_of_mem_detectedBy {t : PhantomTracker} {call : PhantomCall} {p : PhantomMemory}
    (h : p ∈ t.detectedBy classes text hash call) : p.resolved = false := by
  cases call with
  | detect content knownEntities turnId now newId =>
      rcases List.mem_map.mp h with ⟨m, _, rfl⟩
      rfl
  | detectExplicit mentionedEntities turnId now newId =>
      rcases List.mem_map.mp h with ⟨e, _, rfl⟩
      rfl
  | _ => cases h

/-- None of the calls resolves the phantom. -/
def unresolvedBy (calls : List PhantomCall) (p : PhantomMemory) : Bool :=
  calls.all (fun call => !call.resolves p.id)

theorem filter_active_runFrom (t : PhantomTracker) (calls : List PhantomCall)
    (hids : (t.phantoms.map PhantomMemory.id ++
      (t.detections classes text hash calls).map (fun d => d.1.id)).Nodup) :
    (t.runFrom classes text hash calls).phantoms.filter (fun p => !p.resolved) =
      t.phantoms.filter (fun p => !p.resolved && unresolvedBy calls p) ++
        ((t.detections classes text hash calls).filter
          (fun d => unresolvedBy d.2 d.1)).map Prod.fst := by
  induction calls generalizing t with
  | nil =>
      show t.phantoms.filter _ = t.phantoms.filter _ ++ []
      rw [List.append_nil]
      apply List.filter_congr
      intro p _
      rw [unresolvedBy, List.all_nil, Bool.and_true]
  | cons call rest ih =>
      have hhere := hids
      rw [detections, List.map_append, List.map_map, ← List.append_assoc] at hhere
      have hstep : ((t.step classes text hash call).phantoms.map PhantomMemory.id ++
          ((t.step classes text hash call).detections classes text hash rest).map
            (fun d => d.1.id)).Nodup := by
        rw [phantoms_step, List.map_append, map_id_touch]
        exact hhere
      have hnew : (t.detectedBy classes text hash call).filter
            (fun p => !p.resolved && unresolvedBy rest p) =
          (((t.detectedBy classes text hash call).map (fun gap => (gap, rest))).filter
            (fun d => unresolvedBy d.2 d.1)).map Prod.fst := by
        rw [List.filter_map, List.map_map]
        show _ = ((t.detectedBy classes text hash call).filter (unresolvedBy rest)).map id
        rw [List.map_id]
        apply List.filter_congr
        intro p hp
        rw [active_of_mem_detectedBy hp]
        rfl
      show ((t.step classes text hash call).runFrom classes text hash rest).phantoms.filter _ = _
      rw [ih _ hstep, phantoms_step, List.filter_append,
        filter_touch call _ (List.nodup_append.mp hids).1, hnew, detections, List.filter_append,
        List.map_append, List.append_assoc]
      rfl

theorem mem_knownEntities_step (t : PhantomTracker) (call : PhantomCall) (entity : String) :
    entity ∈ (t.step classes text hash call).knownEntities <->
      call = PhantomCall.register entity ∨
        (entity ∈ t.knownEntities ∧ call ≠ PhantomCall.unregister entity) := by
  cases call with
  | register e =>
      show entity ∈ (t.registerEntity e).knownEntities <-> _
      unfold registerEntity
      split
      · rename_i hknown
        constructor
        · intro h
          exact Or.inr ⟨h, fun heq => by cases heq⟩
        · rintro (heq | ⟨h, _⟩)
          · rw [← PhantomCall.register.inj heq]
            exact hknown
          · exact h
      · rw [List.mem_append, List.mem_singleton, PhantomCall.register.injEq]
        constructor
        · rintro (h | heq)
          · exact Or.inr ⟨h, fun heq => by cases heq⟩
          · exact Or.inl heq.symm
        · rintro (heq | ⟨h, _⟩)
          · exact Or.inr heq.symm
          · exact Or.inl h
  | unregister e =>
      show entity ∈ t.knownEntities.filter (fun e' => decide (e' ≠ e)) <-> _
      rw [List.mem_filter, decide_eq_true_iff, Ne.eq_def, Ne.eq_def,
        PhantomCall.unregister.injEq, eq_comm]
      constructor
      · exact Or.inr
      · rintro (heq | h)
        · cases heq
        · exact h
  | detect content knownEntities turnId now newId =>
      exact ⟨fun h => Or.inr ⟨h, fun heq => by cases heq⟩,
        fun h => (h.resolve_left (fun heq => by cases heq)).1⟩
  | detectExplicit mentionedEntities turnId now newId =>
      exact ⟨fun h => Or.inr ⟨h, fun heq => by cases heq⟩,
        fun h => (h.resolve_left (fun heq => by cases heq)).1⟩
  | resolve id =>
      exact ⟨fun h => Or.inr ⟨h, fun heq => by cases heq⟩,
        fun h => (h.resolve_left (fun heq => by cases heq)).1⟩

theorem mem_knownEntities_runFrom (t : PhantomTracker) (calls : List PhantomCall)
    (entity : String) :
    entity ∈ (t.runFrom classes text hash calls).knownEntities <->
      (exists before after, calls = before ++ PhantomCall.register entity :: after ∧
        PhantomCall.unregister entity ∉ after) ∨
        (entity ∈ t.knownEntities ∧ PhantomCall.unregister entity ∉ calls) := by
  induction calls generalizing t with
  | nil =>
      constructor
      · exact fun h => Or.inr ⟨h, List.not_mem_nil⟩
      · rintro (⟨before, after, heq, _⟩ | h)
        · exact absurd heq.symm (List.append_ne_nil_of_right_ne_nil _ (List.cons_ne_nil _ _))
        · exact h.1
  | cons call rest ih =>
      show entity ∈ ((t.step classes text hash call).runFrom classes text hash rest).knownEntities
        <-> _
      rw [ih, mem_knownEntities_step]
      constructor
      · rintro (⟨before, after, rfl, hafter⟩ | ⟨rfl | ⟨hknown, hcall⟩, hrest⟩)
        · exact Or.inl ⟨call :: before, after, rfl, hafter⟩
        · exact Or.inl ⟨[], rest, rfl, hrest⟩
        · refine Or.inr ⟨hknown, ?_⟩
          rw [List.mem_cons, not_or]
          exact ⟨hcall.symm, hrest⟩
      · rintro (⟨before, after, heq, hafter⟩ | ⟨hknown, hcalls⟩)
        · cases before with
          | nil =>
              rw [List.nil_append, List.cons.injEq] at heq
              exact Or.inr ⟨Or.inl heq.1, heq.2 ▸ hafter⟩
          | cons first before =>
              rw [List.cons_append, List.cons.injEq] at heq
              exact Or.inl ⟨before, after, heq.2, hafter⟩
        · rw [List.mem_cons, not_or] at hcalls
          exact Or.inr ⟨Or.inr ⟨hknown, Ne.symm hcalls.1⟩, hcalls.2⟩

variable (classes text hash) in
/-- The active phantoms are the reported ones that no later call resolves, the most urgent first
and equals in the order of the reports.  An entity is looked for from the time it is registered
until it is taken out. -/
theorem phantoms_stay_until_resolved (config : PhantomConfig) (calls : List PhantomCall)
    (hids : (((new config).detections classes text hash calls).map (fun d => d.1.id)).Nodup) :
    let tracker := (new config).runFrom classes text hash calls
    let unresolved := ((new config).detections classes text hash calls).filter (fun d =>
      unresolvedBy d.2 d.1)
    tracker.getActivePhantoms.Perm (unresolved.map Prod.fst) ∧
      tracker.getActivePhantoms.Pairwise (fun a b => b.priority.rank <= a.priority.rank) ∧
      (forall priority,
        tracker.getActivePhantoms.filter (fun p => decide (p.priority = priority)) =
          (unresolved.map Prod.fst).filter (fun p => decide (p.priority = priority))) ∧
      forall entity, entity ∈ tracker.knownEntities <->
        exists before after, calls = before ++ PhantomCall.register entity :: after ∧
          PhantomCall.unregister entity ∉ after := by
  have hopen : ((new config).runFrom classes text hash calls).phantoms.filter
        (fun p => !p.resolved) =
      (((new config).detections classes text hash calls).filter (fun d =>
        unresolvedBy d.2 d.1)).map Prod.fst := by
    rw [filter_active_runFrom (new config) calls hids]
    rfl
  dsimp only
  rw [← hopen]
  have htotal : Std.Total (fun a b : PhantomMemory => b.priority.rank <= a.priority.rank) :=
    ⟨fun a b => Nat.le_total b.priority.rank a.priority.rank⟩
  have htrans : IsTrans PhantomMemory (fun a b => b.priority.rank <= a.priority.rank) :=
    ⟨fun _ _ _ hab hbc => Nat.le_trans hbc hab⟩
  refine ⟨List.perm_insertionSort _ _, List.pairwise_insertionSort _ _, ?_, ?_⟩
  · intro priority
    have hequal : (((new config).runFrom classes text hash calls).phantoms.filter
          (fun p => !p.resolved)).filter (fun p => decide (p.priority = priority)) =
        ((((new config).runFrom classes text hash calls).phantoms.filter
          (fun p => !p.resolved)).filter (fun p => decide (p.priority = priority))).insertionSort
            (fun a b => b.priority.rank <= a.priority.rank) := by
      refine (List.Pairwise.insertionSort_eq ?_).symm
      refine List.pairwise_of_forall_mem_list ?_
      intro a ha b hb
      rw [of_decide_eq_true (List.mem_filter.mp ha).2, of_decide_eq_true (List.mem_filter.mp hb).2]
    rw [hequal]
    exact filter_insertionSort _ _
  · intro entity
    rw [mem_knownEntities_runFrom]
    exact or_iff_left (fun h => List.not_mem_nil h.1)

/-- Of two phantoms one is resolved. -/
def redisAndKafka : List PhantomCall :=
  [PhantomCall.detectExplicit ["Redis", "Kafka"] 1 0 (fun n => ⟨BitVec.ofNat 128 n⟩),
    PhantomCall.resolve ⟨0⟩, PhantomCall.register "Kafka"]

theorem phantoms_stay_until_resolved_kafka :
    ((new PhantomConfig.default).runFrom ⟨Char.isUpper, Char.isAlphanum⟩ asciiOps
        HashOrder.insertion redisAndKafka).getActivePhantoms.Perm
      [phantomOf 1 0 ⟨1⟩ "Kafka" PhantomPriority.medium] :=
  (phantoms_stay_until_resolved ⟨Char.isUpper, Char.isAlphanum⟩ asciiOps HashOrder.insertion
    PhantomConfig.default redisAndKafka (by decide)).1

end Histories

end PhantomTracker

end Cognitive
end MenteDb
