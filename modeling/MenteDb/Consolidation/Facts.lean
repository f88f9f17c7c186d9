import MenteDb.Cognitive.Text
import MenteDb.Foundation.Outcome
import MenteDb.Foundation.Utf8

/-!
# Facts in sentences

A sentence with one of a few phrases is a fact: what stands before the phrase is its subject,
what stands after it is its object.  The phrase is looked for in the sentence in lowercase,
and the sentence itself is cut at the bytes where it was found.  A cut inside a character is
a panic, here the absence of a result.
-/

namespace MenteDb
namespace Consolidation

open Foundation
open Utf8
open Cognitive

variable {F : Type}

structure ExtractedFact (F : Type) where
  subject : String
  predicate : String
  object : String
  confidence : F
  sourceMemory : MemoryId

/-- Phrases, and the predicates they stand for. -/
def patterns : List (String × String) :=
  [(" is ", "is"), (" uses ", "uses"), (" prefers ", "prefers"),
    (" switched to ", "switched_to"), (" decided on ", "decided_on")]

/-- The byte at which a text first has the pattern. -/
def findText (haystack needle : String) : Option Nat :=
  (Strings.splitOnce needle.toList haystack.toList).map (fun parts => size parts.1)

def sentencesOf (text : TextOps F) (content : String) : List String :=
  ((content.toList.splitOn '.').map (fun piece => text.trim (String.ofList piece))).filter
    (fun sentence => !sentence.isEmpty)

/-- The fact that one pattern makes of a sentence, if any. -/
def factOf (text : TextOps F) (memory : MemoryNode F) (sentence : String)
    (pattern : String × String) : Option (List (ExtractedFact F)) :=
  match findText (text.toLowercase sentence) pattern.1 with
  | none => some []
  | some pos => do
      let left ← takeBytes sentence.toList pos
      let right ← dropBytes sentence.toList (pos + size pattern.1.toList)
      let subject := text.trim (String.ofList left)
      let object := text.trim (String.ofList right)
      if subject.isEmpty || object.isEmpty then some []
      else some [{
        subject := subject
        predicate := pattern.2
        object := object
        confidence := memory.confidence
        sourceMemory := memory.id }]

def factsOf (text : TextOps F) (memory : MemoryNode F) (sentence : String) :
    Option (List (ExtractedFact F)) :=
  (patterns.mapM (factOf text memory sentence)).map List.flatten

def extractFacts (text : TextOps F) (memory : MemoryNode F) : Option (List (ExtractedFact F)) :=
  ((sentencesOf text memory.content).mapM (factsOf text memory)).map List.flatten

/-!
## What a fact should be
-/

/-- The fact has the trimmed parts of the sentence before and after an occurrence, up to case,
of the pattern. -/
def CutFrom (text : TextOps F) (pattern sentence : String) (fact : ExtractedFact F) : Prop :=
  exists u m v : List Char, sentence.toList = u ++ (m ++ v) ∧
    text.toLowercase (String.ofList m) = pattern ∧
    fact.subject = text.trim (String.ofList u) ∧ fact.object = text.trim (String.ofList v)

/-- The extraction returns, and cuts the facts of every sentence from it. -/
structure FaithfulFacts (text : TextOps F) (memory : MemoryNode F) : Prop where
  returns : (extractFacts text memory).isSome = true
  covers : forall sentence pattern facts, sentence ∈ sentencesOf text memory.content ->
    pattern ∈ patterns -> factOf text memory sentence pattern = some facts ->
      forall fact, fact ∈ facts -> CutFrom text pattern.1 sentence fact

/-- A position that was found in the lowercase sentence is one of the sentence itself: so many
bytes from it on are a piece of the sentence, and unless nothing is left on a side, this piece
and the white space around it are the pattern, up to case, and white space. -/
def InPlace (text : TextOps F) (pattern sentence : String) (pos : Nat) : Prop :=
  exists left mid right : List Char, sentence.toList = left ++ (mid ++ right) ∧
    size left = pos ∧ size mid = size pattern.toList ∧
    (Strings.trimMatches isWhitespace left = [] ∨ Strings.trimMatches isWhitespace right = [] ∨
      exists a m b, left.rtakeWhile isWhitespace ++ (mid ++ right.takeWhile isWhitespace) =
          a ++ (m ++ b) ∧
        (forall c, c ∈ a -> isWhitespace c = true) ∧
        (forall c, c ∈ b -> isWhitespace c = true) ∧
        text.toLowercase (String.ofList m) = pattern)

def FoundInPlace (text : TextOps F) (content : String) : Prop :=
  forall sentence pattern pos, sentence ∈ sentencesOf text content -> pattern ∈ patterns ->
    findText (text.toLowercase sentence) pattern.1 = some pos ->
      InPlace text pattern.1 sentence pos

/-!
## Cutting one sentence
-/

theorem trimmed_of_mem_sentencesOf {text : TextOps F} {content sentence : String}
    (h : sentence ∈ sentencesOf text.atWhitespace content) :
    sentence.toList.dropWhile isWhitespace = sentence.toList ∧
      sentence.toList.rdropWhile isWhitespace = sentence.toList := by
  rcases List.mem_map.mp (List.mem_filter.mp h).1 with ⟨piece, _, hpiece⟩
  have htext : sentence.toList =
      (((String.ofList piece).toList.dropWhile isWhitespace).rdropWhile isWhitespace) := by
    rw [← hpiece]
    exact String.toList_ofList
  rw [htext]
  exact ⟨Strings.dropWhile_of_initial (List.rdropWhile_prefix isWhitespace _),
    List.rdropWhile_idempotent isWhitespace _⟩

theorem trim_atWhitespace (text : TextOps F) (w : List Char) :
    text.atWhitespace.trim (String.ofList w) =
      String.ofList (Strings.trimMatches isWhitespace w) := by
  show String.ofList (Strings.trimMatches isWhitespace (String.ofList w).toList) = _
  rw [String.toList_ofList]

theorem isEmpty_ofList {w : List Char} : (String.ofList w).isEmpty = true <-> w = [] := by
  rw [String.isEmpty_iff, ← String.toList_inj, String.toList_ofList]
  rfl

/-- A text has sentences when something in it is neither white space nor a full stop. -/
theorem sentencesOf_ne_nil_iff {text : TextOps F} {content : String} :
    sentencesOf text.atWhitespace content ≠ [] <->
      exists c, c ∈ content.toList ∧ c ≠ '.' ∧ isWhitespace c = false := by
  have htrimmed : forall piece : List Char,
      (text.atWhitespace.trim (String.ofList piece)).isEmpty = false <->
        exists c, c ∈ piece ∧ isWhitespace c = false := by
    intro piece
    rw [trim_atWhitespace, ← Bool.not_eq_true, isEmpty_ofList, Strings.trimMatches_eq_nil_iff]
    simp
  have hpieces : forall c : Char, (exists piece, piece ∈ content.toList.splitOn '.' ∧ c ∈ piece) <->
      c ∈ content.toList ∧ c ≠ '.' := by
    intro c
    rw [List.splitOn_eq_splitOnP, Strings.exists_mem_splitOnP_iff, beq_eq_false_iff_ne]
  constructor
  · intro h
    rcases List.exists_mem_of_ne_nil _ h with ⟨sentence, hsentence⟩
    rcases List.mem_filter.mp hsentence with ⟨hmap, hempty⟩
    rcases List.mem_map.mp hmap with ⟨piece, hpiece, heq⟩
    rw [← heq, Bool.not_eq_true'] at hempty
    rcases (htrimmed piece).mp hempty with ⟨c, hc, hsolid⟩
    have hin := (hpieces c).mp ⟨piece, hpiece, hc⟩
    exact ⟨c, hin.1, hin.2, hsolid⟩
  · intro h
    rcases h with ⟨c, hc, hne, hsolid⟩
    rcases (hpieces c).mpr ⟨hc, hne⟩ with ⟨piece, hpiece, hin⟩
    apply List.ne_nil_of_mem
    refine List.mem_filter.mpr ⟨List.mem_map.mpr ⟨piece, hpiece, rfl⟩, ?_⟩
    rw [(htrimmed piece).mpr ⟨c, hin, hsolid⟩]
    rfl

/-- Cutting around a piece of the sentence. -/
theorem factOf_around {text : TextOps F} (memory : MemoryNode F) {sentence : String}
    {pattern : String × String} {left mid right : List Char} {pos : Nat}
    (hfound : findText (text.atWhitespace.toLowercase sentence) pattern.1 = some pos)
    (hs : sentence.toList = left ++ (mid ++ right)) (hpos : size left = pos)
    (hsize : size mid = size pattern.1.toList) :
    factOf text.atWhitespace memory sentence pattern =
      if Strings.trimMatches isWhitespace left = [] ∨ Strings.trimMatches isWhitespace right = []
      then some []
      else some [{
        subject := String.ofList (Strings.trimMatches isWhitespace left)
        predicate := pattern.2
        object := String.ofList (Strings.trimMatches isWhitespace right)
        confidence := memory.confidence
        sourceMemory := memory.id }] := by
  rcases around_slice_iff.mpr ⟨mid, hs, hpos, hsize⟩ with ⟨hleft, hright⟩
  unfold factOf
  rw [hfound]
  simp only [hleft, hright, Option.bind_eq_bind, Option.bind_some, trim_atWhitespace,
    Bool.or_eq_true, isEmpty_ofList]

/-- A pattern that is found where the sentence has it cuts the sentence there. -/
theorem factOf_faithful_iff {text : TextOps F} (memory : MemoryNode F)
    {sentence : String} {pattern : String × String} {content : String}
    (hsentence : sentence ∈ sentencesOf text.atWhitespace content) :
    ((factOf text.atWhitespace memory sentence pattern).isSome = true ∧
        forall facts, factOf text.atWhitespace memory sentence pattern = some facts ->
          forall fact, fact ∈ facts -> CutFrom text.atWhitespace pattern.1 sentence fact) <->
      forall pos, findText (text.atWhitespace.toLowercase sentence) pattern.1 = some pos ->
        InPlace text.atWhitespace pattern.1 sentence pos := by
  rcases trimmed_of_mem_sentencesOf hsentence with ⟨hfront, hback⟩
  have hcut : forall {left mid right : List Char} (fact : ExtractedFact F),
      sentence.toList = left ++ (mid ++ right) ->
      fact.subject = String.ofList (Strings.trimMatches isWhitespace left) ->
      fact.object = String.ofList (Strings.trimMatches isWhitespace right) ->
      (CutFrom text.atWhitespace pattern.1 sentence fact <->
        exists a m b, left.rtakeWhile isWhitespace ++ (mid ++ right.takeWhile isWhitespace) =
            a ++ (m ++ b) ∧
          (forall c, c ∈ a -> isWhitespace c = true) ∧
          (forall c, c ∈ b -> isWhitespace c = true) ∧
          text.atWhitespace.toLowercase (String.ofList m) = pattern.1) := by
    intro left mid right fact hs hsubject hobject
    rw [← Strings.trimmed_parts_iff hfront hback hs]
    unfold CutFrom
    simp only [hsubject, hobject, trim_atWhitespace, String.ofList_inj]
  constructor
  · intro h pos hfound
    rcases Option.isSome_iff_exists.mp h.1 with ⟨facts, hfacts⟩
    have hslice : exists left right, takeBytes sentence.toList pos = some left ∧
        dropBytes sentence.toList (pos + size pattern.1.toList) = some right := by
      unfold factOf at hfacts
      rw [hfound] at hfacts
      rcases Option.bind_eq_some_iff.mp hfacts with ⟨left, hleft, hrest⟩
      rcases Option.bind_eq_some_iff.mp hrest with ⟨right, hright, _⟩
      exact ⟨left, right, hleft, hright⟩
    rcases hslice with ⟨left, right, hslice⟩
    rcases around_slice_iff.mp hslice with ⟨mid, hs, hpos, hsize⟩
    refine ⟨left, mid, right, hs, hpos, hsize, ?_⟩
    rw [← or_assoc]
    by_cases hempty : Strings.trimMatches isWhitespace left = [] ∨
        Strings.trimMatches isWhitespace right = []
    · exact Or.inl hempty
    · have hfact := factOf_around memory hfound hs hpos hsize
      rw [if_neg hempty] at hfact
      exact Or.inr ((hcut _ hs rfl rfl).mp (h.2 _ hfact _ List.mem_cons_self))
  · intro h
    cases hfound : findText (text.atWhitespace.toLowercase sentence) pattern.1 with
    | none =>
        have hnone : factOf text.atWhitespace memory sentence pattern = some [] := by
          unfold factOf
          rw [hfound]
        rw [hnone]
        refine ⟨rfl, ?_⟩
        intro facts hfacts fact hfact
        cases hfacts
        cases hfact
    | some pos =>
        rcases h pos hfound with ⟨left, mid, right, hs, hpos, hsize, hplace⟩
        rw [factOf_around memory hfound hs hpos hsize]
        rw [← or_assoc] at hplace
        by_cases hempty : Strings.trimMatches isWhitespace left = [] ∨
            Strings.trimMatches isWhitespace right = []
        · rw [if_pos hempty]
          refine ⟨rfl, ?_⟩
          intro facts hfacts fact hfact
          cases hfacts
          cases hfact
        · rw [if_neg hempty]
          refine ⟨rfl, ?_⟩
          intro facts hfacts fact hfact
          cases hfacts
          rw [List.mem_singleton.mp hfact]
          exact (hcut _ hs rfl rfl).mpr (hplace.resolve_left hempty)

/-!
## The whole extraction
-/

theorem factsOf_isSome_iff (text : TextOps F) (memory : MemoryNode F) (sentence : String) :
    (factsOf text memory sentence).isSome = true <->
      forall pattern, pattern ∈ patterns ->
        (factOf text memory sentence pattern).isSome = true := by
  unfold factsOf
  rw [Option.isSome_map, mapM_isSome_iff]

theorem extractFacts_isSome_iff (text : TextOps F) (memory : MemoryNode F) :
    (extractFacts text memory).isSome = true <->
      forall sentence, sentence ∈ sentencesOf text memory.content ->
        forall pattern, pattern ∈ patterns ->
          (factOf text memory sentence pattern).isSome = true := by
  unfold extractFacts
  rw [Option.isSome_map, mapM_isSome_iff]
  simp only [factsOf_isSome_iff]

/-- The extraction returns facts that cover their sentences exactly when no pattern is found
at a position that is not one of the sentence itself. -/
theorem extract_facts_faithful_iff (text : TextOps F) (memory : MemoryNode F) :
    FaithfulFacts text.atWhitespace memory <-> FoundInPlace text.atWhitespace memory.content := by
  constructor
  · intro h sentence pattern pos hsentence hpattern hfound
    refine (factOf_faithful_iff memory hsentence).mp ⟨?_, ?_⟩ pos hfound
    · exact (extractFacts_isSome_iff _ memory).mp h.returns sentence hsentence pattern hpattern
    · exact fun facts => h.covers sentence pattern facts hsentence hpattern
  · intro h
    constructor
    · rw [extractFacts_isSome_iff]
      intro sentence hsentence pattern hpattern
      exact ((factOf_faithful_iff memory hsentence).mpr
        (fun pos => h sentence pattern pos hsentence hpattern)).1
    · intro sentence pattern facts hsentence hpattern hfacts
      exact ((factOf_faithful_iff memory hsentence).mpr
        (fun pos => h sentence pattern pos hsentence hpattern)).2 facts hfacts

/-!
## Letters that keep their sizes
-/

/-- In lowercase every letter of the text takes as many bytes, wherever it is put. -/
def LowersInPlace (text : TextOps F) (s : String) : Prop :=
  exists f : Char -> Char,
    (forall m, m ⊆ s.toList -> text.toLowercase (String.ofList m) = String.ofList (m.map f)) ∧
      forall c, c ∈ s.toList -> (f c).utf8Size = c.utf8Size

theorem size_map_of_sizes {f : Char -> Char} {s : List Char}
    (h : forall c, c ∈ s -> (f c).utf8Size = c.utf8Size) : size (s.map f) = size s := by
  unfold size
  rw [List.map_map]
  congr 1
  exact List.map_congr_left h

/-- What is found in such a text stands there, up to case. -/
theorem LowersInPlace.found {text : TextOps F} {s pattern : String} {pos : Nat}
    (h : LowersInPlace text s) (hfound : findText (text.toLowercase s) pattern = some pos) :
    exists left mid right, s.toList = left ++ (mid ++ right) ∧ size left = pos ∧
      size mid = size pattern.toList ∧ text.toLowercase (String.ofList mid) = pattern := by
  rcases h with ⟨f, hlower, hsizes⟩
  have hwhole := hlower s.toList (fun _ hc => hc)
  rw [String.ofList_toList] at hwhole
  rcases Option.map_eq_some_iff.mp hfound with ⟨⟨u, v⟩, hsplit, hpos⟩
  rw [hwhole, String.toList_ofList] at hsplit
  have hmap := Strings.splitOnce_eq_some hsplit
  rcases List.map_eq_append_iff.mp hmap with ⟨left, rest, hs, hleft, hrest⟩
  rcases List.map_eq_append_iff.mp hrest with ⟨mid, right, hrest', hmid, _⟩
  rw [hrest'] at hs
  have hpart : forall w, w <:+: s.toList -> size (w.map f) = size w :=
    fun w hw => size_map_of_sizes (fun c hc => hsizes c (hw.subset hc))
  have hmidIn : mid <:+: s.toList := ⟨left, right, by rw [hs, List.append_assoc]⟩
  refine ⟨left, mid, right, hs, ?_, ?_, ?_⟩
  · rw [← hpos, ← hleft, hpart left ⟨[], mid ++ right, hs.symm⟩]
  · rw [← hmid, hpart mid hmidIn]
  · rw [hlower mid hmidIn.subset, hmid, String.ofList_toList]

/-- Then every pattern is found in place. -/
theorem foundInPlace_of_lowersInPlace {text : TextOps F} {content : String}
    (h : forall sentence, sentence ∈ sentencesOf text.atWhitespace content ->
      LowersInPlace text.atWhitespace sentence) : FoundInPlace text.atWhitespace content := by
  intro sentence pattern pos hsentence _ hfound
  rcases (h sentence hsentence).found hfound with ⟨left, mid, right, hs, hpos, hsize, hlower⟩
  refine ⟨left, mid, right, hs, hpos, hsize, Or.inr (Or.inr ?_)⟩
  exact ⟨left.rtakeWhile isWhitespace, mid, right.takeWhile isWhitespace, rfl,
    fun c => List.mem_rtakeWhile_imp, fun c => List.mem_takeWhile_imp, hlower⟩

section Examples

/-- The capital letter I with a dot has two bytes, and three in lowercase. -/
def dottedText : TextOps Rat :=
  { splitWhitespace := fun s => [s]
    toLowercase := fun s => String.ofList (s.toList.flatMap (fun c =>
      if c = 'İ' then ['i', Char.ofNat 0x307] else [c.toLower]))
    trim := fun s => s
    fixed2 := fun _ => ""
    fixed3 := fun _ => "" }

def dottedMemory (content : String) : MemoryNode Rat :=
  MemoryNode.new ⟨1⟩ 1000 AgentId.nil MemoryType.semantic content []

/-- The pattern is found one byte late, and the sentence is cut inside of its last letter. -/
theorem dotted_letter_is_not_returned :
    extractFacts dottedText.atWhitespace (dottedMemory "İ is é") = none ∧
      ¬ FaithfulFacts dottedText.atWhitespace (dottedMemory "İ is é") := by
  have hnone : extractFacts dottedText.atWhitespace (dottedMemory "İ is é") = none := by
    decide +kernel
  refine ⟨hnone, ?_⟩
  intro h
  have hreturns := h.returns
  rw [hnone] at hreturns
  cases hreturns

example : (extractFacts dottedText.atWhitespace (dottedMemory "İ is good")).map
    (fun facts => facts.map (fun fact => (fact.subject, fact.object))) = some [("İ", "ood")] := by
  decide +kernel

end Examples

end Consolidation
end MenteDb
