import MenteDb.Consolidation.Facts

/-!
# Compressing contents

A content is compressed to the first sentence of each paragraph and the sentences with a key
word, without filler phrases.  A filler is looked for in the text in lowercase and cut out of
the text itself, at the bytes where it was found; the rest of the sentences of a paragraph is
taken even where there is no first one.  Both can be a panic, here the absence of a result.
-/

namespace MenteDb
namespace Consolidation

open Foundation
open Utf8
open Cognitive

variable {F : Type}

structure CompressedMemory (F : Type) where
  originalId : MemoryId
  compressedContent : String
  compressionRatio : F
  keyFacts : List String

def keyWords : List String :=
  ["decided", "uses", "prefers", "switched", "chose", "selected", "important", "critical",
    "must", "should", "always", "never"]

def fillerWords : List String :=
  ["actually", "basically", "honestly", "really", "very", "quite", "just", "simply", "perhaps",
    "maybe", "somewhat", "rather", "kind of", "sort of", "you know", "i think", "i mean"]

/-- The phrase that is taken for the filler, if the filler is found. -/
def fillerIn (text : TextOps F) (filler result : String) : Option (Option (List Char)) :=
  match findText (text.toLowercase result) filler with
  | none => some none
  | some pos => (slice result.toList pos (pos + size filler.toList)).map some

/-- The phrase is removed where it first stands. -/
def withoutPhrase (result : String) : Option (List Char) -> String
  | none => result
  | some actual => String.ofList (Strings.removeFirst actual result.toList)

def removeFillers (text : TextOps F) : List String -> String -> Option String
  | [], result => some result
  | filler :: rest, result => do
      let phrase ← fillerIn text filler result
      removeFillers text rest (withoutPhrase result phrase)

def removeFiller (text : TextOps F) (s : String) : Option String :=
  (removeFillers text fillerWords s).map (fun result =>
    " ".intercalate (text.splitWhitespace result))

def addSentence (text : TextOps F) (keySentences : List String) (sentence : String) :
    Option (List String) :=
  (removeFiller text sentence).map (fun cleaned =>
    if cleaned.isEmpty || decide (cleaned ∈ keySentences) then keySentences
    else keySentences ++ [cleaned])

def hasKeyWord (text : TextOps F) (sentence : String) : Bool :=
  keyWords.any (fun word => (findText (text.toLowercase sentence) word).isSome)

/-- Without a sentence, the slice from the second one on is out of range. -/
def addParagraph (text : TextOps F) (keySentences : List String) (paragraph : String) :
    Option (List String) :=
  match sentencesOf text paragraph with
  | [] => none
  | first :: rest => do
      let withFirst ← addSentence text keySentences first
      (rest.filter (hasKeyWord text)).foldlM (addSentence text) withFirst

def paragraphsOf (content : String) : List String :=
  (Strings.split ['\n', '\n'] content.toList).map String.ofList

def compress [Scalar F] (text : TextOps F) (memory : MemoryNode F) :
    Option (CompressedMemory F) :=
  ((paragraphsOf memory.content).foldlM (addParagraph text) []).map (fun keySentences =>
    let compressedContent := ". ".intercalate keySentences
    { originalId := memory.id
      compressedContent := compressedContent
      compressionRatio := (size compressedContent.toList : F) /
        ((max (size memory.content.toList) 1 : Nat) : F)
      keyFacts := keySentences })

/-!
## What compressing should do
-/

/-- The sentences that are cleaned of fillers. -/
def keySentencesOf (text : TextOps F) (paragraph : String) : List String :=
  match sentencesOf text paragraph with
  | [] => []
  | first :: rest => first :: rest.filter (hasKeyWord text)

/-- Each phrase that is removed is the filler up to case, and only one occurrence of it goes. -/
def OnlyFillers (text : TextOps F) : List String -> String -> Prop
  | [], _ => True
  | filler :: rest, result => exists phrase, fillerIn text filler result = some phrase ∧
      (forall actual, phrase = some actual ->
        text.toLowercase (String.ofList actual) = filler ∧
        exists u v, result.toList = u ++ (actual ++ v) ∧
          (withoutPhrase result phrase).toList = u ++ v) ∧
      OnlyFillers text rest (withoutPhrase result phrase)

/-- Compressing returns, and removes nothing but fillers. -/
structure CompressesSafely [Scalar F] (text : TextOps F) (memory : MemoryNode F) : Prop where
  returns : (compress text memory).isSome = true
  removes : forall paragraph sentence, paragraph ∈ paragraphsOf memory.content ->
    sentence ∈ keySentencesOf text paragraph -> OnlyFillers text fillerWords sentence

/-- Wherever a filler is found in lowercase, the text itself has it, up to case, at the same
bytes; and so on in what is left without it. -/
inductive FillersInPlace (text : TextOps F) : List String -> String -> Prop where
  | done (s : String) : FillersInPlace text [] s
  | absent {filler : String} {rest : List String} {s : String} :
      findText (text.toLowercase s) filler = none -> FillersInPlace text rest s ->
      FillersInPlace text (filler :: rest) s
  | found {filler : String} {rest : List String} {s : String} (u actual v : List Char) :
      findText (text.toLowercase s) filler = some (size u) -> s.toList = u ++ (actual ++ v) ->
      size actual = size filler.toList -> text.toLowercase (String.ofList actual) = filler ->
      FillersInPlace text rest (String.ofList (Strings.removeFirst actual s.toList)) ->
      FillersInPlace text (filler :: rest) s

/-- Every paragraph has more than white space and full stops, and in the sentences that are
cleaned the fillers are found in place. -/
structure Compressible (text : TextOps F) (content : String) : Prop where
  speaks : forall paragraph, paragraph ∈ paragraphsOf content ->
    exists c, c ∈ paragraph.toList ∧ c ≠ '.' ∧ isWhitespace c = false
  inPlace : forall paragraph sentence, paragraph ∈ paragraphsOf content ->
    sentence ∈ keySentencesOf text paragraph -> FillersInPlace text fillerWords sentence

/-!
## Removing fillers
-/

theorem fillerIn_of_found {text : TextOps F} {filler s : String} {u actual v : List Char}
    (hfound : findText (text.toLowercase s) filler = some (size u))
    (hs : s.toList = u ++ (actual ++ v)) (hsize : size actual = size filler.toList) :
    fillerIn text filler s = some (some actual) := by
  unfold fillerIn
  rw [hfound]
  dsimp only
  rw [slice_eq_some.mpr ⟨u, v, hs, rfl, by rw [hsize]⟩]
  rfl

theorem removeFillers_isSome {text : TextOps F} {fillers : List String} {s : String}
    (h : OnlyFillers text fillers s) : (removeFillers text fillers s).isSome = true := by
  induction fillers generalizing s with
  | nil => rfl
  | cons filler rest ih =>
      rcases h with ⟨phrase, hphrase, _, hrest⟩
      unfold removeFillers
      rw [hphrase]
      exact ih hrest

/-- The phrases are fillers exactly when the fillers are found where the text has them. -/
theorem onlyFillers_iff (text : TextOps F) (fillers : List String) (s : String) :
    OnlyFillers text fillers s <-> FillersInPlace text fillers s := by
  induction fillers generalizing s with
  | nil => exact ⟨fun _ => FillersInPlace.done s, fun _ => trivial⟩
  | cons filler rest ih =>
      constructor
      · intro h
        rcases h with ⟨phrase, hphrase, hactual, hrest⟩
        rw [ih] at hrest
        cases hfound : findText (text.toLowercase s) filler with
        | none =>
            unfold fillerIn at hphrase
            rw [hfound] at hphrase
            cases hphrase
            exact FillersInPlace.absent hfound hrest
        | some pos =>
            unfold fillerIn at hphrase
            rw [hfound] at hphrase
            rcases Option.map_eq_some_iff.mp hphrase with ⟨actual, hslice, heq⟩
            rcases slice_eq_some.mp hslice with ⟨u, v, hs, hpos, hend⟩
            rw [← heq] at hrest hactual
            rw [← hpos] at hfound
            exact FillersInPlace.found u actual v hfound hs (by omega) (hactual actual rfl).1 hrest
      · intro h
        cases h with
        | absent hfound hrest =>
            refine ⟨none, ?_, ?_, (ih s).mpr hrest⟩
            · unfold fillerIn
              rw [hfound]
            · intro actual hactual
              cases hactual
        | found u actual v hfound hs hsize hlower hrest =>
            refine ⟨some actual, fillerIn_of_found hfound hs hsize, ?_, (ih _).mpr hrest⟩
            intro phrase hphrase
            cases hphrase
            rcases Strings.removeFirst_append u actual v with ⟨u', v', hparts, hremoved⟩
            refine ⟨hlower, u', v', by rw [hs, hparts], ?_⟩
            unfold withoutPhrase
            rw [String.toList_ofList, hs, hremoved]

/-- Letters that keep their sizes keep the fillers in place. -/
theorem LowersInPlace.fillersInPlace {text : TextOps F} (fillers : List String) {s : String}
    (h : LowersInPlace text s) : FillersInPlace text fillers s := by
  induction fillers generalizing s with
  | nil => exact FillersInPlace.done s
  | cons filler rest ih =>
      cases hfound : findText (text.toLowercase s) filler with
      | none => exact FillersInPlace.absent hfound (ih h)
      | some pos =>
          rcases h.found hfound with ⟨u, actual, v, hs, hpos, hsize, hlower⟩
          rw [← hpos] at hfound
          refine FillersInPlace.found u actual v hfound hs hsize hlower (ih ?_)
          rcases Strings.removeFirst_append u actual v with ⟨u', v', hparts, hremoved⟩
          rcases h with ⟨f, hmap, hsizes⟩
          have hsubset : (String.ofList (Strings.removeFirst actual s.toList)).toList ⊆
              s.toList := by
            rw [String.toList_ofList, hs, hremoved, hparts]
            exact (List.Sublist.append_left (List.sublist_append_right actual v') u').subset
          exact ⟨f, fun m hm => hmap m (fun c hc => hsubset (hm hc)),
            fun c hc => hsizes c (hsubset hc)⟩

/-!
## The whole compression
-/

theorem addParagraph_isSome_iff (text : TextOps F) (keySentences : List String)
    (paragraph : String) :
    (addParagraph text keySentences paragraph).isSome = true <->
      sentencesOf text paragraph ≠ [] ∧ forall sentence, sentence ∈ keySentencesOf text paragraph ->
        (removeFillers text fillerWords sentence).isSome = true := by
  have hadd : forall (acc : List String) (sentence : String),
      (addSentence text acc sentence).isSome = true <->
        (removeFillers text fillerWords sentence).isSome = true := by
    intro acc sentence
    unfold addSentence removeFiller
    rw [Option.isSome_map, Option.isSome_map]
  unfold addParagraph keySentencesOf
  cases sentencesOf text paragraph with
  | nil => simp
  | cons first rest =>
      have hloop := foldlM_isSome_iff hadd (first :: rest.filter (hasKeyWord text)) keySentences
      rw [List.foldlM_cons] at hloop
      dsimp only
      rw [hloop]
      exact ⟨fun h => ⟨List.cons_ne_nil first rest, h⟩, fun h => h.2⟩

variable [Scalar F]

theorem compress_isSome_iff (text : TextOps F) (memory : MemoryNode F) :
    (compress text memory).isSome = true <->
      forall paragraph, paragraph ∈ paragraphsOf memory.content ->
        sentencesOf text paragraph ≠ [] ∧
          forall sentence, sentence ∈ keySentencesOf text paragraph ->
            (removeFillers text fillerWords sentence).isSome = true := by
  unfold compress
  rw [Option.isSome_map, foldlM_isSome_iff (addParagraph_isSome_iff text)]

/-- Compressing returns and removes only fillers exactly when every paragraph has a sentence
and the fillers are found where the sentences have them. -/
theorem compress_safe_iff (text : TextOps F) (memory : MemoryNode F) :
    CompressesSafely text.atWhitespace memory <->
      Compressible text.atWhitespace memory.content := by
  constructor
  · intro h
    constructor
    · intro paragraph hparagraph
      exact sentencesOf_ne_nil_iff.mp ((compress_isSome_iff _ memory).mp h.returns paragraph
        hparagraph).1
    · intro paragraph sentence hparagraph hsentence
      exact (onlyFillers_iff _ _ _).mp (h.removes paragraph sentence hparagraph hsentence)
  · intro h
    have hremoves : forall paragraph sentence, paragraph ∈ paragraphsOf memory.content ->
        sentence ∈ keySentencesOf text.atWhitespace paragraph ->
          OnlyFillers text.atWhitespace fillerWords sentence :=
      fun paragraph sentence hparagraph hsentence =>
        (onlyFillers_iff _ _ _).mpr (h.inPlace paragraph sentence hparagraph hsentence)
    refine ⟨?_, hremoves⟩
    rw [compress_isSome_iff]
    intro paragraph hparagraph
    exact ⟨sentencesOf_ne_nil_iff.mpr (h.speaks paragraph hparagraph),
      fun sentence hsentence => removeFillers_isSome (hremoves paragraph sentence hparagraph
        hsentence)⟩

section Examples

/-- There is no second sentence to go on with. -/
theorem empty_content_is_not_compressed :
    compress dottedText.atWhitespace (dottedMemory "") = none ∧
      ¬ CompressesSafely dottedText.atWhitespace (dottedMemory "") := by
  have hnone : compress dottedText.atWhitespace (dottedMemory "") = none := by decide +kernel
  refine ⟨hnone, ?_⟩
  intro h
  have hreturns := h.returns
  rw [hnone] at hreturns
  cases hreturns

example : (compress dottedText.atWhitespace (dottedMemory "İ very good")).map
    CompressedMemory.compressedContent = some "İ vgood" := by decide +kernel

end Examples

end Consolidation
end MenteDb
