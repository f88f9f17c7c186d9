import MenteDb.Facade.EnrichmentProgress
import MenteDb.Foundation.Outcome

/-!
# Cutting contents

Where excerpts are cut follows from the lengths of the contents alone.  The two functions that
cut them return exactly when every cut is between two characters.
-/

namespace MenteDb
namespace Facade

open Foundation
open Utf8
open Sqlite
open Cognitive

variable {F : Type}

/-!
## Contexts of entity names
-/

/-- What the memories with a name say, in their order. -/
def contentsNamed (text : TextOps F) (memories : List (MemoryNode F)) (n : String) :
    List String :=
  (memories.filter (fun mem => decide (firstEntityName text mem = some n))).map
    MemoryNode.content

/-- The contents that are cut for one name, and where, from the length of the context. -/
def contextCuts : Option Nat -> List String -> List (String × Nat)
  | _, [] => []
  | none, content :: rest =>
      let cut := min (byteLength content) 300
      (content, cut) :: contextCuts (some cut) rest
  | some length, content :: rest =>
      if length < 300 then
        let cut := min (byteLength content) (500 - (length + 3))
        (content, cut) :: contextCuts (some (length + 3 + cut)) rest
      else contextCuts (some length) rest

theorem upTo_eq_some {content part : String} {limit : Nat} (h : upTo content limit = some part) :
    byteLength part = min (byteLength content) limit := by
  rcases Option.map_eq_some_iff.mp h with ⟨w, hw, heq⟩
  unfold byteLength
  rw [← heq, String.toList_ofList]
  exact (takeBytes_eq_some.mp hw).1

theorem upTo_isSome_iff {content : String} {limit : Nat} :
    (upTo content limit).isSome = true <->
      IsBoundary content.toList (min (byteLength content) limit) := by
  unfold upTo
  rw [Option.isSome_map, takeBytes_isSome_iff]

theorem upTo_eq_none {content : String} {limit : Nat} (h : upTo content limit = none) :
    ¬ IsBoundary content.toList (min (byteLength content) limit) := by
  rw [← upTo_isSome_iff, h]
  exact Bool.false_ne_true

theorem byteLength_append (s s' : String) :
    byteLength (s ++ s') = byteLength s + byteLength s' := by
  unfold byteLength
  rw [String.toList_append, size_append]

theorem mentionContext_short {existing : String} (h : byteLength existing < 300)
    (content : String) :
    mentionContext (some existing) content =
      (upTo content (500 - (byteLength existing + 3))).map
        (fun part => existing ++ " | " ++ part) := by
  have hbar : byteLength (existing ++ " | ") = byteLength existing + 3 := by
    rw [byteLength_append]
    rfl
  unfold mentionContext
  dsimp only
  rw [if_pos h, hbar]

theorem mentionContext_full {existing : String} (h : ¬ byteLength existing < 300)
    (content : String) : mentionContext (some existing) content = some existing :=
  if_neg h

/-- The mentions of one name. -/
def contextOf : Option String -> List String -> Option (Option String)
  | existing, [] => some existing
  | existing, content :: rest =>
      (mentionContext existing content).bind (fun context => contextOf (some context) rest)

/-- For one name the lengths of the contents decide where they are cut. -/
theorem contextOf_isSome_iff (contents : List String) (existing : Option String) :
    (contextOf existing contents).isSome = true <->
      forall cut, cut ∈ contextCuts (existing.map byteLength) contents ->
        IsBoundary cut.1.toList cut.2 := by
  have hstep : forall (content : String) (limit : Nat) (rest : List (String × Nat))
      (f : String -> Option (Option String)),
      (forall part, upTo content limit = some part -> ((f part).isSome = true <->
        forall cut, cut ∈ rest -> IsBoundary cut.1.toList cut.2)) ->
      (((upTo content limit).bind f).isSome = true <->
        forall cut, cut ∈ (content, min (byteLength content) limit) :: rest ->
          IsBoundary cut.1.toList cut.2) := by
    intro content limit rest f hf
    rw [List.forall_mem_cons]
    cases hpart : upTo content limit with
    | none =>
        constructor
        · intro h
          cases h
        · intro h
          exact absurd h.1 (upTo_eq_none hpart)
    | some part =>
        have hcut := upTo_isSome_iff.mp (Option.isSome_iff_exists.mpr ⟨part, hpart⟩)
        rw [Option.bind_some, hf part hpart]
        constructor
        · intro h
          exact ⟨hcut, h⟩
        · intro h
          exact h.2
  induction contents generalizing existing with
  | nil =>
      constructor
      · intro _ cut hcut
        cases existing with
        | none => cases hcut
        | some existing => cases hcut
      · intro _
        rfl
  | cons content rest ih =>
      rw [contextOf]
      cases existing with
      | none =>
          apply hstep
          intro part hpart
          rw [← upTo_eq_some hpart]
          exact ih (some part)
      | some existing =>
          rw [Option.map_some, contextCuts]
          by_cases hshort : byteLength existing < 300
          · rw [if_pos hshort, mentionContext_short hshort, Option.bind_map]
            apply hstep
            intro part hpart
            have hlength : byteLength (existing ++ " | " ++ part) =
                byteLength existing + 3 +
                  min (byteLength content) (500 - (byteLength existing + 3)) := by
              rw [byteLength_append, byteLength_append, upTo_eq_some hpart]
              rfl
            rw [← hlength]
            exact ih (some (existing ++ " | " ++ part))
          · rw [if_neg hshort, mentionContext_full hshort]
            exact ih (some existing)

/-- The scan of all memories is one scan for each name. -/
theorem addContexts_isSome_iff (text : TextOps F) (memories : List (MemoryNode F))
    (contexts : Assoc String String) :
    (memories.foldlM (addContext text) contexts).isSome = true <->
      forall n, (contextOf (contexts.find? n) (contentsNamed text memories n)).isSome = true := by
  induction memories generalizing contexts with
  | nil => exact ⟨fun _ _ => rfl, fun _ => rfl⟩
  | cons mem rest ih =>
      have hother : forall n, firstEntityName text mem ≠ some n ->
          contentsNamed text (mem :: rest) n = contentsNamed text rest n := by
        intro n hn
        unfold contentsNamed
        rw [List.filter_cons_of_neg (by simpa using hn)]
      rw [List.foldlM_cons]
      cases hname : firstEntityName text mem with
      | none =>
          have hskip : addContext text contexts mem = some contexts := by
            unfold addContext
            rw [hname]
          rw [hskip]
          show Option.isSome (rest.foldlM (addContext text) contexts) = true <-> _
          rw [ih]
          apply forall_congr'
          intro n
          rw [hother n (by rw [hname]; exact (Option.some_ne_none n).symm)]
      | some name =>
          have hadd : addContext text contexts mem =
              (mentionContext (contexts.find? name) mem.content).map (contexts.insert name) := by
            unfold addContext
            rw [hname]
          have hhead : contentsNamed text (mem :: rest) name =
              mem.content :: contentsNamed text rest name := by
            unfold contentsNamed
            rw [List.filter_cons_of_pos (by simpa using hname)]
            rfl
          rw [hadd]
          cases hcontext : mentionContext (contexts.find? name) mem.content with
          | none =>
              constructor
              · intro h
                cases h
              · intro h
                have hnamed := h name
                rw [hhead, contextOf, hcontext] at hnamed
                cases hnamed
          | some context =>
              show Option.isSome (rest.foldlM (addContext text) (contexts.insert name context)) =
                true <-> _
              rw [ih]
              apply forall_congr'
              intro n
              rw [Assoc.find?_insert]
              by_cases hn : n = name
              · rw [if_pos hn, hn, hhead, contextOf, hcontext]
                rfl
              · have hne : firstEntityName text mem ≠ some n := by
                  rw [hname]
                  intro heq
                  exact hn (Option.some.inj heq).symm
                rw [if_neg hn, hother n hne]

theorem entityContexts_isSome_iff (text : TextOps F) (memories : List (MemoryNode F)) :
    (entityContexts text memories).isSome = true <->
      forall n cut, cut ∈ contextCuts none (contentsNamed text memories n) ->
        IsBoundary cut.1.toList cut.2 := by
  unfold entityContexts
  rw [addContexts_isSome_iff]
  apply forall_congr'
  intro n
  exact contextOf_isSome_iff _ none

/-!
## Previews of conversations
-/

/-- The previews that a run makes of its batches, one after the other. -/
def conversationPreviews [Scalar F] (services : EnrichmentServices F) (skipExtraction : Bool)
    (db : Database F) : Option (List String) :=
  ((db.processedBy services skipExtraction).toChunks 10).mapM conversationPreview

/-- Both functions return. -/
def TruncationCompletes [Scalar F] (o : HashOrder) (text : TextOps F)
    (services : EnrichmentServices F)
    (skipExtraction : Bool) (db : Database F) : Prop :=
  (entityNamesWithContext o text db.world.tables).isSome = true ∧
    (conversationPreviews services skipExtraction db).isSome = true

/-- Where the lengths of the contents put a cut, a character begins. -/
structure CutsBetweenCharacters [Scalar F] (text : TextOps F) (services : EnrichmentServices F)
    (skipExtraction : Bool) (db : Database F) : Prop where
  contexts : forall n cut,
    cut ∈ contextCuts none (contentsNamed text db.world.tables.allMemories n) ->
      IsBoundary cut.1.toList cut.2
  previews : forall batch, batch ∈ (db.processedBy services skipExtraction).toChunks 10 ->
    IsBoundary (conversationOf batch).toList (min (byteLength (conversationOf batch)) 500)

/-- Nothing but the positions of the cuts keeps the contents from being cut. -/
theorem truncation_completes_iff [Scalar F] (o : HashOrder) (text : TextOps F)
    (services : EnrichmentServices F) (skipExtraction : Bool) (db : Database F) :
    TruncationCompletes o text services skipExtraction db <->
      CutsBetweenCharacters text services skipExtraction db := by
  have hcontexts : (entityNamesWithContext o text db.world.tables).isSome = true <->
      forall n cut, cut ∈ contextCuts none (contentsNamed text db.world.tables.allMemories n) ->
        IsBoundary cut.1.toList cut.2 := by
    unfold entityNamesWithContext
    rw [Option.isSome_map, entityContexts_isSome_iff]
  have hpreviews : (conversationPreviews services skipExtraction db).isSome = true <->
      forall batch, batch ∈ (db.processedBy services skipExtraction).toChunks 10 ->
        IsBoundary (conversationOf batch).toList
          (min (byteLength (conversationOf batch)) 500) := by
    unfold conversationPreviews conversationPreview
    rw [mapM_isSome_iff]
    simp only [upTo_isSome_iff]
  unfold TruncationCompletes
  rw [hcontexts, hpreviews]
  constructor
  · intro h
    exact ⟨h.1, h.2⟩
  · intro h
    exact ⟨h.contexts, h.previews⟩

section Examples

/-- The letter at byte 300 has two bytes. -/
def accented : List Char := List.replicate 299 'a' ++ ['é']

def accentedMemory : MemoryNode Rat :=
  { MemoryNode.new ⟨1⟩ 1000 AgentId.nil MemoryType.semantic (String.ofList accented) [] with
    tags := ["entity:alice"] }

def accentedDatabase : Database Rat :=
  Database.ofWorld (worldAfter [Command.store accentedMemory])

/-- The context of the name would end inside of the letter. -/
theorem accented_letter_is_split :
    ¬ TruncationCompletes HashOrder.insertion trimmedText quietServices true accentedDatabase := by
  intro h
  have hstored : accentedDatabase.world.tables.allMemories = [accentedMemory] := rfl
  have hnamed : contentsNamed trimmedText [accentedMemory] "alice" = [accentedMemory.content] := by
    have hfirst : firstEntityName trimmedText accentedMemory = some "alice" := by decide +kernel
    unfold contentsNamed
    rw [List.filter_cons_of_pos (by simpa using hfirst)]
    rfl
  have htext : accentedMemory.content.toList = accented := String.toList_ofList
  have hcut : ¬ IsBoundary accented 300 := by decide +kernel
  have hcontexts := h.1
  unfold entityNamesWithContext at hcontexts
  rw [hstored, Option.isSome_map, entityContexts_isSome_iff] at hcontexts
  have hboundary := hcontexts "alice" (accentedMemory.content, 300) (by
    have hlength : byteLength accentedMemory.content = 301 := by
      unfold byteLength
      rw [htext]
      decide +kernel
    rw [hnamed, contextCuts, hlength]
    exact List.mem_cons_self)
  rw [htext] at hboundary
  exact hcut hboundary

end Examples

end Facade
end MenteDb
