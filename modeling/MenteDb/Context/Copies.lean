import MenteDb.Context.Serialized
import Mathlib.Data.List.Chain

/-!
# The client's copy

After every turn the caller of the assembler has the window and the tracker.  The window holds
the new memories that fit into the budget; which memories were removed can only be read off the
tracker, since the window counts them.  A client that follows both keeps a copy of the context.
-/

namespace MenteDb
namespace Context

open Foundation
open Cognitive

variable {F : Type}

/-- Identifiers with contents. -/
abbrev ClientCopy := List (MemoryId × String)

def contentsOf (memories : List (ScoredMemory F)) : ClientCopy :=
  memories.map (fun sm => (sm.1.id, sm.1.content))

/-- Drop what was removed, add what the window shows, and keep the rest. -/
def ClientCopy.receive (copy : ClientCopy) (window : ContextWindow F) (removed : List MemoryId) :
    ClientCopy :=
  copy.filter (fun entry => !removed.contains entry.1) ++ contentsOf window.memories

structure Turn (F : Type) where
  memories : List (ScoredMemory F)
  edges : List (MemoryEdge F)
  config : AssemblyConfig

/-- The tracker of the server and the copy of the client. -/
structure Conversation where
  tracker : DeltaTracker
  copy : ClientCopy

def Conversation.start : Conversation where
  tracker := DeltaTracker.new
  copy := []

/-- What was served before and is not served any more. -/
def noLongerServed (before after : DeltaTracker) : List MemoryId :=
  before.lastServed.filter (fun id => !after.lastServed.contains id)

/-- The server assembles the turn, and the client follows what the assembler returns. -/
def Conversation.serve [Scalar F] (hash : HashOrder) (text : TextOps F) (c : Conversation)
    (turn : Turn F) : Conversation :=
  let (window, tracker) := assembleDelta hash text turn.memories turn.edges c.tracker turn.config
  { tracker := tracker
    copy := c.copy.receive window (noLongerServed c.tracker tracker) }

/-- The copy is the memories with their contents. -/
def CopyOf (copy : ClientCopy) (memories : List (ScoredMemory F)) : Prop :=
  forall entry, entry ∈ copy <-> entry ∈ contentsOf memories

instance (copy : ClientCopy) (memories : List (ScoredMemory F)) :
    Decidable (CopyOf copy memories) :=
  decidable_of_iff ((forall entry, entry ∈ copy -> entry ∈ contentsOf memories) ∧
      forall entry, entry ∈ contentsOf memories -> entry ∈ copy)
    ⟨fun h entry => ⟨h.1 entry, h.2 entry⟩, fun h => ⟨fun e => (h e).mp, fun e => (h e).mpr⟩⟩

/-- A memory that stays has the same contents as before. -/
def SameContents (before after : List (ScoredMemory F)) : Prop :=
  forall id, id ∈ idsOf before -> id ∈ idsOf after -> forall content,
    (id, content) ∈ contentsOf before <-> (id, content) ∈ contentsOf after

section Serving

variable [Scalar F] (hash : HashOrder) (text : TextOps F)

/-- The tokens that the header of a delta leaves. -/
def roomAfterHeader (tracker : DeltaTracker) (turn : Turn F) : Nat :=
  turn.config.tokenBudget - (13 * deltaHeaderWords tracker turn.memories + 9) / 10

/-- The new memories fit, best first, into what the header leaves of the budget. -/
def NewMemoriesFit (tracker : DeltaTracker) (turn : Turn F) : Prop :=
  forall entry, entry ∈ contentsOf (newMemories tracker turn.memories) ->
    entry ∈ contentsOf (fitting text.atWhitespace (roomAfterHeader tracker turn)
      (newMemories tracker turn.memories))

/-- The second turn changes no memory of the first, and its new memories fit. -/
structure FollowsUnchanged (first second : Turn F) : Prop where
  contents : SameContents first.memories second.memories
  fits : NewMemoriesFit text (DeltaTracker.new.update (idsOf first.memories)) second

/-- The turn before the first one. -/
def noTurn : Turn F := ⟨[], [], AssemblyConfig.default⟩

/-- The server and the client are at the memories of a turn. -/
structure AtTurn (c : Conversation) (turn : Turn F) : Prop where
  served : c.tracker.lastServed = (DeltaTracker.new.update (idsOf turn.memories)).lastServed
  copy : CopyOf c.copy turn.memories

omit [Scalar F] in
theorem fst_mem_idsOf {memories : List (ScoredMemory F)} {entry : MemoryId × String}
    (h : entry ∈ contentsOf memories) : entry.1 ∈ idsOf memories := by
  rcases List.mem_map.mp h with ⟨sm, hsm, heq⟩
  rw [← heq]
  exact List.mem_map_of_mem hsm

omit [Scalar F] in
theorem mem_contentsOf_newMemories {memories : List (ScoredMemory F)} {tracker : DeltaTracker}
    {entry : MemoryId × String} :
    entry ∈ contentsOf (newMemories tracker memories) <->
      entry ∈ contentsOf memories ∧ entry.1 ∉ tracker.lastServed := by
  unfold contentsOf newMemories
  constructor
  · intro h
    rcases List.mem_map.mp h with ⟨sm, hsm, heq⟩
    rcases List.mem_filter.mp hsm with ⟨hmem, hnew⟩
    refine ⟨List.mem_map.mpr ⟨sm, hmem, heq⟩, ?_⟩
    rw [← heq]
    simpa using hnew
  · intro h
    rcases List.mem_map.mp h.1 with ⟨sm, hmem, heq⟩
    refine List.mem_map.mpr ⟨sm, List.mem_filter.mpr ⟨hmem, ?_⟩, heq⟩
    have hnew := h.2
    rw [← heq] at hnew
    simpa using hnew

theorem mem_of_mem_fitting {room : Nat} {memories : List (ScoredMemory F)}
    {entry : MemoryId × String} (h : entry ∈ contentsOf (fitting text room memories)) :
    entry ∈ contentsOf memories := by
  rcases List.mem_map.mp h with ⟨sm, hsm, heq⟩
  have hmem : sm ∈ memories := by
    unfold fitting at hsm
    have hperm := taken_append_passed_perm (tokensOf text) room (rank memories)
    exact mem_rank.mp (hperm.mem_iff.mp (List.mem_append_left _ hsm))
  exact List.mem_map.mpr ⟨sm, hmem, heq⟩

/-- The window shows the new memories that fit. -/
theorem memories_assembleDelta_perm (tracker : DeltaTracker) (turn : Turn F) :
    (assembleDelta hash text.atWhitespace turn.memories turn.edges tracker
      turn.config).1.memories.Perm
        (fitting text.atWhitespace (roomAfterHeader tracker turn)
          (newMemories tracker turn.memories)) := by
  have hroom := remaining_header hash text turn.memories tracker turn.config.tokenBudget
  unfold assembleDelta ContextWindow.memories
  dsimp only
  rw [addedMemories_eq, pack_eq, hroom]
  exact memories_arrange_perm _ _ _

theorem copy_serve (c : Conversation) (turn : Turn F) :
    (c.serve hash text turn).copy =
      c.copy.receive (assembleDelta hash text turn.memories turn.edges c.tracker turn.config).1
        (noLongerServed c.tracker
          (assembleDelta hash text turn.memories turn.edges c.tracker turn.config).2) := rfl

/-- After a turn the client holds what it held of the memories that are still served, and the
new memories that fit. -/
theorem mem_copy_serve {c : Conversation} {turn : Turn F} {entry : MemoryId × String} :
    entry ∈ (c.serve hash text.atWhitespace turn).copy <->
      (entry ∈ c.copy ∧ (entry.1 ∈ c.tracker.lastServed -> entry.1 ∈ idsOf turn.memories)) ∨
        entry ∈ contentsOf (fitting text.atWhitespace (roomAfterHeader c.tracker turn)
          (newMemories c.tracker turn.memories)) := by
  have hwindow : entry ∈ contentsOf (assembleDelta hash text.atWhitespace turn.memories
        turn.edges c.tracker turn.config).1.memories <->
      entry ∈ contentsOf (fitting text.atWhitespace (roomAfterHeader c.tracker turn)
        (newMemories c.tracker turn.memories)) :=
    ((memories_assembleDelta_perm hash text c.tracker turn).map _).mem_iff
  have hremoved : (!(noLongerServed c.tracker (assembleDelta hash text.atWhitespace
        turn.memories turn.edges c.tracker turn.config).2).contains entry.1) = true <->
      (entry.1 ∈ c.tracker.lastServed -> entry.1 ∈ idsOf turn.memories) := by
    unfold noLongerServed assembleDelta DeltaTracker.update
    simp [imp_iff_not_or]
  rw [copy_serve, ClientCopy.receive, List.mem_append, List.mem_filter, hwindow, hremoved]

/-- The copy is right after a turn exactly when nothing that stays has changed and what is new
fits. -/
theorem copyOf_serve_iff {c : Conversation} {last : Turn F} (h : AtTurn c last) (turn : Turn F) :
    CopyOf (c.serve hash text.atWhitespace turn).copy turn.memories <->
      FollowsUnchanged text last turn := by
  have hserved : forall id, id ∈ c.tracker.lastServed <-> id ∈ idsOf last.memories := by
    intro id
    rw [h.served]
    exact List.mem_dedup
  have hnew : newMemories (DeltaTracker.new.update (idsOf last.memories)) turn.memories =
      newMemories c.tracker turn.memories := by
    unfold newMemories
    rw [h.served]
  have hroom : roomAfterHeader (DeltaTracker.new.update (idsOf last.memories)) turn =
      roomAfterHeader c.tracker turn := by
    unfold roomAfterHeader deltaHeaderWords removedCount unchangedCount newMemories
    rw [h.served]
  constructor
  · intro hcopy
    constructor
    · intro id hbefore hafter content
      have hentry := hcopy (id, content)
      rw [mem_copy_serve hash text, h.copy (id, content), hserved id] at hentry
      constructor
      · intro hold
        exact hentry.mp (Or.inl ⟨hold, fun _ => hafter⟩)
      · intro hnow
        rcases hentry.mpr hnow with hold | hfits
        · exact hold.1
        · have hnotServed := (mem_contentsOf_newMemories.mp
            (mem_of_mem_fitting text.atWhitespace hfits)).2
          exact absurd ((hserved id).mpr hbefore) hnotServed
    · unfold NewMemoriesFit
      rw [hnew, hroom]
      intro entry hentry
      have hparts := mem_contentsOf_newMemories.mp hentry
      rcases (mem_copy_serve hash text).mp ((hcopy entry).mpr hparts.1) with hold | hfits
      · have hbefore := fst_mem_idsOf ((h.copy entry).mp hold.1)
        exact absurd ((hserved entry.1).mpr hbefore) hparts.2
      · exact hfits
  · intro hfollows entry
    have hfit := hfollows.fits
    unfold NewMemoriesFit at hfit
    rw [hnew, hroom] at hfit
    rw [mem_copy_serve hash text, h.copy entry, hserved entry.1]
    constructor
    · intro hentry
      rcases hentry with hold | hfits
      · have hbefore := fst_mem_idsOf hold.1
        exact (hfollows.contents entry.1 hbefore (hold.2 hbefore) entry.2).mp hold.1
      · exact (mem_contentsOf_newMemories.mp (mem_of_mem_fitting text.atWhitespace hfits)).1
    · intro hnow
      by_cases hbefore : entry.1 ∈ idsOf last.memories
      · have hafter := fst_mem_idsOf hnow
        exact Or.inl ⟨(hfollows.contents entry.1 hbefore hafter entry.2).mpr hnow,
          fun _ => hafter⟩
      · refine Or.inr (hfit entry (mem_contentsOf_newMemories.mpr ⟨hnow, ?_⟩))
        rw [hserved entry.1]
        exact hbefore

theorem atTurn_serve {c : Conversation} {turn : Turn F}
    (hcopy : CopyOf (c.serve hash text.atWhitespace turn).copy turn.memories) :
    AtTurn (c.serve hash text.atWhitespace turn) turn := ⟨rfl, hcopy⟩

/-- The copy after every turn, from any turn on. -/
theorem copies_iff_isChain (turns : List (Turn F)) {c : Conversation} {last : Turn F}
    (h : AtTurn c last) :
    (forall before turn after, turns = before ++ turn :: after ->
        CopyOf ((before ++ [turn]).foldl (Conversation.serve hash text.atWhitespace) c).copy
          turn.memories) <->
      (last :: turns).IsChain (FollowsUnchanged text) := by
  induction turns generalizing c last with
  | nil =>
      constructor
      · intro _
        exact List.IsChain.singleton last
      · intro _ before turn after heq
        exact absurd heq.symm (List.append_ne_nil_of_right_ne_nil before (List.cons_ne_nil _ _))
  | cons turn rest ih =>
      rw [List.isChain_cons_cons, ← copyOf_serve_iff hash text h turn]
      constructor
      · intro hall
        have hfirst := hall [] turn rest rfl
        refine ⟨hfirst, (ih (atTurn_serve hash text hfirst)).mp ?_⟩
        intro before next after heq
        exact hall (turn :: before) next after (by rw [heq]; rfl)
      · intro hchain before next after heq
        have hrest := (ih (atTurn_serve hash text hchain.1)).mpr hchain.2
        cases before with
        | nil =>
            rw [← (List.cons.inj heq).1]
            exact hchain.1
        | cons first before =>
            rw [List.cons_append] at heq
            rw [← (List.cons.inj heq).1]
            exact hrest before next after (List.cons.inj heq).2

/-- In a conversation from the beginning, the client holds exactly the memories of the
turn with their contents after every turn if and only if no memory that stays from one
turn to the next has changed, and the new memories of every turn fit into the budget. -/
theorem copy_exact_iff_unchanged (turns : List (Turn F)) :
    (forall before turn after, turns = before ++ turn :: after ->
        CopyOf ((before ++ [turn]).foldl (Conversation.serve hash text.atWhitespace)
          Conversation.start).copy turn.memories) <->
      (noTurn :: turns).IsChain (FollowsUnchanged text) :=
  copies_iff_isChain hash text turns ⟨rfl, fun _ => Iff.rfl⟩

end Serving

/-!
### Windows alone
-/

section Examples

def noteTurn (notes : List (Nat × String)) : Turn Rat :=
  ⟨notes.map (fun n =>
    (MemoryNode.new ⟨BitVec.ofNat 128 n.1⟩ 0 ⟨0⟩ MemoryType.semantic n.2 [], 1)), [],
      AssemblyConfig.default⟩

/-- The windows of a conversation, in order. -/
def windowsOf (turns : List (Turn Rat)) : List (ContextWindow Rat) :=
  (turns.foldl (fun (s : DeltaTracker × List (ContextWindow Rat)) turn =>
    let (window, tracker) := assembleDelta HashOrder.insertion noteText.atWhitespace
      turn.memories turn.edges s.1 turn.config
    (tracker, s.2 ++ [window])) (DeltaTracker.new, [])).2

def fourNotes : Turn Rat := noteTurn [(1, "one"), (2, "two"), (3, "three"), (4, "four")]

/-- Whichever two of four memories are dropped, the window says that two were. -/
theorem windowsOf_halves :
    windowsOf [fourNotes, noteTurn [(1, "one"), (2, "two")]] =
      windowsOf [fourNotes, noteTurn [(3, "three"), (4, "four")]] := by
  decide +kernel

/-- A memory that is stored again with another content keeps its old one at the client; and
no client of the windows alone holds the memories of every conversation. -/
theorem changed_content_is_not_sent :
    ¬ CopyOf ([noteTurn [(1, "draft")], noteTurn [(1, "final")]].foldl
        (Conversation.serve HashOrder.insertion noteText.atWhitespace) Conversation.start).copy
        (noteTurn [(1, "final")]).memories ∧
      forall client : List (ContextWindow Rat) -> ClientCopy,
        ¬ forall turns turn, CopyOf (client (windowsOf (turns ++ [turn]))) turn.memories := by
  refine ⟨by decide +kernel, ?_⟩
  intro client h
  have hlow := h [fourNotes] (noteTurn [(1, "one"), (2, "two")])
  have hhigh := h [fourNotes] (noteTurn [(3, "three"), (4, "four")])
  have hsame : windowsOf ([fourNotes] ++ [noteTurn [(1, "one"), (2, "two")]]) =
      windowsOf ([fourNotes] ++ [noteTurn [(3, "three"), (4, "four")]]) := windowsOf_halves
  rw [hsame] at hlow
  have hone : (⟨1⟩, "one") ∈ contentsOf (noteTurn [(3, "three"), (4, "four")]).memories :=
    (hhigh _).mp ((hlow (⟨1⟩, "one")).mpr (by decide))
  exact absurd hone (by decide)

end Examples

end Context
end MenteDb
