import MenteDb.Context.Delta
import MenteDb.Context.Packing

/-!
# The text of a window

The budget is charged for the contents of the memories, and in a delta for its header;
the text that is sent has headings, labels, tags and edges besides.  Its words are
counted here piece by piece, for every format.
-/

namespace MenteDb
namespace Context

open Foundation
open Cognitive

variable {F : Type}

/-!
## Words
-/

def wordsIn (s : String) : Nat := Strings.wordCount isWhitespace s.toList

/-- A text without white space that is not empty. -/
def Unbroken (s : String) : Prop := Strings.IsWord isWhitespace s.toList

instance (s : String) : Decidable (Unbroken s) :=
  @instDecidableAnd (s.toList ≠ []) (forall c, c ∈ s.toList -> isWhitespace c = false)
    inferInstance (List.decidableBAll _ s.toList)

theorem estimateTokens_eq (text : TextOps F) (s : String) :
    estimateTokens text.atWhitespace s = (13 * wordsIn s + 9) / 10 := by
  unfold estimateTokens TextOps.atWhitespace
  dsimp only
  rw [List.length_map]
  rfl

theorem estimateTokens_le_iff (text : TextOps F) (s : String) (budget : Nat) :
    estimateTokens text.atWhitespace s <= budget <-> 13 * wordsIn s <= 10 * budget := by
  rw [estimateTokens_eq]
  omega

theorem wordsIn_lines (lines : List String) :
    wordsIn ("\n".intercalate lines) = (lines.map wordsIn).sum := by
  unfold wordsIn
  rw [String.toList_intercalate]
  have hjoin : Strings.wordCount isWhitespace (Strings.join '\n' (lines.map String.toList)) =
      ((lines.map String.toList).map (Strings.wordCount isWhitespace)).sum :=
    Strings.wordCount_join rfl _
  rw [List.map_map] at hjoin
  exact hjoin

theorem wordsIn_append_newline (s t : String) :
    wordsIn (s ++ "\n" ++ t) = wordsIn s + wordsIn t := by
  unfold wordsIn
  rw [String.toList_append, String.toList_append, List.append_assoc]
  exact Strings.wordCount_append_cons rfl s.toList t.toList

theorem wordsIn_append_space (s t : String) : wordsIn (s ++ " " ++ t) = wordsIn s + wordsIn t := by
  unfold wordsIn
  rw [String.toList_append, String.toList_append, List.append_assoc]
  exact Strings.wordCount_append_cons rfl s.toList t.toList

theorem Unbroken.wordsIn {s : String} (h : Unbroken s) : wordsIn s = 1 :=
  Strings.IsWord.wordCount h

theorem Unbroken.append {s t : String} (hs : Unbroken s) (ht : Unbroken t) : Unbroken (s ++ t) := by
  unfold Unbroken at hs ht ⊢
  rw [String.toList_append]
  exact hs.append ht.2

theorem unbroken_memoryTypeDebug (memoryType : MemoryType) :
    Unbroken (memoryTypeDebug memoryType) := by
  cases memoryType with
  | episodic => decide
  | semantic => decide
  | procedural => decide
  | antiPattern => decide
  | reasoning => decide
  | correction => decide

theorem unbroken_edgeTypeDebug (edgeType : EdgeType) : Unbroken (edgeTypeDebug edgeType) := by
  cases edgeType with
  | caused => decide
  | before => decide
  | related => decide
  | contradicts => decide
  | supports => decide
  | supersedes => decide
  | derived => decide
  | partOf => decide

theorem not_isWhitespace_of_isDigit {c : Char} (h : c.isDigit = true) : isWhitespace c = false := by
  unfold Char.isDigit at h
  unfold isWhitespace
  have hlow : 48 <= c.toNat := UInt32.le_iff_toNat_le.mp
    (of_decide_eq_true (Bool.and_eq_true_iff.mp h).1)
  have hhigh : c.toNat <= 57 := UInt32.le_iff_toNat_le.mp
    (of_decide_eq_true (Bool.and_eq_true_iff.mp h).2)
  simp
  omega

theorem unbroken_toString (n : Nat) : Unbroken (toString n) := by
  unfold Unbroken
  rw [Nat.toString_eq_repr, Nat.toList_repr]
  refine ⟨Nat.toDigits_ne_nil, ?_⟩
  intro c hc
  exact not_isWhitespace_of_isDigit (Nat.isDigit_of_mem_toDigits (by decide) (by decide) hc)

/-- The digits of an identifier and the hyphens between them. -/
theorem not_isWhitespace_of_mem_uuidText {uuid : BitVec 128} {c : Char}
    (h : c ∈ (uuidText uuid).toList) : isWhitespace c = false := by
  have hdigits : forall n, n < 16 -> isWhitespace (Nat.digitChar n) = false := by decide
  unfold uuidText at h
  rw [String.toList_intercalate] at h
  generalize hall : (List.range 32).map (fun i =>
    Nat.digitChar (uuid.toNat / 16 ^ (31 - i) % 16)) = digits at h
  have hdigit : c ∈ digits -> isWhitespace c = false := by
    intro hc
    rw [← hall] at hc
    rcases List.mem_map.mp hc with ⟨i, _, heq⟩
    rw [← heq]
    exact hdigits _ (Nat.mod_lt _ (by decide))
  rcases Strings.mem_join h with heq | ⟨part, hpart, hc⟩
  · rw [heq]
    decide
  · simp only [List.map_cons, List.map_nil, String.toList_ofList, List.mem_cons,
      List.not_mem_nil, or_false] at hpart
    rcases hpart with heq | heq | heq | heq | heq
    all_goals
      rw [heq] at hc
      exact hdigit (List.mem_of_mem_drop (List.mem_of_mem_take hc))

theorem unbroken_shortId (id : MemoryId) : Unbroken (shortId id) := by
  unfold Unbroken shortId
  rw [String.toList_ofList]
  constructor
  · intro hnil
    have hlength := congrArg List.length hnil
    unfold uuidText at hlength
    rw [String.toList_intercalate] at hlength
    simp [List.intercalate_cons_cons] at hlength
  · intro c hc
    exact not_isWhitespace_of_mem_uuidText (List.mem_of_mem_take hc)

/-!
## Lines
-/

section Lines

variable (text : TextOps F)

/-- The tags behind a line. -/
def tagWords (m : MemoryNode F) : Nat :=
  if m.tags.isEmpty then 0 else wordsIn ("[" ++ ", ".intercalate m.tags ++ "]")

/-- Four words stand before the content. -/
def structuredWords (m : MemoryNode F) : Nat := 4 + wordsIn m.content + tagWords m

/-- What stands behind the last bar of a label. -/
def compactText (m : MemoryNode F) : String :=
  m.content ++ (if m.tags.isEmpty then "" else "|tags:" ++ ",".intercalate m.tags)

/-- The label is a word of its own only before white space or nothing. -/
def compactWords (m : MemoryNode F) : Nat :=
  wordsIn (compactText m) + (if (compactText m).toList.head?.all isWhitespace then 1 else 0)

def deltaWords (m : MemoryNode F) : Nat := 4 + wordsIn m.content

/-- The words of the line of a memory. -/
def memoryWords (format : OutputFormat) (m : MemoryNode F) : Nat :=
  match format with
  | OutputFormat.compact => compactWords m
  | OutputFormat.structured => structuredWords m
  | OutputFormat.delta => structuredWords m

variable (hfixed : forall x, Unbroken (text.fixed2 x))

include hfixed

theorem wordsIn_structuredLine (m : MemoryNode F) :
    wordsIn (structuredLine text m) = structuredWords m := by
  have hlabel : Unbroken ("**[" ++ memoryTypeDebug m.memoryType ++ "]**") :=
    ((by decide : Unbroken "**[").append (unbroken_memoryTypeDebug _)).append
      (by decide)
  have hsalience : Unbroken (text.fixed2 m.salience ++ ")") :=
    (hfixed m.salience).append (by decide)
  have hdash : wordsIn "-" = 1 := by decide
  have hword : wordsIn "(salience:" = 1 := by decide
  have hfront : structuredLine text m = "-" ++ " " ++ ("**[" ++ memoryTypeDebug m.memoryType ++
      "]**" ++ " " ++ ("(salience:" ++ " " ++ (text.fixed2 m.salience ++ ")" ++ " " ++
        (m.content ++ (if m.tags.isEmpty then "" else " [" ++ ", ".intercalate m.tags ++
          "]"))))) := by
    unfold structuredLine
    rw [← String.toList_inj]
    simp
  have htags : wordsIn (m.content ++ (if m.tags.isEmpty then "" else " [" ++
      ", ".intercalate m.tags ++ "]")) = wordsIn m.content + tagWords m := by
    unfold tagWords
    by_cases hempty : m.tags.isEmpty = true
    · rw [if_pos hempty, if_pos hempty, String.append_empty, Nat.add_zero]
    · rw [if_neg hempty, if_neg hempty, ← wordsIn_append_space]
      congr 1
      rw [← String.toList_inj]
      simp
  unfold structuredWords
  rw [hfront, wordsIn_append_space, wordsIn_append_space, wordsIn_append_space,
    wordsIn_append_space, hdash, hlabel.wordsIn, hword, hsalience.wordsIn, htags]
  omega

theorem wordsIn_compactLine (m : MemoryNode F) :
    wordsIn (compactLine text m) = compactWords m := by
  have hlabel : Unbroken ("M|" ++ memoryTypeDebug m.memoryType ++ "|" ++ text.fixed2 m.salience ++
      "|") :=
    ((((by decide : Unbroken "M|").append (unbroken_memoryTypeDebug _)).append
      (by decide)).append (hfixed m.salience)).append (by decide)
  have hline : compactLine text m = "M|" ++ memoryTypeDebug m.memoryType ++ "|" ++
      text.fixed2 m.salience ++ "|" ++ compactText m := by
    unfold compactLine compactText
    rw [← String.toList_inj]
    simp
  unfold compactWords wordsIn
  rw [hline, String.toList_append]
  exact hlabel.wordCount_append _

omit hfixed in
theorem wordsIn_deltaLine (m : MemoryNode F) : wordsIn (deltaLine m) = deltaWords m := by
  have hfront : deltaLine m = "- [NEW]" ++ " " ++ (memoryTypeDebug m.memoryType ++ " " ++
      ("|" ++ " " ++ m.content)) := by
    unfold deltaLine
    rw [← String.toList_inj]
    simp
  have hnew : wordsIn "- [NEW]" = 2 := by decide
  have hbar : wordsIn "|" = 1 := by decide
  unfold deltaWords
  rw [hfront, wordsIn_append_space, wordsIn_append_space, wordsIn_append_space, hnew,
    (unbroken_memoryTypeDebug _).wordsIn, hbar]
  omega

/-- Five words. -/
theorem wordsIn_edgeLine (edge : MemoryEdge F) : wordsIn (edgeLine text edge) = 5 := by
  have hlabel : Unbroken ("--[" ++ edgeTypeDebug edge.edgeType) :=
    (by decide : Unbroken "--[").append (unbroken_edgeTypeDebug _)
  have hweight : Unbroken ("w=" ++ text.fixed2 edge.weight ++ "]-->") :=
    ((by decide : Unbroken "w=").append (hfixed edge.weight)).append (by decide)
  have hdash : wordsIn "-" = 1 := by decide
  have hline : edgeLine text edge = "-" ++ " " ++ (shortId edge.source ++ " " ++
      ("--[" ++ edgeTypeDebug edge.edgeType ++ " " ++ ("w=" ++ text.fixed2 edge.weight ++ "]-->" ++
        " " ++ shortId edge.target))) := by
    unfold edgeLine
    rw [← String.toList_inj]
    simp
  rw [hline, wordsIn_append_space, wordsIn_append_space, wordsIn_append_space,
    wordsIn_append_space, hdash, (unbroken_shortId _).wordsIn, hlabel.wordsIn, hweight.wordsIn,
    (unbroken_shortId _).wordsIn]

end Lines

/-!
## Blocks
-/

/-- The words of the heading of a zone. -/
def zoneWords : AttentionZone -> Nat
  | AttentionZone.opening => 5
  | AttentionZone.critical => 4
  | AttentionZone.primary => 4
  | AttentionZone.supporting => 4
  | AttentionZone.closing => 5

theorem wordsIn_heading (zone : AttentionZone) :
    wordsIn ("## " ++ zoneLabel zone) = zoneWords zone := by
  cases zone with
  | opening => decide
  | critical => decide
  | primary => decide
  | supporting => decide
  | closing => decide

theorem wordsIn_compactHeading (zone : AttentionZone) :
    wordsIn ("# " ++ zoneLabel zone) = zoneWords zone := by
  cases zone with
  | opening => decide
  | critical => decide
  | primary => decide
  | supporting => decide
  | closing => decide

section Blocks

variable [Scalar F]

def zoneOf (sm : ScoredMemory F) : AttentionZone := classify ZoneThresholds.default sm

/-- The words of the memories, and of the headings of the zones they are in. -/
def windowWords (words : MemoryNode F -> Nat) (memories : List (ScoredMemory F)) : Nat :=
  ((AttentionZone.allOrdered.filter (fun zone =>
      memories.any (fun sm => decide (zoneOf sm = zone)))).map zoneWords).sum +
    (memories.map (fun sm => words sm.1)).sum

def inZone (memories : List (ScoredMemory F)) (zone : AttentionZone) : List (ScoredMemory F) :=
  memories.filter (fun sm => decide (zoneOf sm = zone))

def blockOf (text : TextOps F) (memories : List (ScoredMemory F)) (zone : AttentionZone) :
    ContextBlock F where
  zone := zone
  memories := rank (inZone memories zone)
  estimatedTokens :=
    ((rank (inZone memories zone)).map (fun sm => estimateTokens text sm.1.content)).sum

theorem arrange_eq (text : TextOps F) (memories : List (ScoredMemory F)) :
    arrange text ZoneThresholds.default memories =
      AttentionZone.allOrdered.map (blockOf text memories) := rfl

theorem isEmpty_blockOf (text : TextOps F) (memories : List (ScoredMemory F))
    (zone : AttentionZone) :
    (!(blockOf text memories zone).memories.isEmpty) =
      memories.any (fun sm => decide (zoneOf sm = zone)) := by
  rw [Bool.eq_iff_iff, List.any_eq_true, Bool.not_eq_true', List.isEmpty_eq_false_iff_exists_mem]
  constructor
  · intro h
    rcases h with ⟨sm, hsm⟩
    exact ⟨sm, List.mem_filter.mp (mem_rank.mp hsm)⟩
  · intro h
    rcases h with ⟨sm, hsm, hzone⟩
    exact ⟨sm, mem_rank.mpr (List.mem_filter.mpr ⟨hsm, hzone⟩)⟩

section Lines

variable {heading : AttentionZone -> String} {line : MemoryNode F -> String} {trail : List String}
  {words : MemoryNode F -> Nat}
  (hheading : forall zone, wordsIn (heading zone) = zoneWords zone)
  (hline : forall m, wordsIn (line m) = words m) (htrail : (trail.map wordsIn).sum = 0)

include hheading hline htrail

theorem wordsIn_block (text : TextOps F) (memories : List (ScoredMemory F))
    (zone : AttentionZone) :
    ((heading (blockOf text memories zone).zone ::
        ((blockOf text memories zone).memories.map (fun sm => line sm.1) ++ trail)).map
          wordsIn).sum =
      zoneWords zone + ((inZone memories zone).map (fun sm => words sm.1)).sum := by
  have hperm : (blockOf text memories zone).memories.Perm (inZone memories zone) :=
    List.perm_insertionSort _ _
  have hlines : List.map (wordsIn ∘ fun sm : ScoredMemory F => line sm.1)
      (blockOf text memories zone).memories =
      (blockOf text memories zone).memories.map (fun sm => words sm.1) :=
    List.map_congr_left (fun sm _ => hline sm.1)
  rw [List.map_cons, List.sum_cons, List.map_append, List.sum_append, htrail, List.map_map,
    hheading, Nat.add_zero, hlines, (hperm.map (fun sm => words sm.1)).sum_eq]
  rfl

/-- The lines of the blocks of some zones. -/
theorem wordsIn_zones (text : TextOps F) (memories : List (ScoredMemory F))
    (zones : List AttentionZone) :
    ((((zones.map (blockOf text memories)).filter (fun b => !b.memories.isEmpty)).flatMap
        (fun b => heading b.zone :: (b.memories.map (fun sm => line sm.1) ++ trail))).map
          wordsIn).sum =
      ((zones.filter (fun zone =>
        memories.any (fun sm => decide (zoneOf sm = zone)))).map zoneWords).sum +
      ((zones.flatMap (inZone memories)).map (fun sm => words sm.1)).sum := by
  induction zones with
  | nil => rfl
  | cons zone rest ih =>
      rw [List.map_cons, List.filter_cons, List.filter_cons, isEmpty_blockOf, List.flatMap_cons,
        List.map_append, List.sum_append]
      by_cases hused : memories.any (fun sm => decide (zoneOf sm = zone)) = true
      · rw [if_pos hused, if_pos hused, List.flatMap_cons, List.map_append, List.sum_append, ih,
          wordsIn_block hheading hline htrail, List.map_cons, List.sum_cons]
        omega
      · have hnone : inZone memories zone = [] := by
          apply List.filter_eq_nil_iff.mpr
          intro sm hsm hzone
          exact hused (List.any_eq_true.mpr ⟨sm, hsm, hzone⟩)
        rw [if_neg hused, if_neg hused, ih, hnone]
        simp

theorem wordsIn_arranged (text : TextOps F) (memories : List (ScoredMemory F)) :
    ((((arrange text ZoneThresholds.default memories).filter
        (fun b => !b.memories.isEmpty)).flatMap (fun b =>
          heading b.zone :: (b.memories.map (fun sm => line sm.1) ++ trail))).map wordsIn).sum =
      windowWords words memories := by
  have hnodup : AttentionZone.allOrdered.Nodup := by decide
  have hperm := flatMap_classes_perm zoneOf hnodup
    (fun sm (_ : sm ∈ memories) => mem_allOrdered _)
  rw [arrange_eq, wordsIn_zones hheading hline htrail]
  exact congrArg (_ + ·) (hperm.map (fun sm => words sm.1)).sum_eq

end Lines

end Blocks

/-!
## Windows
-/

def edgeWords (config : AssemblyConfig) (edges : List (MemoryEdge F)) : Nat :=
  if config.includeEdges && !edges.isEmpty then 3 + 5 * edges.length else 0

/-- The words of a delta header: the contents of the new memories once more, and a
sentence each for what was removed and what is unchanged. -/
def headerWords (added : List (ScoredMemory F)) (removed unchanged : Nat) : Nat :=
  (added.map (fun sm => 1 + wordsIn sm.1.content)).sum +
    (if removed = 0 then 0 else if removed = 1 then 3 else 6) +
    (if 0 < unchanged then 6 else 0)

section Windows

variable (text : TextOps F) (hfixed : forall x, Unbroken (text.fixed2 x))

include hfixed

theorem wordsIn_edgeSection (config : AssemblyConfig) (edges : List (MemoryEdge F)) :
    wordsIn (edgeSection text config edges) = edgeWords config edges := by
  unfold edgeSection edgeWords
  by_cases hshown : (config.includeEdges && !edges.isEmpty) = true
  · have hlines : edges.map (wordsIn ∘ edgeLine text) = edges.map (fun _ => 5) := by
      apply List.map_congr_left
      intro edge _
      rw [Function.comp_apply, wordsIn_edgeLine text hfixed]
    have hheading : wordsIn "\n## 🔗 Relationships" = 3 := by decide
    rw [if_pos hshown, if_pos hshown, wordsIn_lines, List.map_cons, List.sum_cons, List.map_map,
      hlines, hheading, List.map_const', List.sum_replicate_nat, Nat.mul_comm]
  · rw [if_neg hshown, if_neg hshown]
    decide

variable [Scalar F]

theorem wordsIn_serializeBlocks (format : OutputFormat) (memories : List (ScoredMemory F)) :
    wordsIn (serializeBlocks text format (arrange text ZoneThresholds.default memories)) =
      windowWords (memoryWords format) memories := by
  have hblank : (List.map wordsIn [""]).sum = 0 := by decide
  have hnothing : (List.map wordsIn []).sum = 0 := rfl
  have hstructured : wordsIn (structuredFormat text
      (arrange text ZoneThresholds.default memories)) = windowWords structuredWords memories := by
    unfold structuredFormat
    rw [wordsIn_lines]
    exact wordsIn_arranged wordsIn_heading (wordsIn_structuredLine text hfixed) hblank _ memories
  cases format with
  | compact =>
      show wordsIn (compactFormat text _) = _
      unfold compactFormat
      rw [wordsIn_lines]
      have hlines := wordsIn_arranged wordsIn_compactHeading (wordsIn_compactLine text hfixed)
        hnothing text memories
      simp only [List.append_nil] at hlines
      exact hlines
  | structured => exact hstructured
  | delta => exact hstructured

theorem wordsIn_assemble (memories : List (ScoredMemory F)) (edges : List (MemoryEdge F))
    (config : AssemblyConfig) :
    wordsIn (assemble text memories edges config).format =
      windowWords (memoryWords config.format)
        (taken (tokensOf text) config.tokenBudget (rank memories)) + edgeWords config edges := by
  have hpack : (pack text (TokenBudget.new config.tokenBudget) (rank memories)).1 =
      taken (tokensOf text) config.tokenBudget (rank memories) := pack_eq text _ _
  unfold assemble
  dsimp only
  rw [hpack]
  split
  · rename_i hempty
    have hnone : edgeWords config edges = 0 := by
      rw [← wordsIn_edgeSection text hfixed, String.isEmpty_iff.mp hempty]
      decide
    rw [hnone, wordsIn_serializeBlocks text hfixed]
    rfl
  · rw [wordsIn_append_newline, wordsIn_serializeBlocks text hfixed,
      wordsIn_edgeSection text hfixed]

end Windows

/-!
## Delta headers
-/

theorem wordsIn_newPart (content : String) :
    wordsIn ("[NEW] " ++ content) = 1 + wordsIn content := by
  have hnew : wordsIn "[NEW]" = 1 := by decide
  have hpart : "[NEW] " ++ content = "[NEW]" ++ " " ++ content := by
    rw [← String.toList_inj]
    simp
  rw [hpart, wordsIn_append_space, hnew]

theorem wordsIn_removedOne (id : MemoryId) : wordsIn ("[REMOVED] " ++ removedSummary id) = 3 := by
  have hremoved : wordsIn "[REMOVED] memory" = 2 := by decide
  have hpart : "[REMOVED] " ++ removedSummary id = "[REMOVED] memory" ++ " " ++ shortId id := by
    unfold removedSummary
    rw [← String.toList_inj]
    simp
  rw [hpart, wordsIn_append_space, hremoved, (unbroken_shortId id).wordsIn]

/-- A number within a sentence. -/
theorem wordsIn_counted {before after : String} (n : Nat) :
    wordsIn (before ++ " " ++ (toString n ++ " " ++ after)) =
      wordsIn before + (1 + wordsIn after) := by
  rw [wordsIn_append_space, wordsIn_append_space, (unbroken_toString n).wordsIn]

theorem wordsIn_removedMany (n : Nat) :
    wordsIn ("[REMOVED] " ++ toString n ++ " memories no longer relevant") = 6 := by
  have hbefore : wordsIn "[REMOVED]" = 1 := by decide
  have hafter : wordsIn "memories no longer relevant" = 4 := by decide
  have hpart : "[REMOVED] " ++ toString n ++ " memories no longer relevant" =
      "[REMOVED]" ++ " " ++ (toString n ++ " " ++ "memories no longer relevant") := by
    rw [← String.toList_inj]
    simp
  rw [hpart, wordsIn_counted, hbefore, hafter]

theorem wordsIn_unchanged (n : Nat) :
    wordsIn ("[UNCHANGED] " ++ toString n ++ " memories from previous turn") = 6 := by
  have hbefore : wordsIn "[UNCHANGED]" = 1 := by decide
  have hafter : wordsIn "memories from previous turn" = 4 := by decide
  have hpart : "[UNCHANGED] " ++ toString n ++ " memories from previous turn" =
      "[UNCHANGED]" ++ " " ++ (toString n ++ " " ++ "memories from previous turn") := by
    rw [← String.toList_inj]
    simp
  rw [hpart, wordsIn_counted, hbefore, hafter]

theorem wordsIn_formatDeltaContext (added : List (ScoredMemory F)) (removed : List MemoryId)
    (unchanged : Nat) :
    wordsIn (DeltaTracker.formatDeltaContext (added.map Prod.fst) (removed.map removedSummary)
        unchanged) = headerWords added removed.length unchanged := by
  have hadded : ((added.map Prod.fst).map (fun m => "[NEW] " ++ m.content)).map wordsIn =
      added.map (fun sm => 1 + wordsIn sm.1.content) := by
    rw [List.map_map, List.map_map]
    exact List.map_congr_left (fun sm _ => wordsIn_newPart sm.1.content)
  have hunchanged : ((if 0 < unchanged then
      ["[UNCHANGED] " ++ toString unchanged ++ " memories from previous turn"]
      else []).map wordsIn).sum = if 0 < unchanged then 6 else 0 := by
    split
    · rw [List.map_singleton, List.sum_singleton, wordsIn_unchanged]
    · rfl
  unfold DeltaTracker.formatDeltaContext headerWords
  rw [wordsIn_lines, List.map_append, List.map_append, List.sum_append, List.sum_append, hadded,
    hunchanged]
  congr 2
  cases removed with
  | nil => rfl
  | cons id rest =>
      cases rest with
      | nil =>
          show (List.map wordsIn ["[REMOVED] " ++ removedSummary id]).sum = 3
          rw [List.map_singleton, List.sum_singleton, wordsIn_removedOne]
      | cons other others =>
          show (List.map wordsIn ["[REMOVED] " ++ toString _ ++ " memories no longer relevant"]).sum =
            6
          rw [List.map_singleton, List.sum_singleton, wordsIn_removedMany]


/-!
## What is sent
-/

/-- The memories whose contents fit into the room, best first. -/
def fitting [Scalar F] (text : TextOps F) (room : Nat) (memories : List (ScoredMemory F)) :
    List (ScoredMemory F) :=
  taken (tokensOf text) room (rank memories)

def newMemories (tracker : DeltaTracker) (memories : List (ScoredMemory F)) :
    List (ScoredMemory F) :=
  memories.filter (fun sm => !tracker.lastServed.contains sm.1.id)

def removedCount (tracker : DeltaTracker) (memories : List (ScoredMemory F)) : Nat :=
  (tracker.lastServed.filter (fun id => !(idsOf memories).contains id)).length

def unchangedCount (tracker : DeltaTracker) (memories : List (ScoredMemory F)) : Nat :=
  ((idsOf memories).filter (fun id => tracker.lastServed.contains id)).length

/-- The words of the header of a delta. -/
def deltaHeaderWords (tracker : DeltaTracker) (memories : List (ScoredMemory F)) : Nat :=
  headerWords (newMemories tracker memories) (removedCount tracker memories)
    (unchangedCount tracker memories)

section Sending

variable (hash : HashOrder) (text : TextOps F)

theorem addedMemories_eq (tracker : DeltaTracker) (memories : List (ScoredMemory F)) :
    addedMemories (DeltaTracker.computeDelta hash (idsOf memories) tracker.lastServed) memories =
      newMemories tracker memories := by
  apply List.filter_congr
  intro sm hsm
  have hid : sm.1.id ∈ idsOf memories := List.mem_map_of_mem hsm
  rw [Bool.eq_iff_iff, List.contains_iff_mem]
  unfold DeltaTracker.computeDelta
  simp [hid]

theorem wordsIn_deltaHeader (tracker : DeltaTracker) (memories : List (ScoredMemory F)) :
    wordsIn (deltaHeader
        (DeltaTracker.computeDelta hash (idsOf memories) tracker.lastServed) memories) =
      deltaHeaderWords tracker memories := by
  have hremoved : (DeltaTracker.computeDelta hash (idsOf memories)
      tracker.lastServed).removed.length = removedCount tracker memories :=
    ((hash.perm tracker.lastServed).filter _).length_eq
  unfold deltaHeader deltaHeaderWords
  rw [addedMemories_eq, wordsIn_formatDeltaContext, hremoved]
  rfl

/-- What the header leaves of the budget. -/
theorem remaining_header (memories : List (ScoredMemory F)) (tracker : DeltaTracker)
    (tokenBudget : Nat) :
    ((TokenBudget.new tokenBudget).consume text.atWhitespace
      (deltaHeader (DeltaTracker.computeDelta hash (idsOf memories) tracker.lastServed)
        memories)).remaining = tokenBudget - (13 * deltaHeaderWords tracker memories + 9) / 10 := by
  unfold TokenBudget.consume TokenBudget.remaining TokenBudget.new
  rw [estimateTokens_eq, wordsIn_deltaHeader]
  dsimp only
  omega

variable [Scalar F]

theorem wordsIn_assembleDelta (memories : List (ScoredMemory F)) (edges : List (MemoryEdge F))
    (tracker : DeltaTracker) (config : AssemblyConfig) :
    wordsIn (assembleDelta hash text.atWhitespace memories edges tracker config).1.format =
      deltaHeaderWords tracker memories + windowWords deltaWords
        (fitting text.atWhitespace
          (config.tokenBudget - (13 * deltaHeaderWords tracker memories + 9) / 10)
          (newMemories tracker memories)) := by
  have hroom := remaining_header hash text memories tracker config.tokenBudget
  have hblank : wordsIn "" = 0 := by decide
  have hnothing : (List.map wordsIn []).sum = 0 := rfl
  unfold assembleDelta
  dsimp only
  rw [addedMemories_eq, pack_eq, hroom]
  unfold deltaFormat
  rw [wordsIn_lines, List.map_cons, List.map_cons, List.sum_cons, List.sum_cons,
    wordsIn_deltaHeader, hblank, Nat.zero_add]
  have hlines := wordsIn_arranged wordsIn_heading wordsIn_deltaLine hnothing text.atWhitespace
    (fitting text.atWhitespace
      (config.tokenBudget - (13 * deltaHeaderWords tracker memories + 9) / 10)
      (newMemories tracker memories))
  simp only [List.append_nil] at hlines
  exact congrArg (deltaHeaderWords tracker memories + ·) hlines

/-- A window is within the budget if and only if the words of the contents that fit, of
the headings, labels, tags and edges, and of the header of a delta, are. -/
theorem sent_within_budget_iff (hfixed : forall x, Unbroken (text.fixed2 x))
    (memories : List (ScoredMemory F)) (edges : List (MemoryEdge F)) (tracker : DeltaTracker)
    (config : AssemblyConfig) :
    (estimateTokens text.atWhitespace
          (assemble text.atWhitespace memories edges config).format <= config.tokenBudget <->
        13 * (windowWords (memoryWords config.format)
          (fitting text.atWhitespace config.tokenBudget memories) + edgeWords config edges) <=
            10 * config.tokenBudget) ∧
      (estimateTokens text.atWhitespace
          (assembleDelta hash text.atWhitespace memories edges tracker config).1.format <=
            config.tokenBudget <->
        13 * (deltaHeaderWords tracker memories + windowWords deltaWords
          (fitting text.atWhitespace
            (config.tokenBudget - (13 * deltaHeaderWords tracker memories + 9) / 10)
            (newMemories tracker memories))) <= 10 * config.tokenBudget) := by
  rw [estimateTokens_le_iff, estimateTokens_le_iff, wordsIn_assembleDelta,
    wordsIn_assemble text.atWhitespace hfixed]
  exact ⟨Iff.rfl, Iff.rfl⟩

end Sending

/-- Room for two tokens. -/
def smallConfig : AssemblyConfig := { AssemblyConfig.default with tokenBudget := 2 }

/-- Room for three notes with what is written around them. -/
def roomyConfig : AssemblyConfig := { AssemblyConfig.default with tokenBudget := 60 }

def threeNotes : List (ScoredMemory Rat) :=
  [(note "draft", 1), ({ note "call the bank" with id := ⟨2⟩ }, 1 / 2),
    ({ note "water the plants" with id := ⟨3⟩ }, 1 / 4)]

/-- The client holds the first note and one that is gone. -/
def firstServed : DeltaTracker where
  lastServed := [⟨1⟩, ⟨4⟩]
  lastTurnId := 1

/-- The notes in a window, and as what is new since the first was sent. -/
theorem sent_within_budget_iff_threeNotes :
    (forall x, Unbroken (noteText.fixed2 x)) ∧
      estimateTokens noteText.atWhitespace
        (assemble noteText.atWhitespace threeNotes [] roomyConfig).format <= 60 ∧
      estimateTokens noteText.atWhitespace
        (assembleDelta HashOrder.insertion noteText.atWhitespace threeNotes [] firstServed
          roomyConfig).1.format <= 60 := by
  have hfixed : forall x, Unbroken (noteText.fixed2 x) := by
    intro x
    show Unbroken "1.00"
    decide
  have hwithin := sent_within_budget_iff HashOrder.insertion noteText hfixed threeNotes []
    firstServed roomyConfig
  exact ⟨hfixed, hwithin.1.mpr (by decide +kernel), hwithin.2.mpr (by decide +kernel)⟩

/-- The labels around a content of two tokens are not in the budget. -/
theorem labels_exceed_budget :
    ¬ estimateTokens noteText.atWhitespace
      (assemble noteText.atWhitespace [(note "draft", 1)] [] smallConfig).format <= 2 := by
  decide +kernel

end Context
end MenteDb
