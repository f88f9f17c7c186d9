import MenteDb.Context.Assembler
import MenteDb.Foundation.Packing
import Mathlib.Algebra.BigOperators.Group.List.Basic

/-!
# What a window holds

The assembler packs the ranked memories greedily into the token budget and sorts what
it took into the zones.
-/

namespace MenteDb
namespace Context

open Foundation
open Cognitive

variable {F : Type}

/-- What a memory is charged for. -/
def tokensOf (text : TextOps F) (sm : ScoredMemory F) : Nat := estimateTokens text sm.1.content

/-!
## The budget
-/

theorem pack_eq (text : TextOps F) (b : TokenBudget) (memories : List (ScoredMemory F)) :
    (pack text b memories).1 = taken (tokensOf text) b.remaining memories := by
  induction memories generalizing b with
  | nil => rfl
  | cons sm rest ih =>
      unfold pack taken
      by_cases hfits : tokensOf text sm <= b.remaining
      · have hcan : b.canFit text sm.1.content = true := decide_eq_true hfits
        have hleft : (b.consume text sm.1.content).remaining = b.remaining - tokensOf text sm := by
          unfold TokenBudget.consume TokenBudget.remaining tokensOf at *
          dsimp only
          omega
        rw [if_pos hcan, if_pos hfits, ← hleft]
        exact congrArg (sm :: ·) (ih _)
      · have hcan : ¬ b.canFit text sm.1.content = true := by
          intro hcan
          exact hfits (of_decide_eq_true hcan)
        rw [if_neg hcan, if_neg hfits]
        exact ih b

/-- The budget is charged for exactly what was taken. -/
theorem usedTokens_pack (text : TextOps F) (b : TokenBudget) (memories : List (ScoredMemory F)) :
    (pack text b memories).2.usedTokens =
      b.usedTokens + ((pack text b memories).1.map (tokensOf text)).sum := by
  induction memories generalizing b with
  | nil => rfl
  | cons sm rest ih =>
      unfold pack
      by_cases hfits : tokensOf text sm <= b.remaining
      · have hcan : b.canFit text sm.1.content = true := decide_eq_true hfits
        have hused : (b.consume text sm.1.content).usedTokens =
            b.usedTokens + tokensOf text sm := congrArg (b.usedTokens + ·) (Nat.min_eq_left hfits)
        rw [if_pos hcan]
        simp only [List.map_cons, List.sum_cons]
        rw [ih, hused]
        omega
      · have hcan : ¬ b.canFit text sm.1.content = true := by
          intro hcan
          exact hfits (of_decide_eq_true hcan)
        rw [if_neg hcan]
        exact ih b

/-!
## The zones
-/

section Zones

variable [Scalar F]

omit [Scalar F] in
theorem mem_allOrdered (zone : AttentionZone) : zone ∈ AttentionZone.allOrdered := by
  cases zone with
  | opening => decide
  | critical => decide
  | primary => decide
  | supporting => decide
  | closing => decide

/-- The blocks hold the memories they were given, each once. -/
theorem memories_arrange_perm (text : TextOps F) (thresholds : ZoneThresholds F)
    (memories : List (ScoredMemory F)) :
    ((arrange text thresholds memories).flatMap ContextBlock.memories).Perm memories := by
  have hnodup : AttentionZone.allOrdered.Nodup := by decide
  have hclasses := flatMap_classes_perm (classify thresholds) hnodup
    (fun sm (_ : sm ∈ memories) => mem_allOrdered _)
  unfold arrange
  rw [List.flatMap_map]
  refine List.Perm.trans (List.Perm.flatMap_left _ ?_) hclasses
  intro zone _
  exact List.perm_insertionSort _ _

theorem sum_estimatedTokens_arrange (text : TextOps F) (thresholds : ZoneThresholds F)
    (memories : List (ScoredMemory F)) :
    ((arrange text thresholds memories).map ContextBlock.estimatedTokens).sum =
      (memories.map (tokensOf text)).sum := by
  have hblocks : (arrange text thresholds memories).map ContextBlock.estimatedTokens =
      (arrange text thresholds memories).map (fun block =>
        (block.memories.map (tokensOf text)).sum) := by
    unfold arrange
    rw [List.map_map, List.map_map]
    rfl
  rw [hblocks, ← sum_map_flatMap]
  exact ((memories_arrange_perm text thresholds memories).map (tokensOf text)).sum_eq

theorem sorted_of_mem_arrange {text : TextOps F} {thresholds : ZoneThresholds F}
    {memories : List (ScoredMemory F)} {block : ContextBlock F}
    (h : block ∈ arrange text thresholds memories) :
    block.memories.Pairwise (fun a b => b.2 <= a.2) := by
  rcases List.mem_map.mp h with ⟨zone, _, heq⟩
  rw [← heq]
  exact pairwise_rank _

/-!
## The window
-/

/-- The window is charged for what it holds and stays within the budget, its blocks hold
what was included and are sorted, and nothing that was excluded still fits. -/
theorem assemble_packs_greedily (text : TextOps F) (memories : List (ScoredMemory F))
    (edges : List (MemoryEdge F)) (config : AssemblyConfig) :
    let window := assemble text memories edges config
    let included := (pack text (TokenBudget.new config.tokenBudget) (rank memories)).1
    exists excluded, (included ++ excluded).Perm memories ∧
      window.totalTokens <= config.tokenBudget ∧
      window.totalTokens = (included.map (tokensOf text)).sum ∧
      window.totalTokens = (window.blocks.map ContextBlock.estimatedTokens).sum ∧
      window.blocks.map ContextBlock.zone = AttentionZone.allOrdered ∧
      window.memories.Perm included ∧
      (forall block, block ∈ window.blocks ->
        block.memories.Pairwise (fun a b => b.2 <= a.2)) ∧
      window.metadata.includedCount = included.length ∧
      window.metadata.includedCount + window.metadata.excludedCount = memories.length ∧
      forall sm, sm ∈ excluded -> config.tokenBudget - window.totalTokens < tokensOf text sm := by
  intro window included
  have hpack : included = taken (tokensOf text) config.tokenBudget (rank memories) :=
    pack_eq text (TokenBudget.new config.tokenBudget) (rank memories)
  have htotal : window.totalTokens = (included.map (tokensOf text)).sum :=
    (usedTokens_pack text (TokenBudget.new config.tokenBudget) (rank memories)).trans
      (Nat.zero_add _)
  have hperm : (included ++ passed (tokensOf text) config.tokenBudget (rank memories)).Perm
      memories := by
    rw [hpack]
    exact (taken_append_passed_perm _ _ _).trans (List.perm_insertionSort _ memories)
  have hlength : included.length <= memories.length := by
    rw [← hperm.length_eq, List.length_append]
    exact Nat.le_add_right _ _
  refine ⟨passed (tokensOf text) config.tokenBudget (rank memories), hperm, ?_, htotal, ?_, rfl,
    memories_arrange_perm text _ included, fun block hblock => sorted_of_mem_arrange hblock, rfl,
    Nat.add_sub_cancel' hlength, ?_⟩
  · rw [htotal, hpack]
    exact sum_taken_le _ _ _
  · rw [htotal]
    exact (sum_estimatedTokens_arrange text _ included).symm
  · intro sm hsm
    rw [htotal, hpack]
    exact lt_of_mem_passed _ hsm

end Zones

end Context
end MenteDb
