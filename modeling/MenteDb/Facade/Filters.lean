import MenteDb.Facade.Recall

/-!
# The two implementations of the filters

A recall filters the memories it searches by SQL statements, and the memories it
reaches through entities by predicates on the loaded memory.  The two differ in
three corners: SQL refuses a list with too many tags, it compares the number of distinct
matching tags with the length of the requested list, and it compares instants as signed
integers.
-/

namespace MenteDb
namespace Facade

open Foundation
open Sqlite

variable {F : Type} {limits : Limits} {t : Tables F} {id : MemoryId} {node : MemoryNode F}

/-!
## Tags
-/

/-- The statement is refused when it has too many variables; without tags none is made. -/
theorem idsMatchingTags_ok_iff {tags : List String} {or : Bool} :
    (exists ids, t.idsMatchingTags limits tags or = Except.ok ids) <->
      tags = [] ∨ Tables.tagVariables tags or <= limits.variableNumber := by
  unfold Tables.idsMatchingTags Limits.query
  simp only [List.isEmpty_iff]
  by_cases hnone : tags = []
  · simp [hnone]
  · by_cases hfits : Tables.tagVariables tags or <= limits.variableNumber
    · simp [hnone, hfits]
    · simp [hnone, hfits]

/-- A memory matches in the statement's sense when it has a requested tag and, for
the intersection, as many requested tags as the list is long. -/
theorem mem_idsMatchingTags_iff {tags : List String} {or : Bool} {ids : List MemoryId}
    (hids' : t.idsMatchingTags limits tags or = Except.ok ids) :
    id ∈ ids <->
      (exists tag, tag ∈ t.matchedTags tags id) ∧
        (or = true ∨ (t.matchedTags tags id).length = tags.length) := by
  have hids : id ∈ ((t.memoryTags.keys.filter (fun k => decide (k.2 ∈ tags))).map
      Prod.fst).dedup <-> exists tag, tag ∈ t.matchedTags tags id := by
    rw [List.mem_dedup, List.mem_map]
    constructor
    · intro h
      rcases h with ⟨k, hk, hid⟩
      have hparts := List.mem_filter.mp hk
      subst hid
      exact ⟨k.2, Tables.mem_matchedTags.mpr
        ⟨Assoc.contains_iff_mem_keys.mpr hparts.1, by simpa using hparts.2⟩⟩
    · intro h
      rcases h with ⟨tag, htag⟩
      rcases Tables.mem_matchedTags.mp htag with ⟨hkey, hin⟩
      exact ⟨(id, tag), List.mem_filter.mpr
        ⟨Assoc.contains_iff_mem_keys.mp hkey, by simpa using hin⟩, rfl⟩
  rw [Tables.idsMatchingTags_eq_ok hids']
  unfold Tables.idsTagged
  cases tags with
  | nil => simp [Tables.mem_matchedTags]
  | cons first rest =>
      rw [if_neg (List.cons_ne_nil first rest)]
      cases or with
      | true => simp only [if_true, hids, true_or, and_true]
      | false =>
          simp only [Bool.false_eq_true, if_false, List.mem_filter, hids, decide_eq_true_eq,
            false_or]

/-- The number of distinct matches is the length of the list exactly when every
tag is matched and the list repeats none. -/
theorem length_matchedTags_iff {tags : List String} :
    (t.matchedTags tags id).length = tags.length <->
      tags.Nodup ∧ forall tag, tag ∈ tags -> t.memoryTags.contains (id, tag) = true := by
  have hnodup := Tables.nodup_matchedTags t tags id
  constructor
  · intro h
    have hall : forall tag, tag ∈ tags -> t.memoryTags.contains (id, tag) = true :=
      fun _ htag => Tables.all_tags_of_matchedTags h htag
    refine ⟨?_, hall⟩
    have hsub : t.matchedTags tags id ⊆ tags :=
      fun _ htag => (Tables.mem_matchedTags.mp htag).2
    have hperm : (t.matchedTags tags id).Perm tags :=
      (List.subperm_of_subset hnodup hsub).perm_of_length_le (Nat.le_of_eq h.symm)
    exact hperm.nodup_iff.mp hnodup
  · intro h
    have hperm : (t.matchedTags tags id).Perm tags := by
      rw [List.perm_ext_iff_of_nodup hnodup h.1]
      intro tag
      rw [Tables.mem_matchedTags]
      exact ⟨fun hboth => hboth.2, fun htag => ⟨h.2 tag htag, htag⟩⟩
    exact hperm.length_eq

/-- The list has room in a statement, and is asked as a union, repeats no tag, or asks for a
tag the memory does not have. -/
def TagsAgree (limits : Limits) (node : MemoryNode F) (tags : List String) (or : Bool) : Prop :=
  (tags = [] ∨ Tables.tagVariables tags or <= limits.variableNumber) ∧
    (or = true ∨ tags.Nodup ∨ exists tag, tag ∈ tags ∧ tag ∉ node.tags)

/-- The two filters give the same answer about the memory. -/
def SameTags (limits : Limits) (t : Tables F) (id : MemoryId) (node : MemoryNode F)
    (tags : List String) (or : Bool) : Prop :=
  exists ids, t.idsMatchingTags limits tags or = Except.ok ids ∧
    (id ∈ ids <-> memoryMatchesTags node (some tags) or = true)

theorem tags_agree_iff (hget : t.getMemory id = some node) (limits : Limits)
    (tags : List String) (or : Bool) :
    SameTags limits t id node tags or <-> TagsAgree limits node tags or := by
  have htags : forall tag, t.memoryTags.contains (id, tag) = true <-> tag ∈ node.tags :=
    fun _ => (Tables.mem_tags_of_getMemory hget).symm
  unfold TagsAgree
  rw [← idsMatchingTags_ok_iff (t := t)]
  unfold SameTags
  rw [← exists_and_right]
  refine exists_congr (fun ids => and_congr_right (fun hids => ?_))
  rw [mem_idsMatchingTags_iff hids, length_matchedTags_iff]
  simp only [Tables.mem_matchedTags, htags, memoryMatchesTags]
  cases tags with
  | nil => simp
  | cons first rest =>
      cases or with
      | true => simp [and_comm]
      | false =>
          simp only [List.isEmpty_cons, Bool.false_eq_true, if_false, false_or,
            List.all_eq_true, decide_eq_true_eq]
          constructor
          · intro h
            by_cases hall : forall tag, tag ∈ first :: rest -> tag ∈ node.tags
            · exact Or.inl (h.mpr hall).2.1
            · push Not at hall
              exact Or.inr hall
          · intro h
            constructor
            · intro hsql
              exact hsql.2.2
            · intro hall
              refine ⟨⟨first, hall first List.mem_cons_self, List.mem_cons_self⟩, ?_, hall⟩
              rcases h with hnodup | ⟨tag, hin, hout⟩
              · exact hnodup
              · exact absurd (hall tag hin) hout

/-!
## Time
-/

/-- Both bounds are on one side of {lit}`2^63`.  Otherwise the memory is outside of
the range and, where the bounds are the wrong way round, between them. -/
def TimeAgrees (node : MemoryNode F) (start stop : Timestamp) : Prop :=
  (start.toNat < 2 ^ 63 <-> stop.toNat < 2 ^ 63) ∨
    (start.toNat < 2 ^ 63 ∧ (node.createdAt < start ∨ stop < node.createdAt)) ∨
    (stop.toNat < 2 ^ 63 ∧ stop < node.createdAt ∧ node.createdAt < start)

theorem mem_idsMatchingTime_iff (hget : t.getMemory id = some node) {start stop : Timestamp} :
    id ∈ t.idsMatchingTime start stop <->
      sqlLe start node.createdAt = true ∧ sqlLe node.createdAt stop = true := by
  rcases Option.map_eq_some_iff.mp hget with ⟨row, hrow, hnode⟩
  have hcreated : node.createdAt = row.createdAt := by
    rw [← hnode]
    rfl
  rw [hcreated]
  unfold Tables.idsMatchingTime
  simp only [List.mem_map, List.mem_filter, Bool.and_eq_true, Prod.exists, exists_and_right,
    exists_eq_right]
  constructor
  · intro h
    rcases h with ⟨row', hmem, hrange⟩
    have hsame : t.memories.find? id = some row' := Assoc.find?_eq_some_iff.mpr hmem
    rw [hrow] at hsame
    cases hsame
    exact hrange
  · intro h
    exact ⟨row, Assoc.find?_eq_some_iff.mp hrow, h⟩

theorem time_agrees_iff (hget : t.getMemory id = some node) (start stop : Timestamp) :
    (id ∈ t.idsMatchingTime start stop <->
        memoryMatchesTimeRange node (some (start, stop)) = true) <->
      TimeAgrees node start stop := by
  rw [mem_idsMatchingTime_iff hget, Tables.sqlLe_iff, Tables.sqlLe_iff]
  simp only [memoryMatchesTimeRange, TimeAgrees, Bool.and_eq_true, decide_eq_true_eq,
    UInt64.le_iff_toNat_le, UInt64.lt_iff_toNat_lt]
  have hstart := start.toNat_lt
  have hstop := stop.toNat_lt
  have hcreated := node.createdAt.toNat_lt
  generalize start.toNat = a at *
  generalize stop.toNat = b at *
  generalize node.createdAt.toNat = c at *
  by_cases ha : a < 2 ^ 63 <;> by_cases hb : b < 2 ^ 63 <;> by_cases hc : c < 2 ^ 63 <;>
    simp only [ha, hb, hc, if_true, if_false, iff_true, iff_false, true_and, false_and, true_or,
      false_or, not_true, or_false] <;> omega

/-- Both filters, for every memory and every argument: the implementations agree
exactly outside of the three corners. -/
theorem filters_agree_iff (hget : t.getMemory id = some node) :
    (forall limits tags or,
      SameTags limits t id node tags or <-> TagsAgree limits node tags or) ∧
    (forall start stop,
      (id ∈ t.idsMatchingTime start stop <->
        memoryMatchesTimeRange node (some (start, stop)) = true) <->
        TimeAgrees node start stop) :=
  ⟨tags_agree_iff hget, time_agrees_iff hget⟩

theorem filters_agree_iff_turin :
    turinWorld.tables.getMemory ⟨7⟩ = some turinMemory ∧
      SameTags Limits.default turinWorld.tables ⟨7⟩ turinMemory ["trip"] false ∧
      (⟨7⟩ ∈ turinWorld.tables.idsMatchingTime 0 2000 <->
        memoryMatchesTimeRange turinMemory (some (0, 2000)) = true) := by
  have hget : turinWorld.tables.getMemory ⟨7⟩ = some turinMemory := by decide +kernel
  have hagree := filters_agree_iff hget
  refine ⟨hget, (hagree.1 Limits.default ["trip"] false).mpr ?_, (hagree.2 0 2000).mpr ?_⟩
  · exact ⟨Or.inr (by decide), Or.inr (Or.inl (by decide))⟩
  · exact Or.inl (by decide)

/-- A tag asked for twice, more tags than a statement has variables, and a range without an
end. -/
theorem filters_disagree :
    turinWorld.tables.getMemory ⟨7⟩ = some turinMemory ∧
      turinWorld.tables.idsMatchingTags Limits.default ["trip", "trip"] false = Except.ok [] ∧
      memoryMatchesTags turinMemory (some ["trip", "trip"]) false = true ∧
      (forall ids, turinWorld.tables.idsMatchingTags Limits.default
        (List.replicate 32767 "trip") true ≠ Except.ok ids) ∧
      memoryMatchesTags turinMemory (some (List.replicate 32767 "trip")) true = true ∧
      ⟨7⟩ ∉ turinWorld.tables.idsMatchingTime 0 18446744073709551615 ∧
      memoryMatchesTimeRange turinMemory (some (0, 18446744073709551615)) = true := by
  have hlong : List.replicate 32767 "trip" ≠ [] := List.ne_nil_of_length_pos
    (by rw [List.length_replicate]; decide)
  refine ⟨by decide +kernel, by decide +kernel, by decide +kernel, ?_, ?_, by decide +kernel,
    by decide +kernel⟩
  · intro ids hids
    have hroom := idsMatchingTags_ok_iff.mp ⟨ids, hids⟩
    rcases hroom with hnone | hfits
    · exact hlong hnone
    · unfold Tables.tagVariables at hfits
      rw [List.length_replicate] at hfits
      exact absurd hfits (by decide)
  · have hmatch : forall tags : List String, tags ≠ [] -> "trip" ∈ tags ->
        memoryMatchesTags turinMemory (some tags) true = true := by
      intro tags hne hin
      unfold memoryMatchesTags
      simp only [List.isEmpty_iff, hne, if_false, if_true]
      exact List.any_eq_true.mpr ⟨"trip", hin, by decide⟩
    exact hmatch _ hlong (List.mem_replicate.mpr ⟨by decide, rfl⟩)

end Facade
end MenteDb
