import MenteDb.Facade.Consistency
import MenteDb.Facade.Maintenance

/-!
# Names of entities

Two scans read the tags that name entities.  One collects every name for the resolver; the
other lists memories by name for the linking, and takes only the first name of each memory,
since an enrichment writes one memory for each entity.
-/

namespace MenteDb
namespace Facade

open Foundation
open Sqlite
open Cognitive

variable {F : Type} (text : TextOps F)

/-- A name as the scans compare it. -/
def tagName (name : String) : String := text.trim (text.toLowercase name)

def entityNames (mem : MemoryNode F) : List String :=
  (mem.tags.filterMap entityTag).map (tagName text)

def firstEntityName (mem : MemoryNode F) : Option String := (entityNames text mem).head?

def allEntityNames (t : Tables F) : List String :=
  orderBy (fun a b => decide (a <= b)) (t.allMemories.flatMap (entityNames text)).dedup

theorem mem_allEntityNames {t : Tables F} {n : String} :
    n ∈ allEntityNames text t <-> exists mem, mem ∈ t.allMemories ∧ n ∈ entityNames text mem := by
  unfold allEntityNames
  rw [mem_orderBy, List.mem_dedup, List.mem_flatMap]

theorem firstEntityName_eq (mem : MemoryNode F) :
    firstEntityName text mem = (mem.tags.findSome? entityTag).map (tagName text) := by
  unfold firstEntityName entityNames
  rw [List.head?_map, List.head?_filterMap]

/-- The map groups the memories by their first names. -/
theorem buildEntityMemoryMap_eq (t : Tables F) :
    buildEntityMemoryMap text t =
      Assoc.gather (firstEntityName text) MemoryNode.id t.allMemories := by
  unfold buildEntityMemoryMap Assoc.gather
  congr 1
  funext map mem
  rw [firstEntityName_eq]
  cases mem.tags.findSome? entityTag with
  | none => rfl
  | some name => rfl

theorem find?_buildEntityMemoryMap (t : Tables F) (n : String) :
    ((buildEntityMemoryMap text t).find? n).getD [] =
      (t.allMemories.filter (fun mem => decide (firstEntityName text mem = some n))).map
        MemoryNode.id := by
  rw [buildEntityMemoryMap_eq, Assoc.getD_find?_gather]

theorem contains_buildEntityMemoryMap (t : Tables F) (n : String) :
    (buildEntityMemoryMap text t).contains n = true <->
      exists mem, mem ∈ t.allMemories ∧ firstEntityName text mem = some n := by
  rw [buildEntityMemoryMap_eq, Assoc.contains_gather_iff]

theorem mem_buildEntityMemoryMap {t : Tables F} {n : String} {id : MemoryId} :
    id ∈ ((buildEntityMemoryMap text t).find? n).getD [] <->
      exists mem, mem ∈ t.allMemories ∧ firstEntityName text mem = some n ∧ mem.id = id := by
  rw [find?_buildEntityMemoryMap, List.mem_map]
  simp only [List.mem_filter, decide_eq_true_eq, and_assoc]

/-!
## Names that can be linked
-/

/-- The two scans agree: every name is a key, and every memory with the name is listed. -/
def EveryNameLinked (t : Tables F) : Prop :=
  (forall n, n ∈ allEntityNames text t -> (buildEntityMemoryMap text t).contains n = true) ∧
    forall mem n, mem ∈ t.allMemories -> n ∈ entityNames text mem ->
      mem.id ∈ ((buildEntityMemoryMap text t).find? n).getD []

/-- All entity tags of a memory have the name of the first one. -/
def OneNameEach (t : Tables F) : Prop :=
  forall mem n, mem ∈ t.allMemories -> n ∈ entityNames text mem ->
    firstEntityName text mem = some n

theorem mem_entityNames_of_first {mem : MemoryNode F} {n : String}
    (h : firstEntityName text mem = some n) : n ∈ entityNames text mem :=
  List.mem_of_head? h

theorem everyNameLinked_iff (t : Tables F) : EveryNameLinked text t <-> OneNameEach text t := by
  constructor
  · intro h mem n hmem hn
    rcases (mem_buildEntityMemoryMap text).mp (h.2 mem n hmem hn) with ⟨mem', hmem', hfirst, hid⟩
    have hsame := Tables.mem_allMemories hmem'
    rw [hid, Tables.mem_allMemories hmem] at hsame
    rw [Option.some.inj hsame]
    exact hfirst
  · intro h
    constructor
    · intro n hn
      rcases (mem_allEntityNames text).mp hn with ⟨mem, hmem, hname⟩
      exact (contains_buildEntityMemoryMap text t n).mpr ⟨mem, hmem, h mem n hmem hname⟩
    · intro mem n hmem hn
      exact (mem_buildEntityMemoryMap text).mpr ⟨mem, hmem, h mem n hmem hn, rfl⟩

/-- The list under a name holds the memories whose first name it is, such names are the keys
and known to the other scan, and the scans agree exactly when no memory has two names. -/
theorem entity_memory_map_by_first_name (t : Tables F) :
    (forall n, ((buildEntityMemoryMap text t).find? n).getD [] =
        (t.allMemories.filter (fun mem => decide (firstEntityName text mem = some n))).map
          MemoryNode.id) ∧
      (forall n, (buildEntityMemoryMap text t).contains n = true <->
        exists mem, mem ∈ t.allMemories ∧ firstEntityName text mem = some n) ∧
      (forall n, (buildEntityMemoryMap text t).contains n = true ->
        n ∈ allEntityNames text t) ∧
      (EveryNameLinked text t <-> OneNameEach text t) := by
  refine ⟨find?_buildEntityMemoryMap text t, contains_buildEntityMemoryMap text t, ?_,
    everyNameLinked_iff text t⟩
  intro n hn
  rcases (contains_buildEntityMemoryMap text t n).mp hn with ⟨mem, hmem, hfirst⟩
  exact (mem_allEntityNames text).mpr ⟨mem, hmem, mem_entityNames_of_first text hfirst⟩

section Examples

/-- A memory about two people. -/
def meetingMemory : MemoryNode Rat :=
  { MemoryNode.new ⟨1⟩ 1000 AgentId.nil MemoryType.semantic "alice met bob" [] with
    tags := ["entity:alice", "entity:bob"] }

def trimmedText : TextOps Rat := (calmEnv CognitiveConfig.default).text.atWhitespace

/-- The second name of a memory is a name to resolve, but no key. -/
theorem second_name_is_not_linked :
    ¬ EveryNameLinked trimmedText (worldAfter [Command.store meetingMemory]).tables := by
  intro h
  have hname : "bob" ∈ allEntityNames trimmedText
      (worldAfter [Command.store meetingMemory]).tables := by decide +kernel
  have hkey : (buildEntityMemoryMap trimmedText
      (worldAfter [Command.store meetingMemory]).tables).contains "bob" = false := by
    decide +kernel
  have hlinked := h.1 "bob" hname
  rw [hkey] at hlinked
  cases hlinked

end Examples

end Facade
end MenteDb
