import MenteDb.Sqlite.RoundTrip

/-!
# The columns of a memory

How a node is written to the columns of {lit}`memories` and {lit}`memory_tags`
and how it is read back.  Identifiers are text, timestamps and counters signed
64-bit integers, embeddings blobs of little-endian words, enumerations text, and
attributes a JSON document.  The conversions the standard library and the
serializer provide are collected in a {lit}`Codec`.
-/

namespace MenteDb
namespace Sqlite

open Foundation

variable {F : Type}

/-!
## Words and bytes
-/

/-- The bytes of a word, least significant first. -/
def leBytes (word : UInt32) : List UInt8 :=
  [UInt8.ofNat word.toNat, UInt8.ofNat (word.toNat / 2 ^ 8), UInt8.ofNat (word.toNat / 2 ^ 16),
    UInt8.ofNat (word.toNat / 2 ^ 24)]

def wordOfLe (b0 b1 b2 b3 : UInt8) : UInt32 :=
  UInt32.ofNat (b0.toNat + 2 ^ 8 * b1.toNat + 2 ^ 16 * b2.toNat + 2 ^ 24 * b3.toNat)

theorem wordOfLe_leBytes (word : UInt32) :
    wordOfLe (UInt8.ofNat word.toNat) (UInt8.ofNat (word.toNat / 2 ^ 8))
      (UInt8.ofNat (word.toNat / 2 ^ 16)) (UInt8.ofNat (word.toNat / 2 ^ 24)) = word := by
  have hlt := word.toNat_lt
  apply UInt32.toNat_inj.mp
  simp only [wordOfLe, UInt32.toNat_ofNat', UInt8.toNat_ofNat']
  omega

/-!
## Conversions
-/

/-- What is taken from the standard library, the UUID crate and the serializer.
Scores are single-precision values: {lit}`f32Bits` is the pattern of the nearest
one, {lit}`f32Value` the value of a pattern. -/
structure Codec (F : Type) where
  f32Bits : F -> UInt32
  f32Value : UInt32 -> F
  parseUuid : String -> Option (BitVec 128)
  parseUuid_uuidText : forall uuid, parseUuid (uuidText uuid) = some uuid
  attributesToJson : List (String × AttributeValue F) -> String
  attributesFromJson : String -> Option (List (String × AttributeValue F))

namespace Codec

variable (codec : Codec F)

/-- The {lit}`as f32` of a column that holds a wider number. -/
def asF32 (x : F) : F := codec.f32Value (codec.f32Bits x)

def embeddingToBlob (v : List F) : List UInt8 := v.flatMap (fun x => leBytes (codec.f32Bits x))

/-- Whole words only: the length of a stored blob is a multiple of four. -/
def blobToEmbedding : List UInt8 -> List F
  | b0 :: b1 :: b2 :: b3 :: rest =>
      codec.f32Value (wordOfLe b0 b1 b2 b3) :: blobToEmbedding rest
  | _ => []

include codec in
theorem uuidText_injective {a b : BitVec 128} (h : uuidText a = uuidText b) : a = b := by
  have ha := codec.parseUuid_uuidText a
  rw [h, codec.parseUuid_uuidText b] at ha
  exact (Option.some.inj ha).symm

theorem blobToEmbedding_embeddingToBlob {v : List F}
    (h : forall x, x ∈ v -> codec.asF32 x = x) :
    codec.blobToEmbedding (codec.embeddingToBlob v) = v := by
  induction v with
  | nil => rfl
  | cons x rest ih =>
      have hhead : codec.f32Value (codec.f32Bits x) = x := h x List.mem_cons_self
      have htail := ih (fun y hy => h y (List.mem_cons_of_mem x hy))
      have hblob : codec.embeddingToBlob (x :: rest) =
          UInt8.ofNat (codec.f32Bits x).toNat :: UInt8.ofNat ((codec.f32Bits x).toNat / 2 ^ 8)
            :: UInt8.ofNat ((codec.f32Bits x).toNat / 2 ^ 16)
            :: UInt8.ofNat ((codec.f32Bits x).toNat / 2 ^ 24) :: codec.embeddingToBlob rest := rfl
      rw [hblob, blobToEmbedding, wordOfLe_leBytes, hhead, htail]

end Codec

/-!
## Rows as SQLite holds them
-/

/-- The columns of {lit}`memories` other than its key. -/
structure SqlMemoryRow (F : Type) where
  agentId : String
  spaceId : String
  memoryType : String
  content : String
  embedding : Option (List UInt8)
  createdAt : Int64
  accessedAt : Int64
  accessCount : Int64
  salience : F
  confidence : F
  attributes : String
  validFrom : Option Int64
  validUntil : Option Int64

/-- The two relations that hold the memories. -/
structure SqlDb (F : Type) where
  memories : Assoc String (SqlMemoryRow F)
  memoryTags : Assoc (String × String) Unit

/-- A statement on them. -/
inductive MemoryStatement (F : Type) where
  | store (node : MemoryNode F)
  | invalidate (id : MemoryId) (validUntil : Timestamp)
  | delete (id : MemoryId)

def idText (id : MemoryId) : String := uuidText id.uuid

namespace SqlDb

variable (codec : Codec F)

def empty : SqlDb F where
  memories := Assoc.empty
  memoryTags := Assoc.empty

/-- The parameters of the upsert. -/
def paramsOf (node : MemoryNode F) : SqlMemoryRow F where
  agentId := uuidText node.agentId.uuid
  spaceId := uuidText node.spaceId.uuid
  memoryType := memoryTypeStr node.memoryType
  content := node.content
  embedding := if node.embedding.isEmpty then none else some (codec.embeddingToBlob node.embedding)
  createdAt := node.createdAt.toInt64
  accessedAt := node.accessedAt.toInt64
  accessCount := node.accessCount.toUInt64.toInt64
  salience := node.salience
  confidence := node.confidence
  attributes := codec.attributesToJson node.attributes
  validFrom := node.validFrom.map UInt64.toInt64
  validUntil := node.validUntil.map UInt64.toInt64

/-- Every column but {lit}`created_at` is overwritten. -/
def upsertMemory (db : SqlDb F) (key : String) (row : SqlMemoryRow F) : SqlDb F :=
  { db with
    memories := db.memories.upsert key (fun old =>
      { row with createdAt := (old.map SqlMemoryRow.createdAt).getD row.createdAt }) }

def replaceTags (db : SqlDb F) (key : String) (tags : List String) : SqlDb F :=
  { db with
    memoryTags := tags.foldl (fun table tag => table.insert (key, tag) ())
      (db.memoryTags.deleteWhere (fun k _ => decide (k.1 = key))) }

def execute (db : SqlDb F) : MemoryStatement F -> SqlDb F
  | MemoryStatement.store node =>
      (db.upsertMemory (idText node.id) (paramsOf codec node)).replaceTags (idText node.id)
        node.tags
  | MemoryStatement.invalidate id validUntil =>
      { db with
        memories := db.memories.update (fun k _ => decide (k = idText id))
          (fun _ row => { row with validUntil := some validUntil.toInt64 }) }
  | MemoryStatement.delete id =>
      if db.memories.contains (idText id) then
        { memories := db.memories.erase (idText id)
          memoryTags := db.memoryTags.deleteWhere (fun k _ => decide (k.1 = idText id)) }
      else db

def executeAll (db : SqlDb F) (statements : List (MemoryStatement F)) : SqlDb F :=
  statements.foldl (execute codec) db

def tagsOf (db : SqlDb F) (key : String) : List String :=
  ((db.memoryTags.keys.filter (fun k => decide (k.1 = key))).map Prod.snd).insertionSort
    (fun a b => a <= b)

def nodeOf (key : String) (row : SqlMemoryRow F) (tags : List String) : MemoryNode F where
  id := ((codec.parseUuid key).map MemoryId.mk).getD MemoryId.nil
  agentId := ((codec.parseUuid row.agentId).map AgentId.mk).getD AgentId.nil
  memoryType := parseMemoryType row.memoryType
  embedding := (row.embedding.map codec.blobToEmbedding).getD []
  content := row.content
  createdAt := row.createdAt.toUInt64
  accessedAt := row.accessedAt.toUInt64
  accessCount := row.accessCount.toUInt64.toUInt32
  salience := codec.asF32 row.salience
  confidence := codec.asF32 row.confidence
  spaceId := ((codec.parseUuid row.spaceId).map SpaceId.mk).getD SpaceId.nil
  attributes := (codec.attributesFromJson row.attributes).getD []
  tags := tags
  validFrom := row.validFrom.map Int64.toUInt64
  validUntil := row.validUntil.map Int64.toUInt64

def getMemory (db : SqlDb F) (id : MemoryId) : Option (MemoryNode F) :=
  (db.memories.find? (idText id)).map (fun row =>
    nodeOf codec (idText id) row (db.tagsOf (idText id)))

end SqlDb

/-!
## One node there and back
-/

/-- Finite scores and attributes the serializer reads back. -/
structure Encodable (codec : Codec F) (node : MemoryNode F) : Prop where
  embedding : forall x, x ∈ node.embedding -> codec.asF32 x = x
  salience : codec.asF32 node.salience = node.salience
  confidence : codec.asF32 node.confidence = node.confidence
  attributes : codec.attributesFromJson (codec.attributesToJson node.attributes) =
    some node.attributes

namespace SqlDb

variable {codec : Codec F}

theorem nodeOf_paramsOf {node : MemoryNode F} (h : Encodable codec node) (createdAt : Timestamp)
    (tags : List String) :
    nodeOf codec (idText node.id) { paramsOf codec node with createdAt := createdAt.toInt64 } tags =
      { node with createdAt := createdAt, tags := tags } := by
  have hembedding : ((paramsOf codec node).embedding.map codec.blobToEmbedding).getD [] =
      node.embedding := by
    unfold paramsOf
    by_cases hempty : node.embedding = []
    · simp [hempty]
    · have hblob := codec.blobToEmbedding_embeddingToBlob h.embedding
      simp [hempty, hblob]
  have hinstant : forall at_ : Option Timestamp,
      (at_.map UInt64.toInt64).map Int64.toUInt64 = at_ := by
    intro at_
    cases at_ with
    | none => rfl
    | some t => simp
  unfold nodeOf idText
  rw [hembedding]
  simp only [paramsOf, codec.parseUuid_uuidText, h.salience, h.confidence, h.attributes, hinstant,
    parseMemoryType_memoryTypeStr, UInt64.toUInt64_toInt64, UInt32.toUInt32_toUInt64,
    Option.map_some, Option.getD_some]

end SqlDb

/-!
## A concrete codec

Zero and one in single precision, no attributes, and the hyphenated form of an
identifier.
-/

def hexValue (c : Char) : Nat :=
  if c.toNat < 'a'.toNat then c.toNat - '0'.toNat else c.toNat - 'a'.toNat + 10

/-- Reads the digits of the hyphenated form. -/
def parseHyphenated (s : String) : Option (BitVec 128) :=
  let digits := (s.toList.filter (fun c => decide (c ≠ '-'))).map hexValue
  some (BitVec.ofNat 128 (digits.foldl (fun acc d => acc * 16 + d) 0))

theorem hexValue_digitChar : forall d, d < 16 -> hexValue (Nat.digitChar d) = d := by decide

/-- The base-16 digits of a number, most significant first, add up to it. -/
theorem foldl_digits (k n : Nat) (h : n < 16 ^ k) :
    ((List.range k).map (fun i => n / 16 ^ (k - 1 - i) % 16)).foldl
      (fun acc d => acc * 16 + d) 0 = n := by
  induction k generalizing n with
  | zero =>
      have hzero : n = 0 := Nat.lt_one_iff.mp h
      rw [hzero]
      rfl
  | succ k ih =>
      have hupper : (List.range k).map (fun i => n / 16 ^ (k + 1 - 1 - i) % 16) =
          (List.range k).map (fun i => n / 16 / 16 ^ (k - 1 - i) % 16) := by
        apply List.map_congr_left
        intro i hi
        have hik : i < k := List.mem_range.mp hi
        have hexponent : k + 1 - 1 - i = 1 + (k - 1 - i) := by omega
        rw [hexponent, Nat.div_div_eq_div_mul, Nat.pow_add, Nat.pow_one]
      have hlt : n / 16 < 16 ^ k := by
        rw [Nat.div_lt_iff_lt_mul (by decide)]
        rw [Nat.pow_succ] at h
        exact h
      rw [List.range_succ, List.map_append, List.foldl_append, hupper, ih (n / 16) hlt]
      simp only [List.map_cons, List.map_nil, List.foldl_cons, List.foldl_nil]
      have hlast : k + 1 - 1 - k = 0 := by omega
      rw [hlast, Nat.pow_zero, Nat.div_one]
      omega

theorem parseHyphenated_uuidText (uuid : BitVec 128) :
    parseHyphenated (uuidText uuid) = some uuid := by
  have hchars : (uuidText uuid).toList.filter (fun c => decide (c ≠ '-')) =
      (List.range 32).map (fun i => Nat.digitChar (uuid.toNat / 16 ^ (31 - i) % 16)) := by
    unfold uuidText
    simp [List.range, List.range.loop]
  have hvalues : (List.range 32).map (hexValue ∘
      fun i => Nat.digitChar (uuid.toNat / 16 ^ (31 - i) % 16)) =
        (List.range 32).map (fun i => uuid.toNat / 16 ^ (32 - 1 - i) % 16) := by
    apply List.map_congr_left
    intro i _
    exact hexValue_digitChar _ (Nat.mod_lt _ (by decide))
  have hbound : uuid.toNat < 16 ^ 32 := uuid.isLt
  unfold parseHyphenated
  simp only
  rw [hchars, List.map_map, hvalues, foldl_digits 32 uuid.toNat hbound, BitVec.ofNat_toNat,
    BitVec.setWidth_eq]
def plainCodec : Codec Rat where
  f32Bits x := if x = 1 then 0x3F800000 else 0
  f32Value bits := if bits = 0x3F800000 then 1 else 0
  parseUuid := parseHyphenated
  parseUuid_uuidText := parseHyphenated_uuidText
  attributesToJson _ := "\x7b\x7d"
  attributesFromJson s := if s = "\x7b\x7d" then some [] else none

end Sqlite
end MenteDb
