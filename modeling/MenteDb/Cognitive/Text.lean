import MenteDb.Core.Types
import MenteDb.Foundation.Strings

/-!
# Text and similarity

The Unicode operations of the target's string library are parameters.
-/

namespace MenteDb
namespace Cognitive

open Foundation

variable {F : Type}

structure TextOps (F : Type) where
  /-- Words between runs of Unicode white space. -/
  splitWhitespace : String -> List String
  toLowercase : String -> String
  /-- Without leading and trailing Unicode white space. -/
  trim : String -> String
  /-- A number with two decimal places. -/
  fixed2 : F -> String
  /-- A number with three decimal places. -/
  fixed3 : F -> String

/-- The characters of the Unicode property {lit}`White_Space`. -/
def isWhitespace (c : Char) : Bool :=
  (9 <= c.toNat && c.toNat <= 13) || c.toNat == 0x20 || c.toNat == 0x85 || c.toNat == 0xA0 ||
    c.toNat == 0x1680 || (0x2000 <= c.toNat && c.toNat <= 0x200A) || c.toNat == 0x2028 ||
    c.toNat == 0x2029 || c.toNat == 0x202F || c.toNat == 0x205F || c.toNat == 0x3000

theorem toLower_toLower (c : Char) : c.toLower.toLower = c.toLower := by
  unfold Char.toLower
  split
  · rename_i hupper
    split
    · rename_i hagain
      simp [UInt32.le_iff_toNat_le] at hupper hagain
      omega
    · rfl
  · rfl

theorem not_isWhitespace_of_letter {c : Char} (hlow : 65 <= c.toNat) (hhigh : c.toNat <= 122) :
    isWhitespace c = false := by
  unfold isWhitespace
  simp
  omega

theorem isWhitespace_toLower (c : Char) : isWhitespace c.toLower = isWhitespace c := by
  unfold Char.toLower
  split
  · rename_i hupper
    have hlow : 65 <= c.toNat := UInt32.le_iff_toNat_le.mp hupper.1
    have hhigh : c.toNat <= 90 := UInt32.le_iff_toNat_le.mp hupper.2
    have hval : c.val.toNat = c.toNat := rfl
    rw [not_isWhitespace_of_letter (c := c) hlow (by omega), not_isWhitespace_of_letter]
    · show 65 <= (c.val + 32).toNat
      rw [UInt32.toNat_add]
      simp
      omega
    · show (c.val + 32).toNat <= 122
      rw [UInt32.toNat_add]
      simp
      omega
  · rfl

/-- Text operations that cut at white space as the string library does. -/
def TextOps.atWhitespace {F : Type} (text : TextOps F) : TextOps F :=
  { text with
    splitWhitespace := fun s => (Strings.words isWhitespace s.toList).map String.ofList
    trim := fun s => String.ofList (Strings.trimMatches isWhitespace s.toList) }

/-- Operations on texts of ASCII letters. -/
def asciiOps : TextOps Rat where
  splitWhitespace := fun s => (Strings.words isWhitespace s.toList).map String.ofList
  toLowercase := fun s => String.ofList (s.toList.map Char.toLower)
  trim := fun s => String.ofList (Strings.trimMatches isWhitespace s.toList)
  fixed2 := fun _ => ""
  fixed3 := fun _ => ""

/-!
## Words and the texts they are joined to
-/

theorem isWord_of_mem_splitWhitespace (text : TextOps F) {s w : String}
    (h : w ∈ text.atWhitespace.splitWhitespace s) : Strings.IsWord isWhitespace w.toList := by
  rcases List.mem_map.mp h with ⟨chars, hchars, heq⟩
  subst heq
  rw [String.toList_ofList]
  exact Strings.isWord_of_mem_words hchars

theorem splitWhitespace_join (text : TextOps F) {ws : List String}
    (hws : forall w, w ∈ ws -> Strings.IsWord isWhitespace w.toList) :
    text.atWhitespace.splitWhitespace (" ".intercalate ws) = ws := by
  have hwords : Strings.words isWhitespace (Strings.join ' ' (ws.map String.toList)) =
      ws.map String.toList := by
    apply Strings.words_join rfl
    intro w hw
    rcases List.mem_map.mp hw with ⟨v, hv, heq⟩
    rw [← heq]
    exact hws v hv
  have hjoined : (" ".intercalate ws).toList = Strings.join ' ' (ws.map String.toList) := by
    rw [String.toList_intercalate]
    rfl
  show (Strings.words isWhitespace (" ".intercalate ws).toList).map String.ofList = ws
  rw [hjoined, hwords, List.map_map]
  simp

/-- Cosine of the angle between two vectors; zero when their lengths differ. -/
def cosineSimilarity [Scalar F] (a b : List F) : F :=
  if a.length ≠ b.length ∨ a = [] then 0
  else
    let dot := ((a.zip b).map (fun p => p.1 * p.2)).sum
    let denom := Scalar.sqrt ((a.map (fun x => x * x)).sum)
      * Scalar.sqrt ((b.map (fun x => x * x)).sum)
    if denom = 0 then 0 else dot / denom

end Cognitive
end MenteDb
