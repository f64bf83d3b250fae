/-!
# Blanks and words

The characters with the Unicode property White_Space, and the words of a line:
its longest stretches without a blank.
-/

namespace BootVolume.Text

/-- The 25 code points with the property White_Space, as closed ranges. -/
def blankRanges : List (Nat × Nat) :=
  [(0x0009, 0x000D), (0x0020, 0x0020), (0x0085, 0x0085), (0x00A0, 0x00A0), (0x1680, 0x1680),
   (0x2000, 0x200A), (0x2028, 0x2029), (0x202F, 0x202F), (0x205F, 0x205F), (0x3000, 0x3000)]

/-- A character with the property White_Space. -/
def isBlank (c : Char) : Bool :=
  blankRanges.any fun (low, high) => low ≤ c.toNat && c.toNat ≤ high

theorem isBlank_of_isWhitespace {c : Char} (h : c.isWhitespace = true) : isBlank c = true := by
  simp only [Char.isWhitespace, Bool.or_eq_true, decide_eq_true_eq] at h
  obtain (((rfl | rfl) | rfl) | rfl) := h <;> decide

example : (blankRanges.map fun (low, high) => high + 1 - low).sum = 25 := by decide

/-- The words of `cs`, where `word` holds the characters of the current word so
far, last one first. -/
def wordsFrom (word : List Char) : List Char → List String
  | [] => if word.isEmpty then [] else [String.ofList word.reverse]
  | c :: rest =>
      if isBlank c then
        if word.isEmpty then wordsFrom [] rest
        else String.ofList word.reverse :: wordsFrom [] rest
      else wordsFrom (c :: word) rest

/-- The words of a line, in order. -/
def words (line : String) : List String := wordsFrom [] line.toList

end BootVolume.Text
