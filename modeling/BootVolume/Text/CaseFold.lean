/-!
# Names that differ only in case

Names are compared with the letters A to Z folded to lower case and every other
character exact.
-/

namespace BootVolume.Text

/-- A text with the letters A to Z in lower case. -/
def fold (text : String) : List Char := text.toList.map Char.toLower

/-- Equality up to the case of the letters A to Z. -/
def sameName (a b : String) : Bool := fold a == fold b

theorem sameName_iff (a b : String) : sameName a b = true ↔ fold a = fold b := by
  simp [sameName]

@[simp] theorem sameName_refl (a : String) : sameName a a = true := by
  simp [sameName]

theorem sameName_comm (a b : String) : sameName a b = sameName b a := by
  simp [sameName, Bool.beq_comm]

theorem sameName_trans {a b c : String} (hab : sameName a b = true)
    (hbc : sameName b c = true) : sameName a c = true := by
  rw [sameName_iff] at *
  exact hab.trans hbc

/-- A text with the letters a to z in upper case. -/
def upper (text : String) : String := String.ofList (text.toList.map Char.toUpper)

end BootVolume.Text
