import BootVolume.Bytes

/-!
# Hexadecimal text

Two forms occur: numbers in messages (`0x` and as many lowercase digits as the
number needs) and fields of a fixed number of digits inside records.
-/

namespace BootVolume.Text

/-- `0x` and the lowercase hexadecimal digits of `n`, without padding. -/
def hex (n : Nat) : String := "0x" ++ String.ofList (Nat.toDigits 16 n)

/-- The lowest `width` base-16 digits of `n`, most significant first. -/
def nibbles : Nat → Nat → List Nat
  | 0, _ => []
  | width + 1, n => nibbles width (n / 16) ++ [n % 16]

/-- The lowercase digit of a number below 16. -/
def lowerDigit (d : Nat) : UInt8 := UInt8.ofNat (if d < 10 then 48 + d else 87 + d)

/-- The uppercase digit of a number below 16. -/
def upperDigit (d : Nat) : UInt8 := UInt8.ofNat (if d < 10 then 48 + d else 55 + d)

/-- The value of a hexadecimal digit of either case. -/
def digitValue? (b : UInt8) : Option Nat :=
  if 48 ≤ b ∧ b ≤ 57 then some (b.toNat - 48)
  else if 97 ≤ b ∧ b ≤ 102 then some (b.toNat - 87)
  else if 65 ≤ b ∧ b ≤ 70 then some (b.toNat - 55)
  else none

/-- `n` as exactly `width` lowercase digits. -/
def lowerHex (width n : Nat) : Bytes := (nibbles width n).map lowerDigit

/-- `n` as exactly `width` uppercase digits. -/
def upperHex (width n : Nat) : Bytes := (nibbles width n).map upperDigit

/-- The number written in digits of either case, or nothing if some byte is no
digit. -/
def ofHex? (field : Bytes) : Option Nat :=
  field.foldlM (fun value b => (digitValue? b).map (value * 16 + ·)) 0

@[simp] theorem length_nibbles (width n : Nat) : (nibbles width n).length = width := by
  induction width generalizing n with
  | zero => rfl
  | succ width ih => simp [nibbles, ih]

@[simp] theorem length_lowerHex (width n : Nat) : (lowerHex width n).length = width := by
  simp [lowerHex]

@[simp] theorem length_upperHex (width n : Nat) : (upperHex width n).length = width := by
  simp [upperHex]

end BootVolume.Text
