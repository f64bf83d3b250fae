/-!
# Bytes

Byte strings as lists, and the few shapes from which every record of this
library is put together: zero filling, slices, and little-endian words of a
fixed width.

* `toNatLE_ofNatLE`: a word of `width` bytes reads back modulo `wordCount width`.
* `length_slice`, `length_fit`: the shapes have the lengths they claim.
-/

namespace BootVolume

/-- A byte string. -/
abbrev Bytes := List UInt8

namespace Bytes

/-- `count` zero bytes. -/
def zeros (count : Nat) : Bytes := List.replicate count 0

/-- The bytes of `data` at positions `offset` up to `offset + count`, as far as
`data` reaches. -/
def slice (data : Bytes) (offset count : Nat) : Bytes := (data.drop offset).take count

/-- `data` cut or padded with `filler` at the end to exactly `count` bytes. -/
def fit (data : Bytes) (count : Nat) (filler : UInt8) : Bytes :=
  data.take count ++ List.replicate (count - data.length) filler

/-- `data` with `piece` written over it from position `offset`. -/
def splice (data : Bytes) (offset : Nat) (piece : Bytes) : Bytes :=
  data.take offset ++ piece ++ data.drop (offset + piece.length)

/-- The code points of a text that has only ASCII characters, one byte each. -/
def ascii (text : String) : Bytes := text.toList.map fun c => UInt8.ofNat c.toNat

@[simp] theorem length_zeros (count : Nat) : (zeros count).length = count := by
  simp [zeros]

theorem length_slice (data : Bytes) (offset count : Nat) :
    (slice data offset count).length = min count (data.length - offset) := by
  simp [slice]

@[simp] theorem length_fit (data : Bytes) (count : Nat) (filler : UInt8) :
    (fit data count filler).length = count := by
  simp only [fit, List.length_append, List.length_take, List.length_replicate]
  omega

theorem length_splice (data : Bytes) (offset : Nat) (piece : Bytes)
    (h : offset + piece.length ≤ data.length) :
    (splice data offset piece).length = data.length := by
  simp only [splice, List.length_append, List.length_take, List.length_drop]
  omega

/-! ## Little-endian words -/

/-- The number of different words of `width` bytes. -/
def wordCount : Nat → Nat
  | 0 => 1
  | width + 1 => 256 * wordCount width

/-- The least number that does not fit into 32 bits. -/
def limit32 : Nat := 0x100000000

/-- The lowest `width` bytes of `n`, least significant first. -/
def ofNatLE : Nat → Nat → Bytes
  | 0, _ => []
  | width + 1, n => UInt8.ofNat n :: ofNatLE width (n / 256)

/-- The number whose base-256 digits are the given bytes, least significant
first. -/
def toNatLE : Bytes → Nat
  | [] => 0
  | b :: rest => b.toNat + 256 * toNatLE rest

@[simp] theorem length_ofNatLE (width n : Nat) : (ofNatLE width n).length = width := by
  induction width generalizing n with
  | zero => rfl
  | succ width ih => simp [ofNatLE, ih]

theorem toNatLE_ofNatLE (width n : Nat) : toNatLE (ofNatLE width n) = n % wordCount width := by
  induction width generalizing n with
  | zero => simp [ofNatLE, toNatLE, wordCount, Nat.mod_one]
  | succ width ih =>
      have hb : (UInt8.ofNat n).toNat = n % 256 := by simp
      rw [ofNatLE, toNatLE, ih, hb, wordCount, Nat.mod_mul]

/-- A 16-bit word as two bytes. -/
def le16 (v : UInt16) : Bytes := ofNatLE 2 v.toNat

/-- A 32-bit word as four bytes. -/
def le32 (v : UInt32) : Bytes := ofNatLE 4 v.toNat

/-- The low 64 bits of a number as eight bytes. -/
def le64 (n : Nat) : Bytes := ofNatLE 8 n

/-- The 16-bit word at `offset`; bytes past the end count as absent. -/
def word16 (data : Bytes) (offset : Nat) : Nat := toNatLE (slice data offset 2)

/-- The 32-bit word at `offset`; bytes past the end count as absent. -/
def word32 (data : Bytes) (offset : Nat) : Nat := toNatLE (slice data offset 4)

/-- The 64-bit word at `offset`; bytes past the end count as absent. -/
def word64 (data : Bytes) (offset : Nat) : Nat := toNatLE (slice data offset 8)

@[simp] theorem length_le16 (v : UInt16) : (le16 v).length = 2 := length_ofNatLE 2 _

@[simp] theorem length_le32 (v : UInt32) : (le32 v).length = 4 := length_ofNatLE 4 _

@[simp] theorem length_le64 (n : Nat) : (le64 n).length = 8 := length_ofNatLE 8 _

end Bytes

end BootVolume
