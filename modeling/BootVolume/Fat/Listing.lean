import BootVolume.Fat.Directory
import BootVolume.Text.CaseFold
import BootVolume.Text.Utf16

/-!
# Directory listings

What a driver shows of the slots of a directory: each short-name slot is an
entry, and the long-name slots before it, put in the order of their numbers,
give its name. Without them the name is the short one, in the case that its
flags tell. The first slot that starts with zero ends the directory.

* `slotsIn_append`: slots of whole directories stand one behind the other.
-/

namespace BootVolume.Fat

/-- An entry of a directory as a driver shows it. -/
structure Listed where
  /-- The name that is shown. -/
  name : String
  /-- The eleven bytes of the short name. -/
  short : Bytes
  /-- Whether the name comes from long-name slots. -/
  isLong : Bool
  attributes : UInt8
  /-- The first cluster, zero if there is none. -/
  cluster : Nat
  size : Nat
  deriving DecidableEq, Repr, Inhabited

namespace Listed

/-- Whether the entry is the label of the volume. -/
def isLabel (item : Listed) : Bool := item.attributes &&& attrVolume != 0

/-- Whether the entry is a directory. -/
def isDirectory (item : Listed) : Bool := item.attributes &&& attrDirectory != 0

end Listed

/-! ## Names -/

/-- Bytes as the ASCII characters they stand for. -/
def asciiText (part : Bytes) : List Char := part.map fun b => Char.ofNat b.toNat

/-- A part of a short name without the spaces behind it. -/
def trimSpaces (part : List Char) : List Char := (part.reverse.dropWhile (· == ' ')).reverse

/-- A part of a short name as it is shown. -/
def shownPart (part : Bytes) (isLower : Bool) : List Char :=
  let cs := trimSpaces (asciiText part)
  if isLower then cs.map Char.toLower else cs

/-- A short name as it is shown. -/
def shownShort (short : Bytes) (caseFlags : UInt8) : String :=
  let base := shownPart (short.take 8) (caseFlags &&& lowerBase != 0)
  let extension := shownPart (short.drop 8) (caseFlags &&& lowerExtension != 0)
  String.ofList (if extension.isEmpty then base else base ++ '.' :: extension)

/-- The number and the units of a long-name slot. -/
structure LongPart where
  number : Nat
  units : List UInt16
  deriving DecidableEq, Repr, Inhabited

/-- The `count` units at a position of a slot. -/
def unitsAt (slot : Bytes) (offset count : Nat) : List UInt16 :=
  (List.range count).map fun i => UInt16.ofNat (Bytes.word16 slot (offset + 2 * i))

/-- What a long-name slot says. -/
def LongPart.ofSlot (slot : Bytes) : LongPart where
  number := (slot.headD 0 &&& 0x1F).toNat
  units := unitsAt slot 1 5 ++ unitsAt slot 14 6 ++ unitsAt slot 28 2

/-- The name that the parts of a long name spell, up to the first zero. -/
def longName (parts : List LongPart) : String :=
  let ordered := parts.mergeSort fun a b => decide (a.number ≤ b.number)
  Text.ofUtf16Lossy ((ordered.flatMap (·.units)).takeWhile (· != 0))

/-! ## Entries -/

/-- The byte at a position of a slot. -/
def slotByte (slot : Bytes) (position : Nat) : UInt8 := slot.getD position 0

/-- The entry of a short-name slot with the given parts of a long name before it. -/
def Listed.ofSlot (parts : List LongPart) (slot : Bytes) : Listed where
  name :=
    if parts.isEmpty then shownShort (slot.take 11) (slotByte slot 12) else longName parts
  short := slot.take 11
  isLong := !parts.isEmpty
  attributes := slotByte slot 11
  cluster := Bytes.word16 slot 20 * 0x10000 + Bytes.word16 slot 26
  size := Bytes.word32 slot 28

/-- The entries of the rest of a directory; `parts` are the long-name slots before it
that no entry has used yet. -/
def listSlots (parts : List LongPart) : List Bytes → List Listed
  | [] => []
  | slot :: rest =>
      if slotByte slot 0 = 0 then []
      else if slotByte slot 11 = attrLongName then
        listSlots (parts ++ [LongPart.ofSlot slot]) rest
      else Listed.ofSlot parts slot :: listSlots [] rest

/-- The slots of a directory. -/
def slotsIn (data : Bytes) : List Bytes :=
  (List.range (data.length / slotSize)).map fun i => Bytes.slice data (slotSize * i) slotSize

/-- The entries of a directory. -/
def listing (data : Bytes) : List Listed := listSlots [] (slotsIn data)

theorem slotsIn_append (a b : Bytes) (h : a.length % slotSize = 0) :
    slotsIn (a ++ b) = slotsIn a ++ slotsIn b := by
  obtain ⟨k, hk⟩ : ∃ k, a.length = slotSize * k := Nat.dvd_of_mod_eq_zero h
  have hs : 0 < slotSize := by decide
  have hcount : (a ++ b).length / slotSize = k + b.length / slotSize := by
    rw [List.length_append, hk, Nat.mul_add_div hs]
  have ha : a.length / slotSize = k := by rw [hk, Nat.mul_div_cancel_left _ hs]
  unfold slotsIn
  rw [hcount, ha, List.range_add, List.map_append, List.map_map]
  congr 1
  · apply List.map_congr_left
    intro i hi
    have hi : i < k := List.mem_range.1 hi
    have hle : slotSize * i + slotSize ≤ slotSize * k := by
      rw [← Nat.mul_succ]
      exact Nat.mul_le_mul_left _ hi
    simp only [Bytes.slice]
    rw [List.drop_append_of_le_length (by omega), List.take_append_of_le_length]
    simp only [List.length_drop]
    omega
  · apply List.map_congr_left
    intro i _
    simp only [Function.comp_apply, Bytes.slice, Nat.mul_add, ← hk, List.drop_append]
    rw [List.drop_eq_nil_of_le (by omega)]
    simp

end BootVolume.Fat
