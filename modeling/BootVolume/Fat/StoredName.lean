import BootVolume.Fat.Checksum
import BootVolume.Text.Hex
import BootVolume.Text.Utf16
import BootVolume.Text.Utf8

/-!
# How names are stored

A name that fits the old form of eight characters and three, in letters of one
case on each side of the dot, is stored in that form alone, in upper case with
flags for its case. Any other name is stored as UTF-16 units beside a short
name made from a checksum.
-/

namespace BootVolume.Fat

/-- A name as a directory holds it. -/
structure StoredName where
  /-- The eleven bytes of the short name. -/
  short : Bytes
  /-- Which parts of the short name are shown in lower case. -/
  caseFlags : UInt8
  /-- The units of the name, where the short name cannot carry it. -/
  long : Option (List UInt16)
  deriving DecidableEq, Repr, Inhabited

/-- The flag of a short name whose base is shown in lower case. -/
def lowerBase : UInt8 := 0x08

/-- The flag of a short name whose extension is shown in lower case. -/
def lowerExtension : UInt8 := 0x10

/-- The most units that a long name has. -/
def maxLongName : Nat := 255

/-- The number of units in a long-name slot. -/
def unitsPerSlot : Nat := 13

/-- The characters besides letters and digits that a short name may have. -/
def shortPunctuation : List Char := "$%'-_@~\x60!()\x7b\x7d^#&".toList

/-- A character that a short name may have. -/
def isShortChar (c : Char) : Bool := c.isAlphanum || shortPunctuation.contains c

/-- The parts of a name before and behind its last dot; a name without a dot is all
base. -/
def splitExtension (name : List Char) : List Char × List Char :=
  match name.reverse.dropWhile (· != '.') with
  | _ :: base => (base.reverse, (name.reverse.takeWhile (· != '.')).reverse)
  | [] => (name, [])

/-- The case flag of one part of a short name, or nothing if the part has letters of
both cases. -/
def caseFlag? (part : List Char) (flag : UInt8) : Option UInt8 :=
  match part.any Char.isLower, part.any Char.isUpper with
  | true, true => none
  | true, false => some flag
  | false, _ => some 0

/-- Characters as upper-case bytes, padded with spaces to `width`. -/
def padUpper (part : List Char) (width : Nat) : Bytes :=
  Bytes.fit (part.map fun c => UInt8.ofNat c.toUpper.toNat) width 0x20

/-- The short form of a name with its case flags, if it has one. -/
def shortForm? (name : String) : Option (Bytes × UInt8) :=
  let (base, extension) := splitExtension name.toList
  if base ≠ [] ∧ base.length ≤ 8 ∧ extension.length ≤ 3 ∧ (base ++ extension).all isShortChar then
    match caseFlag? base lowerBase, caseFlag? extension lowerExtension with
    | some b, some e => some (padUpper base 8 ++ padUpper extension 3, b ||| e)
    | _, _ => none
  else none

/-- The short name beside a long one: eight digits of its checksum, and the first
three characters behind the last dot that a short name may have. -/
def hashedShort (name : String) : Bytes :=
  let extension := if name.toList.contains '.' then (splitExtension name.toList).2 else []
  Text.upperHex 8 (crc32 (Text.utf8 name)).toNat ++ padUpper (extension.filter isShortChar) 3

/-- How a name is stored; nothing if it is empty or too long. -/
def storedName? (name : String) : Option StoredName :=
  match shortForm? name with
  | some (short, caseFlags) => some { short, caseFlags, long := none }
  | none =>
      let units := Text.utf16 name
      if units ≠ [] ∧ units.length ≤ maxLongName then
        some { short := hashedShort name, caseFlags := 0, long := some units }
      else none

namespace StoredName

/-- The number of long-name slots. -/
def longSlots (n : StoredName) : Nat :=
  match n.long with
  | some units => (units.length + unitsPerSlot - 1) / unitsPerSlot
  | none => 0

/-- The number of directory slots. -/
def slots (n : StoredName) : Nat := 1 + n.longSlots

end StoredName

end BootVolume.Fat
