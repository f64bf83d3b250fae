import BootVolume.Fat.StoredName

/-!
# Directories

A directory is a string of 32-byte slots. Each entry has one slot with its short
name, preceded by the slots of its long name, if it has one, last part first.
-/

namespace BootVolume.Fat

/-- Bytes in a slot. -/
def slotSize : Nat := 32

/-- The attribute of a file that cannot be written. -/
def attrReadOnly : UInt8 := 0x01

/-- The attribute of the volume label. -/
def attrVolume : UInt8 := 0x08

/-- The attribute of a directory. -/
def attrDirectory : UInt8 := 0x10

/-- The attribute of a file. -/
def attrArchive : UInt8 := 0x20

/-- The attributes of a long-name slot. -/
def attrLongName : UInt8 := 0x0F

/-- The slot with the short name of an entry. -/
structure DirectoryEntry where
  short : Bytes
  attributes : UInt8
  caseFlags : UInt8 := 0
  /-- The first cluster, zero if there is none. -/
  cluster : UInt32
  size : UInt32
  deriving DecidableEq, Repr, Inhabited

/-- The bytes of a slot; all times and dates are zero. -/
def DirectoryEntry.encode (e : DirectoryEntry) : Bytes :=
  e.short ++ [e.attributes, e.caseFlags] ++ Bytes.zeros 7 ++
    Bytes.le16 (e.cluster >>> 16).toUInt16 ++ Bytes.zeros 4 ++ Bytes.le16 e.cluster.toUInt16 ++
    Bytes.le32 e.size

/-- The unit at a position of a long-name chain: one zero follows the name, and
0xFFFF fills the rest of the last slot. -/
def longUnit (units : List UInt16) (position : Nat) : UInt16 :=
  match units[position]? with
  | some u => u
  | none => if position = units.length then 0 else 0xFFFF

/-- The bytes of `count` units from `position` on. -/
def longUnits (units : List UInt16) (position count : Nat) : Bytes :=
  (List.range count).flatMap fun i => Bytes.le16 (longUnit units (position + i))

/-- The slot with the given number, counted from 1, of a long name in `count` slots. -/
def longSlot (units : List UInt16) (sum : UInt8) (count number : Nat) : Bytes :=
  let start := (number - 1) * unitsPerSlot
  [UInt8.ofNat number ||| (if number = count then 0x40 else 0)] ++ longUnits units start 5 ++
    [attrLongName, 0, sum] ++ longUnits units (start + 5) 6 ++ [0, 0] ++
    longUnits units (start + 11) 2

/-- The slots of a long name, those with the highest number first. -/
def longSlotsFrom (units : List UInt16) (sum : UInt8) (count : Nat) : Nat → Bytes
  | 0 => []
  | n + 1 => longSlot units sum count (n + 1) ++ longSlotsFrom units sum count n

/-- The slots of an entry under a stored name. -/
def StoredName.encode (n : StoredName) (attributes : UInt8) (cluster size : UInt32) : Bytes :=
  let long := match n.long with
    | some units => longSlotsFrom units (shortSum n.short) n.longSlots n.longSlots
    | none => []
  long ++
    { short := n.short, attributes, caseFlags := n.caseFlags, cluster, size :
        DirectoryEntry }.encode

/-- The bytes of a directory padded with zeros to a whole number of clusters of
`unit` bytes, at least one. -/
def padDirectory (data : Bytes) (unit : Nat) : Bytes :=
  Bytes.fit data ((max data.length 1 + unit - 1) / unit * unit) 0

theorem DirectoryEntry.length_encode (e : DirectoryEntry) (h : e.short.length = 11) :
    e.encode.length = slotSize := by
  simp [encode, slotSize, h]

theorem length_longUnits (units : List UInt16) (position count : Nat) :
    (longUnits units position count).length = 2 * count := by
  induction count with
  | zero => rfl
  | succ n ih =>
      simp only [longUnits, List.range_succ, List.flatMap_append, List.length_append] at ih ⊢
      rw [ih]
      simp
      omega

theorem length_longSlot (units : List UInt16) (sum : UInt8) (count number : Nat) :
    (longSlot units sum count number).length = slotSize := by
  simp [longSlot, length_longUnits, slotSize]

end BootVolume.Fat
