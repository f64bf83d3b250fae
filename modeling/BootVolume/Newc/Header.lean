import BootVolume.Bytes
import BootVolume.Text.Hex

/-!
# Record headers of newc archives

A header is the magic `070701` and thirteen fields of eight hexadecimal digits.
It is written with lowercase digits and read with digits of either case.
-/

namespace BootVolume.Newc

/-- The fields of a header, in the order of the format. -/
inductive Field where
  | ino
  | mode
  | uid
  | gid
  | nlink
  | mtime
  | filesize
  | devmajor
  | devminor
  | rdevmajor
  | rdevminor
  | namesize
  | check
  deriving DecidableEq, Repr, Inhabited

namespace Field

/-- All fields in the order of the format. -/
def all : List Field :=
  [ino, mode, uid, gid, nlink, mtime, filesize, devmajor, devminor, rdevmajor, rdevminor,
   namesize, check]

/-- The name of a field. -/
def label : Field → String
  | ino => "ino"
  | mode => "mode"
  | uid => "uid"
  | gid => "gid"
  | nlink => "nlink"
  | mtime => "mtime"
  | filesize => "filesize"
  | devmajor => "devmajor"
  | devminor => "devminor"
  | rdevmajor => "rdevmajor"
  | rdevminor => "rdevminor"
  | namesize => "namesize"
  | check => "check"

/-- How many fields stand before this one. -/
def position (f : Field) : Nat := all.idxOf f

end Field

/-- Why an archive is not well-formed, or an entry does not fit into one. The
offset is that of the record. -/
inductive ArchiveError where
  /-- The record does not start with the magic. -/
  | badMagic (offset : Nat)
  /-- The data end inside the record. -/
  | truncated (offset : Nat)
  /-- A field holds something other than hexadecimal digits. -/
  | badField (offset : Nat) (field : Field)
  /-- The name is not UTF-8. -/
  | badName (offset : Nat)
  /-- The name has more bytes than its size field can say. -/
  | nameTooLong (length : Nat)
  /-- The content has more bytes than its size field can say. -/
  | fileTooLarge (length : Nat)
  deriving DecidableEq, Repr, Inhabited

namespace ArchiveError

/-- The kind of the error in words. -/
def summary : ArchiveError → String
  | badMagic _ => "bad record magic"
  | truncated _ => "truncated record"
  | badField _ _ => "non-hex header field"
  | badName _ => "record name is not UTF-8"
  | nameTooLong _ => "name exceeds the namesize field"
  | fileTooLarge _ => "content exceeds the filesize field"

/-- The error in words, with its place or size. -/
def message (e : ArchiveError) : String :=
  match e with
  | badMagic offset | truncated offset | badName offset => e.summary ++ " at " ++ Text.hex offset
  | badField offset field =>
      e.summary ++ " '" ++ field.label ++ "' at " ++ Text.hex offset
  | nameTooLong length | fileTooLarge length => e.summary ++ " (" ++ toString length ++ " bytes)"

end ArchiveError

/-! ## Sizes -/

/-- The least multiple of four that is not below `n`. -/
def align4 (n : Nat) : Nat := (n + 3) / 4 * 4

/-- How many bytes are missing from `n` to a multiple of four. -/
def padding (n : Nat) : Nat := align4 n - n

/-- `align4` on 64-bit words, where the topmost values wrap to zero. -/
def alignWord (n : UInt64) : UInt64 := (n + 3) &&& ~~~3

/-- The length of a header. -/
def headerLength : Nat := 110

/-- The length of a header and a name of `nameLength` bytes with its padding. -/
def recordStart (nameLength : Nat) : Nat := align4 (headerLength + nameLength)

theorem le_align4 (n : Nat) : n ≤ align4 n := by
  unfold align4
  omega

theorem add_padding (n : Nat) : n + padding n = align4 n := by
  have := le_align4 n
  unfold padding
  omega

theorem align4_mod (n : Nat) : align4 n % 4 = 0 := by
  unfold align4
  omega

theorem align4_eq_self {n : Nat} (h : n % 4 = 0) : align4 n = n := by
  unfold align4
  omega

/-! ## Headers -/

/-- The first bytes of every record. -/
def magic : Bytes := Bytes.ascii "070701"

/-- The name of the record that ends an archive. -/
def trailerName : String := "TRAILER!!!"

/-- The mode of a directory that everybody may use. -/
def modeDirectory : UInt32 := 0o040777

/-- The mode of a regular file that everybody may use. -/
def modeFile : UInt32 := 0o100777

/-- The thirteen fields of a record header. -/
structure Header where
  ino : UInt32 := 0
  mode : UInt32 := 0
  uid : UInt32 := 0
  gid : UInt32 := 0
  nlink : UInt32 := 0
  mtime : UInt32 := 0
  filesize : UInt32 := 0
  devmajor : UInt32 := 0
  devminor : UInt32 := 0
  rdevmajor : UInt32 := 0
  rdevminor : UInt32 := 0
  namesize : UInt32 := 0
  check : UInt32 := 0
  deriving DecidableEq, Repr, Inhabited

namespace Header

/-- The header of a new record: one link, and zero in the fields not given. -/
def make (mode filesize namesize : UInt32) : Header := { mode, filesize, namesize, nlink := 1 }

/-- The value of a field. -/
def value (h : Header) : Field → UInt32
  | .ino => h.ino
  | .mode => h.mode
  | .uid => h.uid
  | .gid => h.gid
  | .nlink => h.nlink
  | .mtime => h.mtime
  | .filesize => h.filesize
  | .devmajor => h.devmajor
  | .devminor => h.devminor
  | .rdevmajor => h.rdevmajor
  | .rdevminor => h.rdevminor
  | .namesize => h.namesize
  | .check => h.check

/-- The header with the given values in its fields. -/
def ofValues (value : Field → UInt32) : Header where
  ino := value .ino
  mode := value .mode
  uid := value .uid
  gid := value .gid
  nlink := value .nlink
  mtime := value .mtime
  filesize := value .filesize
  devmajor := value .devmajor
  devminor := value .devminor
  rdevmajor := value .rdevmajor
  rdevminor := value .rdevminor
  namesize := value .namesize
  check := value .check

@[simp] theorem value_ofValues (value : Field → UInt32) (f : Field) :
    (ofValues value).value f = value f := by
  cases f <;> rfl

/-- The bits of the mode that give the type of the record. -/
def typeBits (h : Header) : UInt32 := h.mode &&& 0o170000

/-- Whether the mode is that of a directory. -/
def isDirectory (h : Header) : Bool := h.typeBits == 0o040000

/-- Whether the mode is that of a regular file. -/
def isRegular (h : Header) : Bool := h.typeBits == 0o100000

/-- The bytes of a header. -/
def encode (h : Header) : Bytes :=
  magic ++ Field.all.flatMap fun f => Text.lowerHex 8 (h.value f).toNat

/-- The value of one field of a header that stands at the start of `data`. -/
def parseField (data : Bytes) (offset : Nat) (f : Field) : Except ArchiveError UInt32 :=
  match Text.ofHex? (Bytes.slice data (6 + 8 * f.position) 8) with
  | some n => .ok (UInt32.ofNat n)
  | none => .error (.badField offset f)

/-- The header at the start of `data`, which is the part of an archive from
`offset` on. Data too short to hold the magic count as truncated, longer data
that do not start with it as no record; of several bad fields the first one is
named. -/
def parse (data : Bytes) (offset : Nat) : Except ArchiveError Header := do
  if 6 ≤ data.length ∧ data.take 6 ≠ magic then
    throw (.badMagic offset)
  if data.length < headerLength then
    throw (.truncated offset)
  let field := parseField data offset
  return {
    ino := ← field .ino
    mode := ← field .mode
    uid := ← field .uid
    gid := ← field .gid
    nlink := ← field .nlink
    mtime := ← field .mtime
    filesize := ← field .filesize
    devmajor := ← field .devmajor
    devminor := ← field .devminor
    rdevmajor := ← field .rdevmajor
    rdevminor := ← field .rdevminor
    namesize := ← field .namesize
    check := ← field .check
  }

theorem length_encode (h : Header) : h.encode.length = headerLength := by
  simp [encode, Field.all, magic, Bytes.ascii, headerLength]

end Header

end BootVolume.Newc
