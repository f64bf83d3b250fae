import BootVolume.Newc.Reader

/-!
# Streams of records

Archives as any archiver may write them: digits of either case, names with any
number of NUL bytes behind them, padding that need not be zero, and zero bytes
between records. A record is a `WrittenRecord` with the freedom it has;
`WrittenRecord.IsProper` says what the format demands of it, and
`recordsOf` which records a stream holds.
-/

namespace BootVolume.Newc

/-- A record with everything that an archiver chooses. -/
structure WrittenRecord where
  /-- How many zero bytes stand before the record. -/
  gap : Nat
  header : Header
  /-- The header as it is written. -/
  headerText : Bytes
  name : String
  /-- How many NUL bytes stand behind the name. -/
  nuls : Nat
  namePadding : Bytes
  data : Bytes
  dataPadding : Bytes
  deriving DecidableEq, Repr, Inhabited

namespace WrittenRecord

/-- A hexadecimal digit, or another byte, with the letters A to F in lower case. -/
def foldDigit (b : UInt8) : UInt8 := if 65 ≤ b ∧ b ≤ 70 then b + 32 else b

/-- What the format demands of a record before its paddings: the header is spelled in
digits of either case, and its sizes are those of the name, NUL bytes included, and of
the content. -/
structure IsProper (r : WrittenRecord) : Prop where
  spelled : r.headerText.map foldDigit = r.header.encode
  name_size : r.header.namesize.toNat = (Text.utf8 r.name).length + r.nuls
  name_end : (Text.utf8 r.name).getLast? ≠ some 0
  data_size : r.header.filesize.toNat = r.data.length

/-- Both paddings reach to a multiple of four, counted from the start of the record. -/
structure IsPadded (r : WrittenRecord) : Prop where
  name_padding : r.namePadding.length = padding (headerLength + r.header.namesize.toNat)
  data_padding : r.dataPadding.length = padding r.data.length

/-- The paddings of the last record of a stream: the one behind the content may fall
short, and the one behind the name as well if there is no content. -/
structure IsLastPadded (r : WrittenRecord) : Prop where
  name_padding : r.namePadding.length = padding (headerLength + r.header.namesize.toNat) ∨
    (r.data = [] ∧ r.dataPadding = [] ∧
      r.namePadding.length ≤ padding (headerLength + r.header.namesize.toNat))
  data_padding : r.dataPadding.length ≤ padding r.data.length

/-- The bytes of a record from its header on. -/
def body (r : WrittenRecord) : Bytes :=
  r.headerText ++ Text.utf8 r.name ++ Bytes.zeros r.nuls ++ r.namePadding ++ r.data ++
    r.dataPadding

/-- The bytes of a record and the zero bytes before it. -/
def encode (r : WrittenRecord) : Bytes := Bytes.zeros r.gap ++ r.body

/-- What a reader finds of a record that starts at an offset. -/
def found (r : WrittenRecord) (offset : Nat) : Record where
  header := r.header
  name := r.name
  data := r.data
  offset := offset

end WrittenRecord

/-- Whether records make up a stream. -/
def IsStream : List WrittenRecord → Prop
  | [] => True
  | [r] => r.IsProper ∧ r.IsLastPadded
  | r :: rest => r.IsProper ∧ r.IsPadded ∧ IsStream rest

/-- The bytes of a stream. -/
def streamBytes (rs : List WrittenRecord) : Bytes := rs.flatMap (·.encode)

/-- The records of a stream that starts at an offset. -/
def recordsOf (offset : Nat) : List WrittenRecord → List Record
  | [] => []
  | r :: rest => r.found (offset + r.gap) :: recordsOf (offset + r.encode.length) rest

end BootVolume.Newc
