import BootVolume.Newc.Header
import BootVolume.Text.Utf8

/-!
# Reading archives

The records of a byte string that holds one or more newc archives, in order,
directories and trailers included. Zero bytes before a record are skipped, and
the first malformed record ends the list with its error.
-/

namespace BootVolume.Newc

/-- A record of an archive. -/
structure Record where
  header : Header
  /-- The name without the NUL bytes at its end. -/
  name : String
  data : Bytes
  /-- Where the record starts. -/
  offset : Nat
  deriving DecidableEq, Repr, Inhabited

namespace Record

/-- Whether this record ends an archive. -/
def isTrailer (r : Record) : Bool := r.name == trailerName

/-- Whether this record is a directory. -/
def isDirectory (r : Record) : Bool := r.header.isDirectory

/-- Whether this record is a regular file. -/
def isFile (r : Record) : Bool := r.header.isRegular && !r.isTrailer

end Record

/-- A name field without the NUL bytes at its end. -/
def stripNuls (raw : Bytes) : Bytes := (raw.reverse.dropWhile (· == 0)).reverse

/-- A record together with the length it takes up, padding included. -/
structure Taken where
  record : Record
  length : Nat
  length_pos : 0 < length

/-- The record at the start of `data`, which is the part of an archive from
`offset` on. The padding at its end may be missing; that behind the name may be
missing too if there is no content. -/
def takeRecord (data : Bytes) (offset : Nat) : Except ArchiveError Taken := do
  let header ← Header.parse data offset
  let nameLength := header.namesize.toNat
  if data.length < headerLength + nameLength then
    throw (.truncated offset)
  let some name := Text.ofUtf8? (stripNuls (Bytes.slice data headerLength nameLength))
    | throw (.badName offset)
  let start := recordStart nameLength
  let size := header.filesize.toNat
  if size ≠ 0 ∧ data.length < start + size then
    throw (.truncated offset)
  return {
    record := { header, name, data := Bytes.slice data start size, offset }
    length := start + align4 size
    length_pos := by
      have := le_align4 (headerLength + nameLength)
      simp only [start, recordStart, headerLength] at *
      omega
  }

/-- The records of `data`, which is the part of an archive from `offset` on. -/
def recordsFrom (offset : Nat) (data : Bytes) : List (Except ArchiveError Record) :=
  match _h : data.dropWhile (· == 0) with
  | [] => []
  | b :: rest =>
      let start := offset + (data.length - (b :: rest).length)
      match takeRecord (b :: rest) start with
      | .error cause => [.error cause]
      | .ok taken =>
          .ok taken.record :: recordsFrom (start + taken.length) ((b :: rest).drop taken.length)
termination_by data.length
decreasing_by
  have hle : (b :: rest).length ≤ data.length := by
    rw [← _h]
    exact (List.dropWhile_sublist _).length_le
  have hpos := taken.length_pos
  simp only [List.length_drop, List.length_cons] at *
  omega

/-- The records of an archive, with the error that ends it, if there is one. -/
def records (data : Bytes) : List (Except ArchiveError Record) := recordsFrom 0 data

end BootVolume.Newc
