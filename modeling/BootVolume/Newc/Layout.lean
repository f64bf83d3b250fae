import BootVolume.Content.Source
import BootVolume.Newc.Directories
import BootVolume.Newc.Header

/-!
# Laying out archives

A list of entries becomes a list of pieces, from which both the size of the
archive and its bytes follow: `measure` adds the pieces up, `render` writes them
into a buffer. Named entries in a row form a run, closed by a trailer record;
an entry without a name is an archive of its own, which closes the run and is
copied as it is.
-/

namespace BootVolume.Newc

/-- One input of an archive. -/
structure Entry where
  /-- The name of the file in the archive; an entry without a name is itself an
  archive. -/
  name : Option String
  /-- Where the input comes from, for messages. -/
  path : String
  /-- The bytes. -/
  source : Source
  deriving DecidableEq, Repr, Inhabited

/-- Why no archive could be written. -/
inductive RenderError where
  /-- A record cannot be expressed. -/
  | record (cause : ArchiveError)
  /-- An input could not be read. -/
  | read (path : String) (cause : ReadError)
  /-- The buffer ends before the piece that is being written. -/
  | bufferTooSmall (needed available : Nat)
  deriving DecidableEq, Repr, Inhabited

/-- The failure in words. -/
def RenderError.message : RenderError → String
  | record cause => cause.message
  | read path cause => "could not read " ++ path ++ ": " ++ cause.message
  | bufferTooSmall needed available =>
      "archive buffer too small: need " ++ toString needed ++ " bytes, have " ++
        toString available

/-- A piece of an archive. -/
inductive Piece where
  /-- Zero bytes up to a multiple of four. -/
  | align
  /-- Bytes known in advance. -/
  | bytes (data : Bytes)
  /-- The content of an entry. -/
  | content (entry : Entry)
  /-- No archive can be written past this point. -/
  | refusal (cause : ArchiveError)
  deriving DecidableEq, Repr, Inhabited

/-- The pieces of a record before its content. -/
def recordHead (name : String) (mode filesize : UInt32) : List Piece :=
  let raw := Text.utf8 name
  if raw.length < Bytes.limit32 then
    [.bytes (Header.make mode filesize (UInt32.ofNat raw.length)).encode, .bytes raw, .align]
  else
    [.refusal (.nameTooLong raw.length)]

/-- The record that closes a run. -/
def trailer : List Piece := recordHead trailerName 0 0

/-- The record of a directory. -/
def directoryHead (dir : Ancestor) : List Piece := recordHead dir.path modeDirectory 0

/-- The pieces of a file record before its content. -/
def fileHead (name : String) (length : Nat) : List Piece :=
  if length < Bytes.limit32 then recordHead name modeFile (UInt32.ofNat length)
  else [.refusal (.fileTooLarge length)]

/-- The pieces of the rest of an archive, where `dirs` are the directories already
written in the current run and `inRun` says whether a run is open. -/
def layoutFrom (dirs : Directories) (inRun : Bool) : List Entry → List Piece
  | [] => if inRun then .align :: trailer else []
  | entry :: rest =>
      match entry.name with
      | some name =>
          let (dirs, created) := dirs.insertParents name
          .align :: created.flatMap directoryHead ++ fileHead name entry.source.length ++
            .content entry :: layoutFrom dirs true rest
      | none =>
          .align :: (if inRun then trailer else []) ++
            .content entry :: layoutFrom .empty false rest

/-- The pieces of the archive of a list of entries. -/
def layout (entries : List Entry) : List Piece := layoutFrom .empty false entries

/-! ## Size -/

/-- The position after the given pieces, counted in 64-bit words. -/
def measureFrom (position : UInt64) : List Piece → Except ArchiveError UInt64
  | [] => .ok position
  | .align :: rest => measureFrom (alignWord position) rest
  | .bytes data :: rest => measureFrom (position + UInt64.ofNat data.length) rest
  | .content entry :: rest => measureFrom (position + UInt64.ofNat entry.source.length) rest
  | .refusal cause :: _ => .error cause

/-- The size of the archive of a list of entries. -/
def measure (entries : List Entry) : Except ArchiveError UInt64 := measureFrom 0 (layout entries)

/-! ## Bytes -/

variable {σ : Type}

/-- Whether `count` more bytes fit behind `position` into a buffer of `available`
bytes. The size asked for in the failure stops at the largest 64-bit word. -/
def reserve (available position count : Nat) : Except RenderError Unit :=
  if position + count ≤ available then .ok ()
  else .error (.bufferTooSmall (min (position + count) 0xFFFFFFFFFFFFFFFF) available)

/-- The bytes of a piece that stands at `position` in a buffer of `available`
bytes. -/
def Piece.render (storage : Storage σ) (available position : Nat) :
    Piece → Action σ RenderError Bytes
  | .align => do
      reserve available position (padding position)
      return Bytes.zeros (padding position)
  | .bytes data => do
      reserve available position data.length
      return data
  | .content entry => do
      reserve available position entry.source.length
      Action.mapError (.read entry.path) (entry.source.readExact storage 0 entry.source.length)
  | .refusal cause => throw (.record cause)

/-- The bytes of pieces that start at `position` in a buffer of `available`
bytes. -/
def renderFrom (storage : Storage σ) (available position : Nat) :
    List Piece → Action σ RenderError Bytes
  | [] => pure []
  | piece :: rest => do
      let head ← piece.render storage available position
      let tail ← renderFrom storage available (position + head.length) rest
      return head ++ tail

/-- A buffer with an archive at its start. -/
structure Rendered where
  /-- The whole buffer. -/
  buffer : Bytes
  /-- How many of its bytes belong to the archive. -/
  written : Nat
  deriving DecidableEq, Repr, Inhabited

/-- Write the archive of a list of entries into a buffer; what lies behind the
archive keeps its old bytes. -/
def render (storage : Storage σ) (entries : List Entry) (buffer : Bytes) :
    Action σ RenderError Rendered := do
  let archive ← renderFrom storage buffer.length 0 (layout entries)
  return { buffer := archive ++ buffer.drop archive.length, written := archive.length }

end BootVolume.Newc
