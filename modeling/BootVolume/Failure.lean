import BootVolume.Content.Source
import BootVolume.Newc.Layout

/-!
# Failures of a run

Every run ends in one of these causes: something is wrong with the inputs,
memory could not be had, a file could not be read, or a firmware call failed.
-/

namespace BootVolume

/-- What can be wrong with the inputs. -/
inductive InputError where
  /-- No file is named. -/
  | noFiles
  /-- An argument is neither a known switch nor a well-formed file. -/
  | malformedArgument (argument : String)
  /-- A switch that takes a value stands last. -/
  | missingValue (switch : String)
  /-- The image index is no number of 32 bits. -/
  | badIndex (value : String)
  /-- An archive is malformed, or an entry does not fit into one. -/
  | archive (cause : Newc.ArchiveError)
  /-- A file is too long for the volume. -/
  | fileTooLarge (name : String)
  /-- No file can be started. -/
  | noBootTarget
  deriving DecidableEq, Repr, Inhabited

namespace InputError

/-- The kind of the error in words. -/
def summary : InputError → String
  | noFiles => "no files specified"
  | malformedArgument _ => "malformed argument"
  | missingValue _ => "missing option value"
  | badIndex _ => "invalid image index"
  | archive _ => "bad archive"
  | fileTooLarge _ => "file too large for virtual disk"
  | noBootTarget => "no boot file found"

/-- The error in words, with what it is about. -/
def message (e : InputError) : String :=
  match e with
  | noFiles | noBootTarget => e.summary
  | malformedArgument text | badIndex text | fileTooLarge text => e.summary ++ " '" ++ text ++ "'"
  | missingValue switch => e.summary ++ " for " ++ switch
  | archive cause => e.summary ++ ": " ++ cause.message

end InputError

/-- The firmware calls that can fail. -/
inductive FirmwareStep where
  | installDisk
  | installPartition
  | loadImage
  | handleProtocol
  | startImage
  /-- The started image came back, which a boot manager never should. -/
  | imageReturned
  deriving DecidableEq, Repr, Inhabited

/-- What it means that the call failed. -/
def FirmwareStep.message : FirmwareStep → String
  | installDisk => "could not install disk block device"
  | installPartition => "could not install partition block device"
  | loadImage => "could not load image"
  | handleProtocol => "could not get loaded image protocol"
  | startImage => "could not start image"
  | imageReturned => "boot image returned"

/-- Why a run ended. -/
inductive Failure where
  /-- The inputs are at fault. -/
  | input (cause : InputError)
  /-- `size` bytes for `what` could not be had; there is no status if the firmware
  gave fewer pages than it was asked for. -/
  | allocation (what : String) (size : Nat) (status : Option Status)
  /-- A file could not be read. -/
  | read (file : String) (cause : ReadError)
  /-- A firmware call failed. -/
  | firmware (step : FirmwareStep) (status : Status)
  deriving DecidableEq, Repr, Inhabited

namespace Failure

/-- The part of the program that the failure belongs to. -/
def component : Failure → String
  | input _ => "config"
  | allocation .. => "alloc"
  | read .. => "io"
  | firmware .. => "firmware"

/-- The firmware status that came with the failure. -/
def status? : Failure → Option Status
  | input _ => none
  | allocation _ _ status => status
  | read _ cause => cause.status?
  | firmware _ status => some status

/-- The failure in words. -/
def message : Failure → String
  | input cause => cause.message
  | allocation what size _ =>
      "could not allocate " ++ what ++ " (" ++ toString size ++ " bytes)"
  | read file cause => "could not read " ++ file ++ ": " ++ cause.message
  | firmware step _ => step.message

/-- The failure of a run whose archive could not be rendered. -/
def ofRender : Newc.RenderError → Failure
  | .record cause => .input (.archive cause)
  | .read path cause => .read path cause
  | .bufferTooSmall needed _ => .allocation "archive buffer" needed none

/-- The line that a run ends with. -/
def report (f : Failure) : String :=
  "FATAL [" ++ f.component ++ "] " ++ f.message ++
    (match f.status? with
      | some status => " (status " ++ Text.hex status.toNat ++ ")"
      | none => "") ++ "\r\n"

end Failure

end BootVolume
