import BootVolume.Fat.Directory
import BootVolume.Files.Catalog

/-!
# Which files are visible

The root directory of the volume is flat: it shows each file under the last
component of its name. Of several files with the same last component the one
registered last is shown, at the place of the first. Left out are files whose
name cannot be stored, files that clash with the directories of the volume, and
files other than the boot target under the name that belongs to it.
-/

namespace BootVolume.Image

open Fat Files

/-- The short name of the directory that holds boot files. -/
def bootDirectory : Bytes := Bytes.ascii "BOOT       "

/-- The short name of the directory that holds installation files. -/
def sourcesDirectory : Bytes := Bytes.ascii "SOURCES    "

/-- The short name of the directory that the firmware looks into. -/
def firmwareDirectory : Bytes := Bytes.ascii "EFI        "

/-- The directories that lead back to the root, so that the flat set of files is
found under the usual paths as well. -/
def rootAliases : List Bytes := [bootDirectory, sourcesDirectory]

/-- Whether a short name is that of a directory of the volume. -/
def isReserved (short : Bytes) : Bool := rootAliases.contains short || short == firmwareDirectory

/-- A file that is shown in the root directory. -/
structure Visible where
  /-- The position of the file in its set. -/
  index : Nat
  file : FileEntry
  stored : StoredName
  deriving DecidableEq, Repr, Inhabited

/-- Why a file is not shown. -/
inductive Omission where
  | unstorable
  | reserved
  | notBootTarget
  deriving DecidableEq, Repr, Inhabited

/-- What is reported about a file that is not shown. -/
def Omission.warning (o : Omission) (file : FileEntry) : String :=
  file.name ++
    match o with
    | unstorable => " cannot be stored on the virtual disk, skipping"
    | reserved => " clashes with a boot directory, skipping"
    | notBootTarget => " is not the boot target, skipping"

/-- The stored name of the file at `index`, if it may be shown where the boot target
stands at `boot`. -/
def accept (boot index : Nat) (file : FileEntry) : Except Omission StoredName :=
  match storedName? file.baseName with
  | none => .error .unstorable
  | some stored =>
      if isReserved stored.short then .error .reserved
      else if index ≠ boot ∧ Text.sameName file.baseName bootName then .error .notBootTarget
      else .ok stored

/-- The visible files with one more file taken in, and what is reported about it. -/
def takeIn (boot index : Nat) (shown : List Visible) (file : FileEntry) :
    List Visible × Option String :=
  match accept boot index file with
  | .error omission => (shown, some (omission.warning file))
  | .ok stored =>
      let same (v : Visible) := Text.sameName v.file.baseName file.baseName
      match shown.find? same with
      | some old =>
          (shown.set (shown.findIdx same) { index, file, stored },
            some (file.name ++ " replaces " ++ old.file.name))
      | none => (shown ++ [{ index, file, stored }], none)

/-- The visible files of the rest of a set, which starts at `index`, and what is
reported about them. -/
def showFrom (boot index : Nat) (shown : List Visible) :
    List FileEntry → List Visible × List String
  | [] => (shown, [])
  | file :: rest =>
      let (shown, warning) := takeIn boot index shown file
      let (final, warnings) := showFrom boot (index + 1) shown rest
      (final, warning.toList ++ warnings)

/-- The visible files of a set in the order of the directory, and what is reported
about the others. -/
def visibleFiles (set : FileSet) : List Visible × List String :=
  showFrom set.boot 0 [] set.files

end BootVolume.Image
