import BootVolume.Text.CaseFold

/-!
# The roles of files

What a file is for is told by the last component of its name, in letters of
either case: a boot manager, the boot configuration store, a container, or none
of these.
-/

namespace BootVolume.Files

/-- The name under which removable media carry their boot manager. -/
def bootName : String := "bootx64.efi"

/-- The name that a boot manager has on every machine. -/
def genericBootName : String := "bootmgfw.efi"

/-- The name of the boot configuration store. -/
def storeName : String := "BCD"

/-- What the name of a container ends in. -/
def containerExtension : String := ".wim"

/-- Where a container holds the boot manager. -/
def containerBootPath : String := "\\Windows\\Boot\\EFI\\bootmgfw.efi"

/-- Where the firmware looks for the boot manager of a removable medium. -/
def bootFilePath : String := "\\EFI\\BOOT\\" ++ Text.upper bootName

/-- A character that separates the components of a path. -/
def isSeparator (c : Char) : Bool := c == '/' || c == '\\'

/-- The last component of a path. -/
def baseName (path : String) : String :=
  String.ofList (path.toList.reverse.takeWhile (!isSeparator ·)).reverse

/-- What a file is for. -/
inductive Role where
  | bootManager
  | bootStore
  | container
  | plain
  deriving DecidableEq, Repr, Inhabited

/-- Whether a name is more than the extension of containers and ends in it. -/
def isContainerName (base : String) : Bool :=
  let cs := Text.fold base
  let ext := containerExtension.toList
  ext.length < cs.length && cs.drop (cs.length - ext.length) == ext

/-- The role of a file with the given name. -/
def roleOf (name : String) : Role :=
  let base := baseName name
  if Text.sameName base bootName || Text.sameName base genericBootName then .bootManager
  else if Text.sameName base storeName then .bootStore
  else if isContainerName base then .container
  else .plain

end BootVolume.Files
