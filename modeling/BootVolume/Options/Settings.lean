/-!
# Settings

What the command text of a run decides apart from the files: a handful of
switches, the image to take from a container, and where a container adds files.
-/

namespace BootVolume

/-- The settings of a run. -/
structure Settings where
  /-- Graphical boot messages; only reported. -/
  gui : Bool := false
  /-- Leave the references in the boot configuration store as they are. -/
  rawStore : Bool := false
  /-- Leave containers as they are. -/
  rawContainers : Bool := false
  /-- Wait for a key before the boot manager is started. -/
  pause : Bool := false
  /-- Copy all inputs into one archive in memory first. -/
  inMemory : Bool := false
  /-- The image of a container that is used; 0 stands for its boot image. -/
  index : UInt32 := 0
  /-- The directory in which a container puts additional files. -/
  injectDirectory : String := "\\Windows\\System32"
  deriving DecidableEq, Repr, Inhabited

/-- A file named on the command line. -/
structure FileArgument where
  /-- The name the file gets; a file without a name is an archive. -/
  name : Option String
  path : String
  deriving DecidableEq, Repr, Inhabited

end BootVolume
