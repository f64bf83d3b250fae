import BootVolume.Content.Source
import BootVolume.Files.BootStore
import BootVolume.Files.Role
import BootVolume.Options.Settings

/-!
# Files and containers

A file of the volume has a name, a source, and possibly a patch that is
applied to whatever is read of it. Containers are files that hold other files;
their format is known to the outside world alone, which offers to look inside.
-/

namespace BootVolume.Files

/-- A change made to content as it is read. -/
inductive Patch where
  /-- The references in the boot configuration store lead to `.efi` files. -/
  | bootStore
  /-- A rule of the outside world. -/
  | rule (id : RuleId)
  deriving DecidableEq, Repr, Inhabited

/-- A file of the volume. -/
structure FileEntry where
  name : String
  source : Source
  patch : Option Patch := none
  deriving DecidableEq, Repr, Inhabited

/-- What a container format offers. -/
structure Container (σ : Type) where
  /-- The patch that a container needs while it is read, if any. -/
  patch : Source → Settings → Step σ (Option Patch)
  /-- The file at a path in one of the images of a container, if it is there. -/
  extract : Source → (index : UInt32) → (path : String) → Action σ ReadError (Option Source)

variable {σ : Type}

/-- The container format of a build that knows none: containers are plain files,
and nothing can be taken from them. -/
def Container.opaqueFiles : Container σ where
  patch _ _ := pure none
  extract _ _ path := do
    reportWarn (σ := σ) ("container support not built in, cannot extract " ++ path)
    return none

/-- Apply a patch to bytes that were read from `offset`. -/
def Patch.apply (storage : Storage σ) (offset : Nat) (data : Bytes) :
    Patch → Step σ Bytes
  | .bootStore => do
      let (out, hits) := BootStore.patch data
      hits.forM fun hit =>
        reportDebug ("patched BCD at " ++ Text.hex (offset + hit) ++ ": .exe -> .efi")
      return out
  | .rule id => do
      let out ← Step.outside (storage.patch id offset data)
      return out.val

namespace FileEntry

/-- The last component of the name. -/
def baseName (file : FileEntry) : String := Files.baseName file.name

/-- The claimed length. -/
def length (file : FileEntry) : Nat := file.source.length

/-- The `count` bytes from `offset`, patched if the file has a patch. The patch sees
the bytes of this request and no others. -/
def read (storage : Storage σ) (file : FileEntry) (offset count : Nat) :
    Action σ ReadError Bytes := do
  let data ← file.source.readExact storage offset count
  match file.patch with
  | some patch => patch.apply storage offset data
  | none => return data

end FileEntry

end BootVolume.Files
