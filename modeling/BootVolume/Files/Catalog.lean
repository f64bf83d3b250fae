import BootVolume.Failure
import BootVolume.Files.Entry
import BootVolume.Newc.Reader

/-!
# The catalog

Files are registered one after the other under names that are unique up to the
case of letters; registering a name again replaces the file where it stands.
On the way the catalog settles on a boot target: the first file with the name of
a boot manager, or else the boot manager taken from the first container that
has one. `Catalog.finish` closes the catalog into a file set with a boot target.
-/

namespace BootVolume.Files

/-- Where the boot target came from. -/
inductive BootOrigin where
  /-- It was registered under its own name. -/
  | registered
  /-- It was taken from a container. -/
  | extracted
  deriving DecidableEq, Repr, Inhabited

/-- The files so far, in the order in which their names came up, and the position
of the boot target among them. -/
structure Catalog where
  files : List FileEntry := []
  boot : Option (Nat × BootOrigin) := none
  boot_lt : ∀ p ∈ boot, p.1 < files.length := by simp

namespace Catalog

/-- A catalog without files. -/
def empty : Catalog := {}

instance : Inhabited Catalog := ⟨empty⟩

/-- The position of the file with the given name. -/
def position? (c : Catalog) (name : String) : Option Nat :=
  c.files.findIdx? fun file => Text.sameName file.name name

/-- The file with the given name. -/
def get? (c : Catalog) (name : String) : Option FileEntry :=
  c.files.find? fun file => Text.sameName file.name name

/-- The boot target, as far as it is settled. -/
def bootTarget? (c : Catalog) : Option FileEntry :=
  c.boot.bind fun (index, _) => c.files[index]?

/-- The catalog with `file` at position `index`, in place of what was there. -/
def replace (c : Catalog) (index : Nat) (file : FileEntry) : Catalog where
  files := c.files.set index file
  boot := c.boot
  boot_lt := by simpa using c.boot_lt

/-- The catalog with `file` behind all others. -/
def append (c : Catalog) (file : FileEntry) : Catalog where
  files := c.files ++ [file]
  boot := c.boot
  boot_lt p hp := by
    have := c.boot_lt p hp
    simp only [List.length_append, List.length_singleton]
    omega

/-- The catalog whose boot target stands at `index`. -/
def aim (c : Catalog) (index : Nat) (origin : BootOrigin) (h : index < c.files.length) :
    Catalog where
  files := c.files
  boot := some (index, origin)
  boot_lt p hp := by
    cases hp
    exact h

@[simp] theorem length_replace (c : Catalog) (index : Nat) (file : FileEntry) :
    (c.replace index file).files.length = c.files.length := by
  simp [replace]

@[simp] theorem length_append (c : Catalog) (file : FileEntry) :
    (c.append file).files.length = c.files.length + 1 := by
  simp [append]

/-- A catalog with the position of a file in it. -/
structure Placed where
  catalog : Catalog
  index : Nat
  index_lt : index < catalog.files.length

/-- Put a file in the place of the one with its name, or behind all others if
there is none. -/
def put (c : Catalog) (file : FileEntry) : Placed :=
  match h : c.position? file.name with
  | some index =>
      { catalog := c.replace index file
        index
        index_lt := by
          rw [length_replace]
          exact (List.findIdx?_eq_some_iff_findIdx_eq.1 h).1 }
  | none => { catalog := c.append file, index := c.files.length, index_lt := by simp }

end Catalog

/-- A step on the catalog and the machine that may fail; what was registered before
a failure stays. -/
abbrev Gathering (σ : Type) (α : Type) := ExceptT Failure (StateT Catalog (StateM (Machine σ))) α

/-- The files of a run, with the boot target among them. -/
structure FileSet where
  files : List FileEntry
  /-- The position of the boot target. -/
  boot : Nat
  boot_lt : boot < files.length

/-- The file that is started. -/
def FileSet.bootTarget (set : FileSet) : FileEntry := set.files.get ⟨set.boot, set.boot_lt⟩

namespace Catalog

variable {σ : Type}

/-- Put a file under a name and report it. -/
def insert (name : String) (source : Source) (c : Catalog) : Step σ Placed := do
  if let some old := c.get? name then
    reportDebug ("replacing " ++ old.name ++ " with new content")
  let placed := c.put { name, source }
  reportInfo ("file " ++ toString placed.index ++ ": " ++ name ++ " (" ++
    toString source.length ++ " bytes)")
  return placed

/-- Let the file at `index` be patched as it is read. -/
def patchAt (c : Catalog) (index : Nat) (patch : Option Patch) : Catalog where
  files := c.files.modify index fun file => { file with patch }
  boot := c.boot
  boot_lt := by simpa using c.boot_lt

/-- Settle on the file at `index`, which has the name of a boot manager, unless
another such file came first. -/
def claimBoot (name : String) (placed : Placed) : Step σ Catalog :=
  match placed.catalog.boot with
  | some (_, .registered) => return placed.catalog
  | _ => do
      reportInfo ("found boot file " ++ name)
      return placed.catalog.aim placed.index .registered placed.index_lt

/-- Take the boot manager from a container, if it has one. -/
def extractBoot (container : Container σ) (settings : Settings) (name : String)
    (source : Source) : Gathering σ Unit := do
  let answer ← (container.extract source settings.index containerBootPath).outcome
  match answer with
  | .error cause => throw (.read name cause)
  | .ok none => return
  | .ok (some inner) =>
      reportInfo (σ := σ)
        ("extracted " ++ containerBootPath ++ " from " ++ name ++ " as " ++ bootName)
      let placed ← (← get).insert (σ := σ) bootName inner
      set (placed.catalog.aim placed.index .extracted placed.index_lt)

/-- Register a file and see to what its role asks for. -/
def register (container : Container σ) (settings : Settings) (name : String)
    (source : Source) : Gathering σ Unit := do
  let placed ← (← get).insert (σ := σ) name source
  set placed.catalog
  match roleOf name with
  | .bootManager => set (← claimBoot (σ := σ) name placed)
  | .bootStore =>
      if !settings.rawStore then
        reportDebug (σ := σ) ("patching " ++ name ++ " .exe references")
        modify (·.patchAt placed.index (some .bootStore))
  | .container =>
      if !settings.rawContainers then
        let patch ← container.patch source settings
        modify (·.patchAt placed.index patch)
      if (← get).boot.isNone then
        extractBoot container settings name source
  | .plain => return

/-- Register files one after the other. -/
def registerAll (container : Container σ) (settings : Settings) :
    List (String × Source) → Gathering σ Unit
  | [] => pure ()
  | (name, source) :: rest => do
      register container settings name source
      registerAll container settings rest

/-- The name under which a record is registered: the slashes before it do not belong
to it. -/
def nameOfRecord (record : Newc.Record) : String :=
  String.ofList (record.name.toList.dropWhile (· == '/'))

/-- Register the regular files among records, in order, up to a malformed one. A file
without a name is left out. -/
def registerRecords (container : Container σ) (settings : Settings) :
    List (Except Newc.ArchiveError Newc.Record) → Gathering σ Unit
  | [] => pure ()
  | .error cause :: _ => throw (.input (.archive cause))
  | .ok record :: rest => do
      if record.isFile && nameOfRecord record != "" then
        register container settings (nameOfRecord record) (.memory record.data)
      registerRecords container settings rest

/-- Register the regular files of one or more archives. -/
def unpack (container : Container σ) (settings : Settings) (data : Bytes) :
    Gathering σ Unit :=
  registerRecords container settings (Newc.records data)

/-- Close the catalog. -/
def finish (c : Catalog) : Except InputError FileSet :=
  match h : c.boot with
  | some (boot, _) => .ok { files := c.files, boot, boot_lt := c.boot_lt _ h }
  | none => .error .noBootTarget

end Catalog

end BootVolume.Files
