import BootVolume.Launch.Sequence
import BootVolume.Rehearsal.Content

/-!
# The bench

A world in which whole runs are rehearsed: scripted files and providers, a
container format that holds one boot manager, and a firmware that records the
calls made to it and fails where its script says so.
-/

namespace BootVolume.Rehearsal

open Files

/-- A container format with a script. -/
structure ContainerScript where
  /-- The boot manager inside every container. -/
  bootManager : Option Bytes := none
  /-- The image that holds it. -/
  index : UInt32 := 0
  /-- How many bytes of a container are read before it is looked into. -/
  probe : Nat := 0
  /-- The failure of every look inside. -/
  fail : Option Status := none
  /-- Whether containers are patched as they are read. -/
  patches : Bool := false
  deriving DecidableEq, Repr, Inhabited

/-- What was asked of the container format. -/
structure ContainerRecord where
  /-- The images and paths that were looked for. -/
  requests : List (UInt32 × String) := []
  /-- How often a patch was asked for. -/
  patchCalls : Nat := 0
  /-- The offsets and lengths of the reads that were patched. -/
  patchedReads : List (Nat × Nat) := []
  deriving DecidableEq, Repr, Inhabited

/-- A firmware script. -/
structure FirmwareScript where
  /-- The device of a freshly loaded image. -/
  imageDevice : Handle := 7
  startStatus : Status := 0
  /-- The most pages that one call gives. -/
  maxPages : Nat := 1024
  /-- How many pages each call gives less than it was asked for. -/
  shortPages : Nat := 0
  /-- How many devices can be installed, and the failure of the next one. -/
  failInstall : Option (Nat × Status) := none
  /-- The number of the call for pages that fails, counted from zero. -/
  failAllocate : Option (Nat × Status) := none
  failLoad : Option Status := none
  failImageDevice : Option Status := none
  failSetDevice : Option Status := none
  deriving DecidableEq, Repr, Inhabited

/-- A call to the firmware. -/
inductive FirmwareCall where
  | allocate (pages : Nat)
  | install (handle : Handle)
  | load (length : Nat)
  | getDevice (image : Handle)
  | setDevice (image device : Handle)
  | key
  | start (image : Handle)
  deriving DecidableEq, Repr, Inhabited

/-- What was asked of the firmware. -/
structure FirmwareRecord where
  calls : List FirmwareCall := []
  installed : List BlockDevice := []
  /-- The calls for pages so far. -/
  allocations : Nat := 0
  /-- The image that was loaded, with its path. -/
  loaded : Option (DevicePath × Bytes) := none
  deriving Inhabited

/-- The world of a rehearsal. -/
structure Bench where
  files : List ScriptedFile := []
  providers : List ScriptedProvider := []
  containerScript : ContainerScript := {}
  containerRecord : ContainerRecord := {}
  firmwareScript : FirmwareScript := {}
  firmwareRecord : FirmwareRecord := {}
  deriving Inhabited

namespace Bench

/-! ## Content -/

/-- The first byte replaced by a number sign, if there is one. -/
def markFirst : (data : Bytes) → { out : Bytes // out.length = data.length }
  | [] => ⟨[], rfl⟩
  | _ :: rest => ⟨0x23 :: rest, rfl⟩

/-- Do something to an open file; there is no such file if the number is too large. -/
def onFile {α : Type} (id : FileId) (act : ScriptedFile → Except ReadError α × ScriptedFile)
    (b : Bench) : Except ReadError α × Bench :=
  match b.files[id]? with
  | some file =>
      let (result, file) := act file
      (result, { b with files := b.files.set id file })
  | none => (.error (.device Status.notFound), b)

/-- The scripted content of a bench. -/
def storage : Storage Bench where
  size id := onFile id fun f => (f.length, f)
  seek id position := onFile id (·.seek position)
  read id count := onFile id (·.read count)
  close _ b := b
  provide id offset count b :=
    match b.providers[id]? with
    | some p => (p.provide offset count, b)
    | none => (.error (.device Status.notFound), b)
  patch _ offset data b :=
    let record := b.containerRecord
    (markFirst data, { b with containerRecord :=
      { record with patchedReads := record.patchedReads ++ [(offset, data.length)] } })

/-! ## Containers -/

/-- The scripted container format of a bench. -/
def container : Container Bench where
  patch _ _ := Step.outside fun b =>
    let record := b.containerRecord
    (if b.containerScript.patches then some (.rule 0) else none,
      { b with containerRecord := { record with patchCalls := record.patchCalls + 1 } })
  extract source index path := do
    let script ← (Step.outside fun b =>
      let record := b.containerRecord
      (b.containerScript, { b with containerRecord :=
        { record with requests := record.requests ++ [(index, path)] } }) :
      Step Bench ContainerScript)
    let _ ← source.readExact storage 0 script.probe
    if let some status := script.fail then
      throw (.device status)
    if index = script.index then
      return script.bootManager.map Source.memory
    else
      return none

/-- The disk of files that are registered one after the other. -/
def diskOf (container : Container Bench) (settings : Settings) (files : List (String × Source)) :
    Action Bench Failure Image.VirtualDisk := do
  let (outcome, catalog) ← ((Catalog.registerAll container settings files).run.run Catalog.empty :
    StateM (Machine Bench) (Except Failure Unit × Catalog))
  match outcome, catalog.finish with
  | .error cause, _ => throw cause
  | .ok (), .error cause => throw (.input cause)
  | .ok (), .ok set => Image.VirtualDisk.build set

/-! ## Firmware -/

/-- Record a call. -/
def FirmwareRecord.note (r : FirmwareRecord) (call : FirmwareCall) : FirmwareRecord :=
  { r with calls := r.calls ++ [call] }

/-- A call that is recorded and then answered by the script. -/
def scripted {α : Type} (call : FirmwareCall)
    (answer : FirmwareScript → FirmwareRecord → Except Status α × FirmwareRecord) :
    Action Bench Status α :=
  Action.outside fun b =>
    let (result, record) := answer b.firmwareScript (FirmwareRecord.note b.firmwareRecord call)
    (result, { b with firmwareRecord := record })

/-- The outcome of a call that the script may let fail. -/
def answerUnless {α : Type} (fail : Option Status) (value : α) : Except Status α :=
  match fail with
  | some status => .error status
  | none => .ok value

/-- The handle of the first device; the next one has the next number. -/
def firstDevice : Handle := 100

/-- The handle of the loaded image. -/
def imageHandle : Handle := 1

/-- Publish a device on the next handle. -/
def addDevice (device : BlockDevice) (b : Bench) : Except Status Handle × Bench :=
  let record := b.firmwareRecord
  let handle := firstDevice + record.installed.length
  (.ok handle, { b with firmwareRecord :=
    { FirmwareRecord.note record (.install handle) with
      installed := record.installed ++ [device] } })

/-- Publish a device, if the script lets one more be published. -/
def installDevice (device : BlockDevice) : Action Bench Status Handle :=
  Action.outside fun b =>
    match b.firmwareScript.failInstall with
    | some (limit, status) =>
        if b.firmwareRecord.installed.length = limit then (.error status, b)
        else addDevice device b
    | none => addDevice device b

/-- Give pages as far as the script allows. -/
def givePages (pages : Nat) : Action Bench Status Nat :=
  scripted (.allocate pages) fun script record =>
    let number := record.allocations
    let record := { record with allocations := number + 1 }
    let granted := (pages - script.shortPages) * pageSize
    let limited : Except Status Nat :=
      if script.maxPages < pages then .error Status.outOfResources else .ok granted
    match script.failAllocate with
    | some (failing, status) => (if number = failing then .error status else limited, record)
    | none => (limited, record)

/-- The scripted firmware of a bench. -/
def firmware : Firmware Bench where
  install := installDevice
  allocatePages := givePages
  loadImage path image := scripted (.load image.length) fun script record =>
    match script.failLoad with
    | some status => (.error status, record)
    | none => (.ok imageHandle, { record with loaded := some (path, image) })
  imageDevice image := scripted (.getDevice image) fun script record =>
    (answerUnless script.failImageDevice script.imageDevice, record)
  setImageDevice image device := scripted (.setDevice image device) fun script record =>
    (answerUnless script.failSetDevice (), record)
  waitForKey := Step.outside fun b =>
    ((), { b with firmwareRecord := FirmwareRecord.note b.firmwareRecord .key })
  startImage image := Step.outside fun b =>
    (b.firmwareScript.startStatus,
      { b with firmwareRecord := FirmwareRecord.note b.firmwareRecord (.start image) })

end Bench

end BootVolume.Rehearsal
