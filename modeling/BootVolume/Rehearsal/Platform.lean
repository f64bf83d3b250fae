import BootVolume.Uefi.BlockIo
import BootVolume.Uefi.Program

/-!
# The platform

A scripted machine under UEFI: a volume with files, a console, and firmware
that keeps a list of every call and fails where its script says so. A started
image pays a number of visits to the published devices and returns.

Each call is listed before it fails. Handles are numbered: nothing, the program
itself, its volume, the loaded image, and then the published devices in order.
-/

namespace BootVolume.Rehearsal

open Uefi

/-! ## Scripts -/

/-- A failure of the call with the given number, counted from zero. -/
abbrev FailAt := Option (Nat × Status)

/-- The status of the call with the given number. -/
def FailAt.status (fail : FailAt) (number : Nat) : Status :=
  match fail with
  | some (failing, status) => if number = failing then status else Status.success
  | none => Status.success

/-- A file of the volume with a script. -/
structure VolumeFile where
  data : Bytes := []
  /-- The position that a move to the end leads to. -/
  size : UInt64 := 0
  /-- The most bytes that one read gives. -/
  portion : Option Nat := none
  failOpen : Option Status := none
  /-- Whether the firmware opens the file and gives no handle. -/
  nullOpen : Bool := false
  /-- Failures of moves, of questions for the position, and of reads. The calls are counted
  for every opened handle by itself. -/
  failSeek : FailAt := none
  failTell : FailAt := none
  failRead : FailAt := none
  deriving DecidableEq, Repr, Inhabited

/-- What a started image asks of a published device. -/
inductive VisitRequest where
  /-- The description of the medium. -/
  | media
  | read (medium : Option UInt32) (block count : Nat) (hasBuffer : Bool)
  | write (medium : Option UInt32) (block : Nat)
  | reset
  | flush
  deriving DecidableEq, Repr, Inhabited

/-- A visit to a published device. -/
structure Visit where
  /-- The number of the device; a visit to a device that is not there is left out. -/
  device : Nat := 1
  request : VisitRequest
  deriving DecidableEq, Repr, Inhabited

/-- What a visit brings. -/
inductive VisitAnswer where
  | media (revision : Nat) (medium : BlockIo.Media)
  | data (bytes : Bytes)
  /-- A read into no buffer went well. -/
  | nothingRead
  | status (status : Status)
  deriving DecidableEq, Repr, Inhabited

/-- A script for the whole platform. -/
structure PlatformScript where
  options : Option (List UInt16) := none
  optionsSize : Nat := 0
  /-- The files of the volume by path. -/
  files : List (String × VolumeFile) := []
  /-- Failures of questions for a protocol, counted by the handle. -/
  failLoadedImage : FailAt := none
  failVolume : FailAt := none
  failImage : FailAt := none
  failInstall : FailAt := none
  failAllocate : FailAt := none
  /-- Protocols that are found without an instance. -/
  nullLoadedImage : Bool := false
  nullVolume : Bool := false
  nullImage : Bool := false
  /-- Whether the volume opens without a root. -/
  nullRoot : Bool := false
  hasInput : Bool := true
  hasOutput : Bool := true
  failOpenVolume : Status := 0
  failLoad : Status := 0
  startStatus : Status := 0
  /-- The most pages that one call gives. -/
  maxPages : Nat := 1024
  /-- The device of a freshly loaded image. -/
  imageDevice : Handle := 2
  visits : List Visit := []
  deriving DecidableEq, Repr, Inhabited

/-! ## Calls -/

/-- A call to the firmware, as it is listed. -/
inductive PlatformCall where
  | setWatchdog (timeout code size : Nat) (noData : Bool)
  | handleProtocol (handle : Handle) (protocol : Protocol)
  | openVolume
  | openFile (path : String) (mode attributes : Nat)
  | setPosition (path : String) (position : Nat)
  | getPosition (path : String)
  | read (path : String) (position requested given : Nat)
  | setAttribute (colour : Nat)
  | outputString (units : List UInt16)
  | installProtocol (handle : Handle) (protocol : Protocol) (kind : Nat)
  /-- The path that was just published. -/
  | devicePath (path : Bytes)
  | allocatePages (kind memory pages : Nat)
  | loadImage (policy : Bool) (parent : Handle) (path image : Bytes)
  | resetInput (extended : Bool)
  | waitForEvent (count : Nat)
  | readKey
  /-- The start of an image that believes to come from `device`. -/
  | startImage (image device : Handle)
  | visit (device : Handle) (answer : VisitAnswer)
  deriving DecidableEq, Repr, Inhabited

/-- An opened file. -/
structure OpenedFile where
  path : String
  script : VolumeFile
  position : Nat := 0
  seeks : Nat := 0
  tells : Nat := 0
  reads : Nat := 0
  isOpen : Bool := true
  deriving DecidableEq, Repr, Inhabited

/-- The state of the platform. -/
structure Platform where
  script : PlatformScript
  /-- The calls so far, in order. -/
  calls : Array PlatformCall := #[]
  /-- The opened files; the first one is the root of the volume. -/
  opened : List OpenedFile := []
  devices : List BlockDevice := []
  /-- The device that the loaded image believes to come from. -/
  imageDevice : Handle := 2
  selfQuestions : Nat := 0
  volumeQuestions : Nat := 0
  imageQuestions : Nat := 0
  installs : Nat := 0
  allocations : Nat := 0

namespace Platform

/-! ## Handles -/

/-- The program itself. -/
def selfHandle : Handle := 1

/-- The device of the volume that the program comes from. -/
def volumeHandle : Handle := 2

/-- The loaded image. -/
def imageHandle : Handle := 3

/-- The published device with the given number. -/
def deviceHandle (number : Nat) : Handle := 4 + number

/-- The name of a handle. -/
def handleName (h : Handle) : String :=
  (["null", "self", "volume", "image"][h]?).getD ("block" ++ toString (h - deviceHandle 0))

/-- The handle with the given name: nothing, the program, the volume, the image, or one of
the first two devices. -/
def handleOf? (name : String) : Option Handle :=
  (List.range 6).find? fun h => handleName h == name

/-- The name of the root of the volume among opened files. -/
def rootPath : String := "<root>"

/-- A platform at the start of a run. -/
def ofScript (script : PlatformScript) : Platform where
  script
  imageDevice := script.imageDevice

/-- The platform with one more call listed. -/
def note (p : Platform) (call : PlatformCall) : Platform := { p with calls := p.calls.push call }

/-- The paths of the files that are still open. -/
def openPaths (p : Platform) : List String :=
  (p.opened.filter (·.isOpen)).map (·.path)

/-! ## Protocols -/

/-- The answer to a question for a protocol. -/
def answer (status : Status) (isNull : Bool) (interface : Interface) :
    Status × Option Interface :=
  if status = Status.success then (Status.success, if isNull then none else some interface)
  else (status, none)

/-- Look a protocol up. Only the program, the volume and the image have one. -/
def handleProtocol (handle : Handle) (protocol : Protocol) (p : Platform) :
    (Status × Option Interface) × Platform :=
  let p := p.note (.handleProtocol handle protocol)
  let s := p.script
  if handle = selfHandle ∧ protocol = .loadedImage then
    (answer (s.failLoadedImage.status p.selfQuestions) s.nullLoadedImage selfHandle,
      { p with selfQuestions := p.selfQuestions + 1 })
  else if handle = volumeHandle ∧ protocol = .simpleFileSystem then
    (answer (s.failVolume.status p.volumeQuestions) s.nullVolume volumeHandle,
      { p with volumeQuestions := p.volumeQuestions + 1 })
  else if handle = imageHandle ∧ protocol = .loadedImage then
    (answer (s.failImage.status p.imageQuestions) s.nullImage imageHandle,
      { p with imageQuestions := p.imageQuestions + 1 })
  else ((Status.unsupported, none), p)

/-- The record of the program or of the image it loaded. -/
def loadedImage (interface : Interface) (p : Platform) : LoadedImage × Platform :=
  if interface = selfHandle then
    ({ device := volumeHandle, options := p.script.options,
       optionsSize := p.script.optionsSize }, p)
  else ({ device := p.imageDevice, options := none, optionsSize := 0 }, p)

/-- Publish a protocol instance. A block device gets a handle of its own. -/
def installProtocol (handle : Handle) (kind : Nat) (published : Published) (p : Platform) :
    Except Status Handle × Platform :=
  let status := p.script.failInstall.status p.installs
  let p := { p with installs := p.installs + 1 }
  match published with
  | .blockIo device =>
      let p := p.note (.installProtocol handle .blockIo kind)
      if status ≠ Status.success then (.error status, p)
      else (.ok (deviceHandle p.devices.length), { p with devices := p.devices ++ [device] })
  | .devicePath path =>
      let p := p.note (.installProtocol handle .devicePath kind)
      if status ≠ Status.success then (.error status, p)
      else (.ok handle, p.note (.devicePath path))

/-! ## Files -/

/-- Open the root of the volume. -/
def openVolume (_ : Interface) (p : Platform) : (Status × Option FileId) × Platform :=
  let p := p.note .openVolume
  let s := p.script
  if s.failOpenVolume ≠ Status.success then ((s.failOpenVolume, none), p)
  else if s.nullRoot then ((Status.success, none), p)
  else
    ((Status.success, some p.opened.length),
      { p with opened := p.opened ++ [{ path := rootPath, script := {} }] })

/-- Open a file of the volume by its exact path. -/
def openFile (_ : FileId) (path : List UInt16) (mode attributes : Nat) (p : Platform) :
    (Status × Option FileId) × Platform :=
  let path := Text.ofUtf16Lossy (Console.heard path)
  let p := p.note (.openFile path mode attributes)
  match p.script.files.lookup path with
  | none => ((Status.notFound, none), p)
  | some file =>
      match file.failOpen with
      | some status => ((status, none), p)
      | none =>
          if file.nullOpen then ((Status.success, none), p)
          else
            ((Status.success, some p.opened.length),
              { p with opened := p.opened ++ [{ path, script := file }] })

/-- Close a file. -/
def closeFile (id : FileId) (p : Platform) : Platform :=
  { p with opened := p.opened.modify id fun file => { file with isOpen := false } }

/-- Move in a file; the highest position there is stands for the end of the file. -/
def setPosition (id : FileId) (position : Nat) (p : Platform) : Status × Platform :=
  match p.opened[id]? with
  | none => (Status.invalidParameter, p)
  | some file =>
      let p := p.note (.setPosition file.path position)
      let status := file.script.failSeek.status file.seeks
      let target := if position = endOfFile then file.script.size.toNat else position
      let moved := if status = Status.success then target else file.position
      let file := { file with position := moved, seeks := file.seeks + 1 }
      (status, { p with opened := p.opened.set id file })

/-- The position in a file. -/
def getPosition (id : FileId) (p : Platform) : Except Status UInt64 × Platform :=
  match p.opened[id]? with
  | none => (.error Status.invalidParameter, p)
  | some file =>
      let p := p.note (.getPosition file.path)
      let status := file.script.failTell.status file.tells
      (if status = Status.success then .ok (UInt64.ofNat file.position) else .error status,
        { p with opened := p.opened.set id { file with tells := file.tells + 1 } })

/-- Read on from the position in a file. -/
def readFile (id : FileId) (count : Nat) (p : Platform) :
    Except Status (AtMost count) × Platform :=
  match p.opened[id]? with
  | none => (.error Status.invalidParameter, p)
  | some file =>
      let status := file.script.failRead.status file.reads
      let file := { file with reads := file.reads + 1 }
      if status ≠ Status.success then
        (.error status, { p.note (.read file.path file.position count 0) with
          opened := p.opened.set id file })
      else
        let data := Bytes.slice file.script.data file.position
          (min count (file.script.portion.getD count))
        (.ok ⟨data, by simp only [data, Bytes.length_slice]; omega⟩,
          { p.note (.read file.path file.position count data.length) with
            opened := p.opened.set id { file with position := file.position + data.length } })

/-! ## Memory and images -/

/-- Give pages as far as the script allows. -/
def allocatePages (kind memory pages : Nat) (p : Platform) : Status × Platform :=
  let status := p.script.failAllocate.status p.allocations
  let p := { p.note (.allocatePages kind memory pages) with allocations := p.allocations + 1 }
  if status ≠ Status.success then (status, p)
  else if p.script.maxPages < pages then (Status.outOfResources, p)
  else (Status.success, p)

/-- Load an image. -/
def loadImage (policy : Bool) (parent : Handle) (path image : Bytes) (p : Platform) :
    Except Status Handle × Platform :=
  let p := p.note (.loadImage policy parent path image)
  if p.script.failLoad ≠ Status.success then (.error p.script.failLoad, p)
  else (.ok imageHandle, p)

/-! ## The tables -/

/-- The firmware tables of a platform, as far as no image is started. -/
def tables (script : PlatformScript) : Services Platform where
  hasOutput := script.hasOutput
  hasInput := script.hasInput
  setWatchdog timeout code size data p :=
    (Status.success, p.note (.setWatchdog timeout code size data.isNone))
  handleProtocol := handleProtocol
  loadedImage := loadedImage
  setImageDevice _ device p := { p with imageDevice := device }
  openVolume := openVolume
  openFile := openFile
  closeFile := closeFile
  readFile := readFile
  setPosition := setPosition
  getPosition := getPosition
  setAttribute colour p := p.note (.setAttribute colour)
  outputString buffer p := p.note (.outputString (Console.heard buffer))
  resetInput extended p := p.note (.resetInput extended)
  waitForKeyEvent count p := p.note (.waitForEvent count)
  readKey p := p.note .readKey
  installProtocol := installProtocol
  allocatePages := allocatePages
  loadImage := loadImage
  startImage _ := pure Status.success

/-! ## The started image -/

/-- What a request to a device brings. -/
def serve (storage : Storage Platform) (device : BlockDevice) :
    VisitRequest → Step Platform VisitAnswer
  | .media => pure (.media BlockIo.revision (BlockIo.media device))
  | .read medium block count hasBuffer => do
      match ← (BlockIo.readBlocks storage device (medium.getD device.mediaId) block count
          hasBuffer).outcome with
      | .ok data => return if hasBuffer then .data data else .nothingRead
      | .error status => return .status status
  | .write medium block =>
      pure (.status (BlockIo.writeBlocks device (medium.getD device.mediaId) block))
  | .reset => pure (.status (BlockIo.reset device false))
  | .flush => pure (.status (BlockIo.flushBlocks device))

/-- Pay the visits one after the other. -/
def payVisits (storage : Storage Platform) : List Visit → Step Platform Unit
  | [] => pure ()
  | visit :: rest => do
      let devices := (← get).world.devices
      if let some device := devices[visit.device]? then
        let answer ← serve storage device visit.request
        Step.outside fun p => ((), p.note (.visit (deviceHandle visit.device) answer))
      payVisits storage rest

/-- Start an image: it pays its visits and returns. -/
def startImage (script : PlatformScript) (image : Handle) : Step Platform Status := do
  Step.outside fun p => ((), p.note (.startImage image p.imageDevice))
  payVisits (Uefi.storage (tables script)) script.visits
  return script.startStatus

/-- The firmware tables of a platform. -/
def services (script : PlatformScript) : Services Platform :=
  { tables script with startImage := startImage script }

/-- The platform after a run of the program. -/
def afterRun (script : PlatformScript) : Platform :=
  ((Uefi.start (services script) selfHandle).run { world := ofScript script }).2.world

/-! ## What a run leaves behind -/

/-- The units that a call writes. -/
def writtenUnits : PlatformCall → List UInt16
  | .outputString units => units
  | _ => []

/-- Whether a call begins the report of a failure. -/
def beginsReport (call : PlatformCall) : Bool :=
  (Text.utf16 "FATAL [").isPrefixOf (writtenUnits call)

/-- The calls before the report of the failure. -/
def callsBeforeReport (p : Platform) : List PlatformCall :=
  p.calls.toList.takeWhile (!beginsReport ·)

/-- The report of the failure. -/
def reportText (p : Platform) : String :=
  Text.ofUtf16Lossy ((p.calls.toList.dropWhile (!beginsReport ·)).flatMap writtenUnits)

end Platform

end BootVolume.Rehearsal
