import BootVolume.Launch.Sequence
import BootVolume.Uefi.Services

/-!
# Files on the boot volume

The program finds its options and its files through the record of its own
loaded image. Files are opened in the root of the volume it came from and read
on demand. Every file that is opened is closed again, except those that the
published disk still reads.
-/

namespace BootVolume.Uefi

variable {σ : Type}

/-- Look a protocol up on a handle; a null instance counts as unsupported. -/
def findProtocol (services : Services σ) (handle : Handle) (protocol : Protocol) :
    Action σ Status Interface :=
  Action.outside fun world =>
    match services.handleProtocol handle protocol world with
    | ((status, found), world) =>
        if status ≠ Status.success then (.error status, world)
        else
          match found with
          | some interface => (.ok interface, world)
          | none => (.error Status.unsupported, world)

/-- The outcome of a call that gives only a status. -/
def checked (status : Status) : Except ReadError Unit :=
  if status = Status.success then .ok () else .error (.device status)

/-- The position that stands for the end of a file. -/
def endOfFile : Nat := 0xFFFFFFFFFFFFFFFF

/-- The length of a file: the position at its end. The file is left at its start. -/
def fileSize (services : Services σ) (id : FileId) (world : σ) :
    Except ReadError UInt64 × σ :=
  match services.setPosition id endOfFile world with
  | (status, world) =>
      match checked status with
      | .error cause => (.error cause, world)
      | .ok () =>
          match services.getPosition id world with
          | (.error status, world) => (.error (.device status), world)
          | (.ok size, world) =>
              match services.setPosition id 0 world with
              | (status, world) => ((checked status).map fun _ => size, world)

/-- Files of the boot volume as content. There are no other providers and no rules of
the outside world here. -/
def storage (services : Services σ) : Storage σ where
  size := fileSize services
  seek id position world :=
    match services.setPosition id position world with
    | (status, world) => (checked status, world)
  read id count world :=
    match services.readFile id count world with
    | (.ok data, world) => (.ok data, world)
    | (.error status, world) => (.error (.device status), world)
  close id world := services.closeFile id world
  provide _ _ _ world := (.error (.device Status.unsupported), world)
  patch _ _ data world := (⟨data, rfl⟩, world)

/-- The options of an image as text, up to the first zero; nothing if there is no text
or not even one unit of it. -/
def LoadedImage.optionText? (image : LoadedImage) : Option String :=
  match image.options with
  | some units =>
      if image.optionsSize < 2 then none
      else some (Text.ofUtf16Lossy ((units.take (image.optionsSize / 2)).takeWhile (· != 0)))
  | none => none

/-- Open the root of the volume on a device. -/
def openRoot (services : Services σ) (device : Handle) : Action σ Failure FileId := do
  let fail (status : Status) : Failure := .read "\\" (.device status)
  let volume ← Action.mapError fail (findProtocol services device .simpleFileSystem)
  let (status, root) ← (Step.outside (services.openVolume volume) :
    Step σ (Status × Option FileId))
  match root with
  | some root => if status = Status.success then return root else throw (fail status)
  | none => throw (fail status)

/-- The path of a file as the firmware takes it: with backslashes, in UTF-16, and with
a zero behind it. -/
def pathUnits (path : String) : List UInt16 :=
  Text.utf16 (String.ofList (path.toList.map fun c => if c = '/' then '\\' else c)) ++ [0]

/-- Open a file in the root for reading. -/
def openFile (services : Services σ) (root : FileId) (path : String) :
    Action σ ReadError FileId := do
  let (status, file) ← (Step.outside (services.openFile root (pathUnits path) 1 0) :
    Step σ (Status × Option FileId))
  Action.outside fun world => (checked status, world)
  match file with
  | some file => return file
  | none => throw (.device Status.notFound)

/-- Close a file. -/
def close (services : Services σ) (id : FileId) : Step σ Unit :=
  Step.outside fun world => ((), services.closeFile id world)

/-- Close the files behind the given inputs. -/
def closeInputs (services : Services σ) : List Newc.Entry → Step σ Unit
  | [] => pure ()
  | input :: rest => do
      if let some id := input.source.fileId? then
        close services id
      closeInputs services rest

/-- Open the files named on the command line as inputs, behind those that are open
already. If one of them cannot be opened, all are closed again. -/
def openInputs (services : Services σ) (root : FileId) (opened : List Newc.Entry) :
    List FileArgument → Action σ Failure (List Newc.Entry)
  | [] => pure opened
  | file :: rest => do
      let opening : Action σ ReadError Source := do
        let id ← openFile services root file.path
        Source.ofFile (storage services) id
      match ← opening.attempt with
      | .error cause =>
          closeInputs services opened
          throw (.read file.path cause)
      | .ok source =>
          reportDebug (σ := σ) ("opened " ++ file.path)
          openInputs services root (opened ++ [{ name := file.name, path := file.path, source }])
            rest

/-- The inputs whose files the disk does not read. -/
def notRetained (disk : Image.VirtualDisk) (inputs : List Newc.Entry) : List Newc.Entry :=
  inputs.filter fun input => !disk.files.files.any fun file => file.source == input.source

end BootVolume.Uefi
