import BootVolume.Launch.Firmware

/-!
# Firmware tables

The calls that a program under UEFI makes on its system table and on the
protocols it finds there, as functions on the outside world. Starting an image
is the one call that may come back into this library, since a started image
reads the devices that were published; it acts on the whole machine.
-/

namespace BootVolume.Uefi

/-- The protocols that the program asks for or publishes. -/
inductive Protocol where
  | loadedImage
  | simpleFileSystem
  | blockIo
  | devicePath
  deriving DecidableEq, Repr, Inhabited

/-- The name of a protocol. -/
def Protocol.label : Protocol → String
  | loadedImage => "loaded_image"
  | simpleFileSystem => "simple_file_system"
  | blockIo => "block_io"
  | devicePath => "device_path"

/-- The handle of nothing. -/
def nullHandle : Handle := 0

/-- An instance of a protocol on some handle. -/
abbrev Interface := Nat

/-- What the firmware records about a loaded image. -/
structure LoadedImage where
  /-- The device that the image comes from. -/
  device : Handle
  /-- The text given to the image, absent if the pointer to it is null. -/
  options : Option (List UInt16)
  /-- The length of that text in bytes. -/
  optionsSize : Nat
  deriving DecidableEq, Repr, Inhabited

/-- A protocol instance as it is published. -/
inductive Published where
  | blockIo (device : BlockDevice)
  | devicePath (path : Bytes)

/-- The calls on the system table and on protocols. -/
structure Services (σ : Type) where
  /-- Whether there is a console to write to. -/
  hasOutput : Bool
  /-- Whether there is a keyboard to read from. -/
  hasInput : Bool
  /-- Start or stop the watchdog. The data are absent if the pointer is null. -/
  setWatchdog : (timeout code size : Nat) → (data : Option (List UInt16)) → σ → Status × σ
  /-- Look a protocol up on a handle; the instance is absent if the pointer is null. -/
  handleProtocol : Handle → Protocol → σ → (Status × Option Interface) × σ
  /-- The record behind an instance of the protocol for loaded images. -/
  loadedImage : Interface → σ → LoadedImage × σ
  /-- Change the device in such a record. -/
  setImageDevice : Interface → Handle → σ → σ
  /-- Open the root of a volume; the root is absent if the pointer is null. -/
  openVolume : Interface → σ → (Status × Option FileId) × σ
  /-- Open a file in a directory by its path, which ends in zero. -/
  openFile : (directory : FileId) → (path : List UInt16) → (mode attributes : Nat) → σ →
    (Status × Option FileId) × σ
  /-- Close a file. -/
  closeFile : FileId → σ → σ
  /-- Read from the position of a file. -/
  readFile : FileId → (count : Nat) → σ → Except Status (AtMost count) × σ
  setPosition : FileId → Nat → σ → Status × σ
  getPosition : FileId → σ → Except Status UInt64 × σ
  /-- Choose the colour of what is written from now on. -/
  setAttribute : Nat → σ → σ
  /-- Write the units of a buffer up to the first zero. -/
  outputString : List UInt16 → σ → σ
  resetInput : (extended : Bool) → σ → σ
  /-- Wait for the key event, as one of `count` events. -/
  waitForKeyEvent : (count : Nat) → σ → σ
  readKey : σ → σ
  /-- Publish a protocol instance on a handle, or on a new one if the handle is null. -/
  installProtocol : Handle → (kind : Nat) → Published → σ → Except Status Handle × σ
  allocatePages : (kind memory pages : Nat) → σ → Status × σ
  /-- Load an image that is at hand in memory. -/
  loadImage : (policy : Bool) → (parent : Handle) → (path image : Bytes) → σ →
    Except Status Handle × σ
  /-- Start an image; no exit data are asked for. -/
  startImage : Handle → Step σ Status

end BootVolume.Uefi
