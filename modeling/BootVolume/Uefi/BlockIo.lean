import BootVolume.Uefi.Services

/-!
# The protocol for block devices

The calls that the firmware, or an image that was started, makes on a published
device, and the description of the medium it finds there.
-/

namespace BootVolume.Uefi.BlockIo

/-- The revision of the protocol. -/
def revision : Nat := 0x00010000

/-- The description of a medium. -/
structure Media where
  id : UInt32
  removable : Bool
  present : Bool
  isPartition : Bool
  readOnly : Bool
  writeCaching : Bool
  blockSize : Nat
  /-- The alignment that buffers need; zero for any. -/
  alignment : Nat
  lastBlock : Nat
  deriving DecidableEq, Repr, Inhabited

/-- The medium of a device. -/
def media (device : BlockDevice) : Media where
  id := device.mediaId
  removable := false
  present := true
  isPartition := device.isPartition
  readOnly := true
  writeCaching := false
  blockSize := BlockDevice.blockSize
  alignment := 0
  lastBlock := device.lastBlock

variable {σ : Type}

/-- Read `count` bytes from block `block` on. A null buffer will do only for nothing. -/
def readBlocks (storage : Storage σ) (device : BlockDevice) (medium : UInt32)
    (block count : Nat) (hasBuffer : Bool) : Action σ Status Bytes :=
  if !hasBuffer && count != 0 then throw Status.invalidParameter
  else device.read storage medium block count

/-- Nothing can be written. -/
def writeBlocks (device : BlockDevice) (medium : UInt32) (block : Nat) : Status :=
  match device.write medium block 0 with
  | .ok () => Status.success
  | .error status => status

/-- Reset a device. -/
def reset (device : BlockDevice) (extended : Bool) : Status := device.reset extended

/-- Flush a device. -/
def flushBlocks (device : BlockDevice) : Status := device.flush

end BootVolume.Uefi.BlockIo
