import BootVolume.DevicePath
import BootVolume.Image.Disk

/-!
# Block devices

Two read-only devices share a virtual disk: the whole disk, and the partition
on it. A request names the medium, the first block and a number of bytes.
-/

namespace BootVolume

open Image

/-- A device over a virtual disk. -/
structure BlockDevice where
  disk : VirtualDisk
  /-- The block of the disk where the device starts. -/
  start : Nat
  /-- The number of blocks. -/
  blocks : Nat
  isPartition : Bool
  path : DevicePath

namespace BlockDevice

/-- Bytes in a block. -/
def blockSize : Nat := Fat.sectorSize

/-- The device of the whole disk. -/
def wholeDisk (disk : VirtualDisk) : BlockDevice where
  disk
  start := 0
  blocks := disk.blocks
  isPartition := false
  path := DevicePath.disk

/-- The device of the partition. -/
def partition (disk : VirtualDisk) : BlockDevice where
  disk
  start := partitionStart
  blocks := disk.partitionBlocks
  isPartition := true
  path := DevicePath.partition partitionStart disk.partitionBlocks diskSignature

/-- The identity of the medium, which never changes. -/
def mediaId (_ : BlockDevice) : UInt32 := diskSignature

/-- The last block. -/
def lastBlock (d : BlockDevice) : Nat := d.blocks - 1

variable {σ : Type}

/-- The `count` bytes from block `block` on. The medium must be the one in the device,
the bytes whole blocks, and the blocks those of the device. -/
def read (storage : Storage σ) (d : BlockDevice) (media : UInt32) (block count : Nat) :
    Action σ Status Bytes :=
  if media ≠ d.mediaId then throw Status.mediaChanged
  else if count % blockSize ≠ 0 then throw Status.badBufferSize
  else if d.blocks < block + count / blockSize then throw Status.invalidParameter
  else do
    let offset := (block + d.start) * blockSize
    match ← (d.disk.read storage offset count).attempt with
    | .ok data => return data
    | .error cause =>
        reportWarn (σ := σ) ("virtual disk read at LBA " ++ Text.hex block ++ " failed: " ++
          cause.message)
        throw Status.deviceError

/-- Nothing can be written. -/
def write (_ : BlockDevice) (_media : UInt32) (_block _count : Nat) : Except Status Unit :=
  .error Status.writeProtected

/-- There is nothing to reset. -/
def reset (_ : BlockDevice) (_extended : Bool) : Status := Status.success

/-- There is nothing to flush. -/
def flush (_ : BlockDevice) : Status := Status.success

/-- A request that failed with a status, in words. -/
def failureMessage (status : Status) : String :=
  "virtual block device error: " ++ Text.hex status.toNat

end BlockDevice

end BootVolume
