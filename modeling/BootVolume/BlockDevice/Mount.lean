import BootVolume.BlockDevice
import BootVolume.Fat.Mounted

/-!
# Mounting the partition

The volume on a block device as a driver sees it that reads whole blocks of the
device and nothing else.
-/

namespace BootVolume.BlockDevice

variable {σ : Type}

/-- Read `count` blocks of a device. -/
def readSectors (storage : Storage σ) (d : BlockDevice) (sector count : Nat) :
    Action σ Status Bytes :=
  d.read storage d.mediaId sector (count * blockSize)

/-- The volume on a device, if its first block is the boot sector of one. -/
def mount? (storage : Storage σ) (d : BlockDevice) :
    Action σ Status (Option (Fat.Mounted (Action σ Status))) := do
  let sector ← d.readSectors storage 0 1
  return (Fat.ParameterBlock.ofSector? sector).map fun block =>
    { block, read := d.readSectors storage }

end BootVolume.BlockDevice
