import BootVolume.Fat.Sectors

/-!
# The parameter block

The numbers that a driver takes from the first sector of a FAT32 volume, and
the places that follow from them. All of them are plain numbers here: a driver
computes in words wide enough for any volume.
-/

namespace BootVolume.Fat

/-- The parameter block of a volume. -/
structure ParameterBlock where
  sectorSize : Nat
  sectorsPerCluster : Nat
  /-- Sectors before the first table. -/
  reserved : Nat
  copies : Nat
  /-- Sectors before the volume on its disk. -/
  hidden : Nat
  totalSectors : Nat
  /-- Sectors in one copy of the table. -/
  tableSectors : Nat
  rootCluster : Nat
  infoSector : Nat
  backupSector : Nat
  volumeId : Nat
  deriving DecidableEq, Repr, Inhabited

namespace ParameterBlock

/-- The parameter block in a boot sector, if it carries the marks of one. -/
def ofSector? (sector : Bytes) : Option ParameterBlock :=
  if Bytes.slice sector 510 2 = sectorMark ∧ Bytes.slice sector 0x52 8 = Bytes.ascii "FAT32   " then
    some {
      sectorSize := Bytes.word16 sector 0x0B
      sectorsPerCluster := Bytes.toNatLE (Bytes.slice sector 0x0D 1)
      reserved := Bytes.word16 sector 0x0E
      copies := Bytes.toNatLE (Bytes.slice sector 0x10 1)
      hidden := Bytes.word32 sector 0x1C
      totalSectors := Bytes.word32 sector 0x20
      tableSectors := Bytes.word32 sector 0x24
      rootCluster := Bytes.word32 sector 0x2C
      infoSector := Bytes.word16 sector 0x30
      backupSector := Bytes.word16 sector 0x32
      volumeId := Bytes.word32 sector 0x43 }
  else none

/-- The first sector of a copy of the table. -/
def tableStart (b : ParameterBlock) (copy : Nat) : Nat := b.reserved + copy * b.tableSectors

/-- The first sector of the data clusters. -/
def dataStart (b : ParameterBlock) : Nat := b.reserved + b.copies * b.tableSectors

/-- The number of data clusters. -/
def clusterCount (b : ParameterBlock) : Nat :=
  (b.totalSectors - b.dataStart) / b.sectorsPerCluster

/-- The first sector of a cluster. -/
def clusterSector (b : ParameterBlock) (cluster : Nat) : Nat :=
  b.dataStart + (cluster - 2) * b.sectorsPerCluster

end ParameterBlock

/-- The partition in the first entry of a partition table. -/
structure PartitionRecord where
  kind : Nat
  start : Nat
  sectors : Nat
  deriving DecidableEq, Repr, Inhabited

/-- The first partition of a disk, as its first sector gives it. -/
def PartitionRecord.ofSector? (sector : Bytes) : Option PartitionRecord :=
  if Bytes.slice sector 510 2 = sectorMark then
    some {
      kind := Bytes.toNatLE (Bytes.slice sector 450 1)
      start := Bytes.word32 sector 454
      sectors := Bytes.word32 sector 458 }
  else none

/-- The free-space summary of a volume: the free clusters, and where to look for one. -/
structure FreeSpace where
  free : Nat
  next : Nat
  deriving DecidableEq, Repr, Inhabited

/-- The summary in a sector, if it carries the marks of one. -/
def FreeSpace.ofSector? (sector : Bytes) : Option FreeSpace :=
  if Bytes.slice sector 0 4 = Bytes.ascii "RRaA" ∧ Bytes.slice sector 484 4 = Bytes.ascii "rrAa" ∧
      Bytes.slice sector 510 2 = sectorMark then
    some { free := Bytes.word32 sector 488, next := Bytes.word32 sector 492 }
  else none

end BootVolume.Fat
