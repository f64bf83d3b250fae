/-!
# The geometry of a FAT32 volume

A volume is a run of sectors: reserved sectors, two copies of the allocation
table, and the data clusters, which are numbered from 2. All counts are 32-bit
words, as in the parameter block of the volume.
-/

namespace BootVolume.Fat

/-- Bytes in a sector. -/
def sectorSize : Nat := 512

/-- Sectors in a cluster. -/
def sectorsPerCluster : UInt32 := 8

/-- Bytes in a cluster. -/
def clusterSize : Nat := 4096

/-- Sectors before the first table. -/
def reservedSectors : UInt32 := 32

/-- Copies of the table. -/
def tableCopies : UInt32 := 2

/-- The sector with the free-space summary. -/
def infoSector : UInt32 := 1

/-- The first of the two sectors that repeat the boot sector and the summary. -/
def backupSector : UInt32 := 6

/-- The first cluster of the root directory. -/
def rootCluster : UInt32 := 2

/-- With fewer than 65525 clusters a volume would be taken for FAT16. -/
def minClusters : UInt32 := 0x10000

/-- The label of the volume, as a short name. -/
def volumeLabel : List UInt8 :=
  [0x57, 0x49, 0x4D, 0x42, 0x4F, 0x4F, 0x54, 0x20, 0x20, 0x20, 0x20]

/-- How many units of `unit` it takes to hold `n`. -/
def ceilDiv (n unit : Nat) : Nat := (n + unit - 1) / unit

/-- The number of clusters that hold `length` bytes. -/
def clustersFor (length : Nat) : UInt32 := UInt32.ofNat (ceilDiv length clusterSize)

/-- The sizes of a volume. -/
structure Geometry where
  /-- Data clusters. -/
  clusters : UInt32
  /-- Sectors in one copy of the table. -/
  tableSectors : UInt32
  /-- Sectors in the whole volume. -/
  totalSectors : UInt32
  deriving DecidableEq, Repr, Inhabited

namespace Geometry

/-- The sectors of a table for the given number of clusters, which has four bytes
for each of them and for the two entries before the first. -/
def tableSectorsFor (clusters : UInt32) : UInt32 :=
  let bytes := (clusters + 2) * 4
  bytes / 512 + (if bytes % 512 = 0 then 0 else 1)

/-- The smallest volume with at least `used` clusters. -/
def forClusters (used : UInt32) : Geometry :=
  let clusters := max used minClusters
  let tableSectors := tableSectorsFor clusters
  { clusters
    tableSectors
    totalSectors := reservedSectors + tableCopies * tableSectors + clusters * sectorsPerCluster }

/-- The first sector of a copy of the table. -/
def tableStart (g : Geometry) (copy : UInt32) : UInt32 := reservedSectors + copy * g.tableSectors

/-- The first sector of the data clusters. -/
def dataStart (g : Geometry) : UInt32 := reservedSectors + tableCopies * g.tableSectors

/-- The first sector of a cluster. -/
def clusterSector (g : Geometry) (cluster : UInt32) : UInt32 :=
  g.dataStart + (cluster - 2) * sectorsPerCluster

end Geometry

end BootVolume.Fat
