import BootVolume.Bytes
import BootVolume.Fat.Geometry

/-!
# Metadata sectors

The three kinds of sector that describe the disk and the volume on it: the
partition table of the disk, the boot sector with the parameter block of the
volume, and the summary of its free space.
-/

namespace BootVolume.Fat

/-- The two bytes that end every one of these sectors. -/
def sectorMark : Bytes := [0x55, 0xAA]

/-- The entry of a partition of `sectors` sectors from `start` on, to be started from
and addressed by sector numbers alone. -/
def partitionEntry (start sectors : UInt32) : Bytes :=
  [0x80, 0xFE, 0xFF, 0xFF, 0x0C, 0xFE, 0xFF, 0xFF] ++ Bytes.le32 start ++ Bytes.le32 sectors

/-- The first sector of a disk with a single FAT32 partition. -/
def partitionTable (signature start sectors : UInt32) : Bytes :=
  Bytes.zeros 440 ++ Bytes.le32 signature ++ Bytes.zeros 2 ++ partitionEntry start sectors ++
    Bytes.zeros 48 ++ sectorMark

/-- The first sector of a volume that stands `hidden` sectors behind the start of its
disk. -/
def bootSector (g : Geometry) (hidden volumeId : UInt32) : Bytes :=
  [0xEB, 0x58, 0x90] ++ Bytes.ascii "WIMBOOT " ++
    Bytes.le16 512 ++ [8] ++ Bytes.le16 32 ++ [2] ++
    Bytes.le16 0 ++ Bytes.le16 0 ++ [0xF8] ++ Bytes.le16 0 ++ Bytes.le16 63 ++ Bytes.le16 255 ++
    Bytes.le32 hidden ++ Bytes.le32 g.totalSectors ++ Bytes.le32 g.tableSectors ++
    Bytes.le16 0 ++ Bytes.le16 0 ++ Bytes.le32 rootCluster ++ Bytes.le16 1 ++ Bytes.le16 6 ++
    Bytes.zeros 12 ++ [0x80, 0, 0x29] ++ Bytes.le32 volumeId ++ volumeLabel ++
    Bytes.ascii "FAT32   " ++ Bytes.zeros 420 ++ sectorMark

/-- The summary of a volume's free space: the number of free clusters, and where to
look for the next one. -/
def freeSpaceSector (free next : UInt32) : Bytes :=
  Bytes.ascii "RRaA" ++ Bytes.zeros 480 ++ Bytes.ascii "rrAa" ++ Bytes.le32 free ++
    Bytes.le32 next ++ Bytes.zeros 12 ++ Bytes.le32 0xAA550000

theorem length_partitionEntry (start sectors : UInt32) :
    (partitionEntry start sectors).length = 16 := by
  simp [partitionEntry]

theorem length_partitionTable (signature start sectors : UInt32) :
    (partitionTable signature start sectors).length = sectorSize := by
  simp only [partitionTable, List.length_append, Bytes.length_zeros, Bytes.length_le32,
    length_partitionEntry, sectorMark, sectorSize, List.length_cons, List.length_nil]

theorem length_bootSector (g : Geometry) (hidden volumeId : UInt32) :
    (bootSector g hidden volumeId).length = sectorSize := by
  have maker : (Bytes.ascii "WIMBOOT ").length = 8 := by decide
  have kind : (Bytes.ascii "FAT32   ").length = 8 := by decide
  have label : volumeLabel.length = 11 := by decide
  have mark : sectorMark.length = 2 := by decide
  unfold bootSector
  simp only [List.length_append]
  simp only [Bytes.length_zeros, Bytes.length_le16, Bytes.length_le32]
  simp only [maker, kind, label, mark]
  rfl

theorem length_freeSpaceSector (free next : UInt32) :
    (freeSpaceSector free next).length = sectorSize := by
  have lead : (Bytes.ascii "RRaA").length = 4 := by decide
  have middle : (Bytes.ascii "rrAa").length = 4 := by decide
  unfold freeSpaceSector
  simp only [List.length_append]
  simp only [Bytes.length_zeros, Bytes.length_le32]
  simp only [lead, middle]
  rfl

end BootVolume.Fat
