import BootVolume.Fat.ParameterBlock
import BootVolume.Proofs.Fat.Geometry
import BootVolume.Proofs.Slices

/-!
# What a driver reads from the boot sector

The parameter block in the boot sector of a volume gives back the sizes that the
volume was laid out with, and the places that a driver computes from it are
those of `Geometry`.  The sector behind it gives back the summary of the free
space, and the first sector of the disk gives back where the volume stands.
-/

namespace BootVolume.Fat

/-- The parameter block of a volume that stands `hidden` sectors behind the start of its
disk. -/
def Geometry.parameterBlock (g : Geometry) (hidden volumeId : UInt32) : ParameterBlock where
  sectorSize := 512
  sectorsPerCluster := 8
  reserved := 32
  copies := 2
  hidden := hidden.toNat
  totalSectors := g.totalSectors.toNat
  tableSectors := g.tableSectors.toNat
  rootCluster := 2
  infoSector := 1
  backupSector := 6
  volumeId := volumeId.toNat

theorem ofSector?_bootSector (g : Geometry) (hidden volumeId : UInt32) :
    ParameterBlock.ofSector? (bootSector g hidden volumeId) =
      some (g.parameterBlock hidden volumeId) := by
  have maker : (Bytes.ascii "WIMBOOT ").length = 8 := by decide
  have kind : (Bytes.ascii "FAT32   ").length = 8 := by decide
  have label : volumeLabel.length = 11 := by decide
  have mark : sectorMark.length = 2 := by decide
  unfold ParameterBlock.ofSector? Bytes.word16 Bytes.word32 bootSector
  simp (disch := simp only [List.length_append, Bytes.length_zeros, Bytes.length_le16,
    Bytes.length_le32, maker, kind, label, mark, List.length_cons, List.length_nil]; omega) only
    [Bytes.slice_append_left, Bytes.slice_append_right]
  simp only [List.length_append, Bytes.length_zeros, Bytes.length_le16,
    Bytes.length_le32, maker, kind, label, List.length_cons, List.length_nil, Nat.reduceAdd,
    Nat.reduceSub, Bytes.slice_self (Bytes.length_le16 _),
    Bytes.slice_self (Bytes.length_le32 _), Bytes.toNatLE_le16, Bytes.toNatLE_le32]
  rw [if_pos ⟨by decide, by decide⟩]
  rfl

namespace ParameterBlock

variable {b : ParameterBlock} {g : Geometry}

/-- A parameter block that gives the sizes of a volume. -/
structure Describes (b : ParameterBlock) (g : Geometry) : Prop where
  sectorSize : b.sectorSize = 512
  sectorsPerCluster : b.sectorsPerCluster = 8
  reserved : b.reserved = 32
  copies : b.copies = 2
  totalSectors : b.totalSectors = g.totalSectors.toNat
  tableSectors : b.tableSectors = g.tableSectors.toNat
  rootCluster : b.rootCluster = 2

theorem describes_parameterBlock (g : Geometry) (hidden volumeId : UInt32) :
    (g.parameterBlock hidden volumeId).Describes g :=
  ⟨rfl, rfl, rfl, rfl, rfl, rfl, rfl⟩

namespace Describes

theorem tableStart_eq (describes : b.Describes g) (copy : Nat) :
    b.tableStart copy = 32 + copy * g.tableSectors.toNat := by
  rw [tableStart, describes.reserved, describes.tableSectors]

theorem dataStart_eq (describes : b.Describes g) : b.dataStart = 32 + 2 * g.tableSectors.toNat := by
  rw [dataStart, describes.reserved, describes.copies, describes.tableSectors]

theorem clusterCount_eq (describes : b.Describes g) (exact : g.Exact) :
    b.clusterCount = g.clusters.toNat := by
  rw [clusterCount, describes.totalSectors, describes.dataStart_eq, exact.total,
    describes.sectorsPerCluster]
  omega

theorem clusterSector_eq (describes : b.Describes g) (cluster : Nat) :
    b.clusterSector cluster = 32 + 2 * g.tableSectors.toNat + (cluster - 2) * 8 := by
  rw [clusterSector, describes.dataStart_eq, describes.sectorsPerCluster]

end Describes

end ParameterBlock

/-- The partition table gives back where its partition stands, and the signature of the disk. -/
theorem ofSector?_partitionTable (signature start sectors : UInt32) :
    PartitionRecord.ofSector? (partitionTable signature start sectors) =
        some { kind := 0x0C, start := start.toNat, sectors := sectors.toNat } ∧
      Bytes.word32 (partitionTable signature start sectors) 440 = signature.toNat := by
  have mark : sectorMark.length = 2 := by decide
  unfold PartitionRecord.ofSector? Bytes.word32 partitionTable partitionEntry
  simp (disch := simp only [List.length_append, Bytes.length_zeros, Bytes.length_le32, mark,
    List.length_cons, List.length_nil]; omega) only
    [Bytes.slice_append_left, Bytes.slice_append_right]
  simp only [List.length_append, Bytes.length_zeros, Bytes.length_le32, List.length_cons,
    List.length_nil, Nat.reduceAdd, Nat.reduceSub, Bytes.slice_self (Bytes.length_le32 _),
    Bytes.toNatLE_le32, and_true]
  rw [if_pos (by decide)]
  rfl

/-- The summary of the free space gives back its two numbers. -/
theorem ofSector?_freeSpaceSector (free next : UInt32) :
    FreeSpace.ofSector? (freeSpaceSector free next) =
      some { free := free.toNat, next := next.toNat } := by
  have lead : (Bytes.ascii "RRaA").length = 4 := by decide
  have middle : (Bytes.ascii "rrAa").length = 4 := by decide
  have mark : Bytes.le32 0xAA550000 = [0, 0] ++ sectorMark := by decide
  have marked : sectorMark.length = 2 := by decide
  unfold FreeSpace.ofSector? Bytes.word32 freeSpaceSector
  rw [mark]
  simp (disch := simp only [List.length_append, Bytes.length_zeros, Bytes.length_le32, lead,
    middle, marked, List.length_cons, List.length_nil]; omega) only
    [Bytes.slice_append_left, Bytes.slice_append_right]
  simp only [List.length_append, Bytes.length_zeros, Bytes.length_le32, lead, middle,
    Nat.reduceAdd, Nat.reduceSub,
    Bytes.slice_self (Bytes.length_le32 _), Bytes.toNatLE_le32]
  rw [if_pos ⟨by decide, by decide, by decide⟩]

end BootVolume.Fat
