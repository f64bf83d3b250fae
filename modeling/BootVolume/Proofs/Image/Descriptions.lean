import BootVolume.Proofs.DevicePath
import BootVolume.Proofs.Image.Overflow
import BootVolume.Proofs.Image.Volume

/-!
# The descriptions of the volume

Where the volume of a built disk stands and how large it is can be found in several
places: in the partition table, in the parameter block of the volume, in the path of
the partition, and in the sizes of the two devices.  They are written with different
widths and partly computed by other formulas than those of `Geometry`.
`descriptions_agree` says that they agree on every disk without overflow.
-/

namespace BootVolume.Image

open Fat Files BlockDevice

variable {σ : Type} {storage : Storage σ} {set : FileSet} {d : VirtualDisk}

/-- What is found on a disk that describes the volume on it. -/
structure Descriptions where
  /-- The first sector of the disk. -/
  table : Bytes
  /-- The first sector of the partition. -/
  boot : Bytes
  /-- The second sector of the partition. -/
  info : Bytes
  record : PartitionRecord
  block : ParameterBlock
  /-- The node of the partition in its path. -/
  node : DevicePath.Node

namespace Descriptions

/-- The partition that the path describes. -/
def place (s : Descriptions) : DevicePath.PartitionPlace := .ofBody s.node.body

/-- Descriptions that are found on a disk, those that are written twice in both places. -/
structure FoundOn (storage : Storage σ) (d : VirtualDisk) (s : Descriptions) : Prop where
  table : (wholeDisk d).readSectors storage 0 1 = pure s.table
  boot : (partition d).readSectors storage 0 1 = pure s.boot
  info : (partition d).readSectors storage 1 1 = pure s.info
  bootAgain : (partition d).readSectors storage 6 1 = pure s.boot
  infoAgain : (partition d).readSectors storage 7 1 = pure s.info
  record : PartitionRecord.ofSector? s.table = some s.record
  block : ParameterBlock.ofSector? s.boot = some s.block
  /-- There is one node for a partition in the path. -/
  node : (partition d).path.nodes.filter (fun n => n.kind == 0x04 && n.subtype == 0x01) = [s.node]

/-- The parameter block gives the sizes of a volume that holds `used` clusters, and what a driver
derives from it is what the volume was laid out with. -/
structure GiveSizes (s : Descriptions) (g : Geometry) (used : ℕ) : Prop where
  sectorSize : s.block.sectorSize = 512
  sectorsPerCluster : s.block.sectorsPerCluster = 8
  reserved : s.block.reserved = reservedSectors.toNat
  copies : s.block.copies = tableCopies.toNat
  tableSectors : s.block.tableSectors = g.tableSectors.toNat
  totalSectors : s.block.totalSectors = g.totalSectors.toNat
  rootCluster : s.block.rootCluster = Fat.rootCluster.toNat
  infoSector : s.block.infoSector = 1
  backupSector : s.block.backupSector = 6
  dataStart : s.block.dataStart = g.dataStart.toNat
  clusterCount : s.block.clusterCount = g.clusters.toNat
  /-- No driver takes the volume for one with a smaller table. -/
  clusterCount_ge : 65525 ≤ s.block.clusterCount
  used_le : used ≤ s.block.clusterCount
  /-- A copy of the table has an entry for each cluster and the two before the first. -/
  table_holds : 4 * (s.block.clusterCount + 2) ≤ s.block.tableSectors * 512
  /-- No sector is left behind the last cluster. -/
  total : s.block.dataStart + 8 * s.block.clusterCount = s.block.totalSectors

/-- All descriptions have the partition at `start` with `sectors` sectors, on a disk with one
signature. -/
structure Locate (storage : Storage σ) (d : VirtualDisk) (s : Descriptions)
    (start sectors : ℕ) (signature : UInt32) : Prop where
  record : s.record = { kind := 0x0C, start, sectors }
  hidden : s.block.hidden = start
  totalSectors : s.block.totalSectors = sectors
  place : s.place = { start, sectors, signature := signature.toNat }
  partitionDevice : (partition d).start = start ∧ (partition d).blocks = sectors
  diskDevice : (wholeDisk d).start = 0 ∧ (wholeDisk d).blocks = start + sectors
  /-- The block of the disk that the partition table leads to is the first of the partition. -/
  boot : (wholeDisk d).readSectors storage start 1 = pure s.boot
  tableSignature : Bytes.word32 s.table 440 = signature.toNat
  media : (wholeDisk d).mediaId = signature ∧ (partition d).mediaId = signature

end Descriptions

namespace Built

/-- What a driver finds that describes the volume of a built disk. -/
theorem exists_descriptions (built : Built set d) (storage : Storage σ) :
    ∃ s : Descriptions, s.FoundOn storage d ∧ s.block = d.parameterBlock ∧
      s.record = ⟨0x0C, partitionStart, d.partitionBlocks⟩ ∧
      s.place = ⟨partitionStart, d.partitionBlocks, diskSignature.toNat⟩ ∧
      (wholeDisk d).readSectors storage partitionStart 1 = pure s.boot ∧
      Bytes.word32 s.table 440 = diskSignature.toNat := by
  have hstart : partitionStart < Bytes.wordCount 8 := by decide
  have hsectors : d.partitionBlocks < Bytes.wordCount 8 :=
    Nat.lt_trans d.geometry.totalSectors.toNat_lt (by decide)
  obtain ⟨body, hnodes, hplace⟩ := DevicePath.nodes_partition diskSignature hstart hsectors
  obtain ⟨hrecord, hsignature⟩ := ofSector?_partitionTable diskSignature
    (UInt32.ofNat partitionStart) d.geometry.totalSectors
  have hboot : (bootSector d.geometry (UInt32.ofNat partitionStart) diskSignature).length = 512 :=
    length_bootSector ..
  have hinfo : (freeSpaceSector (d.geometry.clusters - d.arrangement.used)
      d.arrangement.next).length = 512 := length_freeSpaceSector ..
  have hmem : ∀ r ∈ sectorRegions d.arrangement, r ∈ d.regions :=
    fun _ => built.mem_regions_of_sector
  simp only [sectorRegions, List.forall_mem_cons] at hmem
  obtain ⟨htable, hfirst, hsecond, hsixth, hseventh, -⟩ := hmem
  let s : Descriptions := {
    table := partitionTable diskSignature (UInt32.ofNat partitionStart) d.geometry.totalSectors
    boot := bootSector d.geometry (UInt32.ofNat partitionStart) diskSignature
    info := freeSpaceSector (d.geometry.clusters - d.arrangement.used) d.arrangement.next
    record := ⟨0x0C, partitionStart, d.partitionBlocks⟩
    block := d.parameterBlock
    node := { kind := 0x04, subtype := 0x01, length := 42, body } }
  have hfound : s.FoundOn storage d := {
    table := built.readSectors_wholeDisk_stored storage (length_partitionTable ..) (by decide)
      htable
    boot := built.readSectors_stored storage hboot (by decide) hfirst
    info := built.readSectors_stored storage hinfo (by decide) hsecond
    bootAgain := built.readSectors_stored storage hboot (by decide) hsixth
    infoAgain := built.readSectors_stored storage hinfo (by decide) hseventh
    record := hrecord
    block := ofSector?_bootSector ..
    node := by
      have hpath : (partition d).path.nodes = _ := hnodes
      rw [hpath]
      rfl }
  exact ⟨s, hfound, rfl, rfl, hplace,
    built.readSectors_wholeDisk_stored storage hboot (by decide) hfirst, hsignature⟩

/-- The sizes in the parameter block of a built disk. -/
theorem giveSizes (built : Built set d) {s : Descriptions} (hblock : s.block = d.parameterBlock) :
    s.GiveSizes d.geometry (usedClusters set) := by
  have describes : s.block.Describes d.geometry := by
    rw [hblock]
    exact ParameterBlock.describes_parameterBlock ..
  have hdata : s.block.dataStart = d.geometry.dataStart.toNat := by
    rw [describes.dataStart_eq, built.exact.dataStart_toNat]
  have hcount : s.block.clusterCount = d.geometry.clusters.toNat :=
    describes.clusterCount_eq built.exact
  have hclusters : d.geometry.clusters.toNat = max (usedClusters set) 0x10000 := built.clusters
  have htable := built.exact.table_ge
  exact {
    sectorSize := describes.sectorSize
    sectorsPerCluster := describes.sectorsPerCluster
    reserved := describes.reserved
    copies := describes.copies
    tableSectors := describes.tableSectors
    totalSectors := describes.totalSectors
    rootCluster := describes.rootCluster
    infoSector := congrArg ParameterBlock.infoSector hblock
    backupSector := congrArg ParameterBlock.backupSector hblock
    dataStart := hdata
    clusterCount := hcount
    clusterCount_ge := by omega
    used_le := by omega
    table_holds := by
      rw [hcount, describes.tableSectors]
      omega
    total := by
      rw [hcount, describes.dataStart_eq, describes.totalSectors, built.exact.total] }

end Built

/-- Every description of the volume agrees on a built disk where no cluster number wraps. -/
theorem descriptions_agree {m m' : Machine σ}
    (hbuild : (VirtualDisk.build set).runOn m = (.ok d, m'))
    (hused : usedClusters set ≤ maxClusters) (storage : Storage σ) :
    ∃ s : Descriptions, s.FoundOn storage d ∧ s.GiveSizes d.geometry (usedClusters set) ∧
      s.Locate storage d partitionStart d.partitionBlocks diskSignature := by
  have built := built_of_build hbuild hused
  obtain ⟨s, hfound, hblock, hrecord, hplace, hboot, hsignature⟩ :=
    built.exists_descriptions storage
  refine ⟨s, hfound, built.giveSizes hblock, ?_⟩
  exact {
    record := hrecord
    hidden := congrArg ParameterBlock.hidden hblock
    totalSectors := congrArg ParameterBlock.totalSectors hblock
    place := hplace
    partitionDevice := ⟨rfl, rfl⟩
    diskDevice := ⟨rfl, rfl⟩
    boot := hboot
    tableSignature := hsignature
    media := ⟨rfl, rfl⟩ }

/-- A set that takes up more clusters than the smallest volume has. -/
def largeSet : FileSet where
  files := [{ name := "bootmgfw.efi", source := .memory [1, 2, 3] }, longestFile "install.wim"]
  boot := 0
  boot_lt := Nat.zero_lt_succ _

theorem largeSet_descriptions_agree :
    ∃ (d : VirtualDisk) (m₁ : Machine Unit) (s : Descriptions),
      (VirtualDisk.build largeSet).runOn { world := () } = (.ok d, m₁) ∧
        0x10000 < usedClusters largeSet ∧ usedClusters largeSet ≤ maxClusters ∧
        s.FoundOn .absent d ∧ s.GiveSizes d.geometry (usedClusters largeSet) ∧
        s.Locate .absent d partitionStart d.partitionBlocks diskSignature := by
  have hfits : 0x10000 < usedClusters largeSet ∧ usedClusters largeSet ≤ maxClusters ∧
      oversized? largeSet (visibleFiles largeSet).1 = none := by
    decide +kernel
  obtain ⟨hlarge, hused, hoversized⟩ := hfits
  obtain ⟨m₁, hbuild⟩ := build_of_fits (σ := Unit) hoversized { world := () }
  obtain ⟨s, hagree⟩ := descriptions_agree hbuild hused .absent
  exact ⟨_, m₁, s, hbuild, hlarge, hused, hagree⟩

end BootVolume.Image
