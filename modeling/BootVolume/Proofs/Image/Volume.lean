import BootVolume.Proofs.BlockDevice
import BootVolume.Proofs.Fat.Mounted
import BootVolume.Proofs.Fat.ParameterBlock
import BootVolume.Proofs.Image.Rooms

/-!
# The volume on a built disk

What a driver sees that mounts the partition of a built disk: the parameter block
gives the sizes of the layout, both copies of the table give the entries of the
arrangement, chains lead through the clusters that were set aside for them, and
the clusters of a chain hold what the disk has at their place.
-/

namespace BootVolume.Image

open Fat Files

variable {σ : Type}

/-- The volume on the partition of a disk. -/
def VirtualDisk.volume (storage : Storage σ) (d : VirtualDisk) (block : ParameterBlock) :
    Mounted (Action σ Status) where
  block
  read := (BlockDevice.partition d).readSectors storage

/-- The parameter block of the volume on the partition of a disk. -/
def VirtualDisk.parameterBlock (d : VirtualDisk) : ParameterBlock :=
  d.geometry.parameterBlock (UInt32.ofNat partitionStart) diskSignature

/-! ## The bytes of a room -/

section Bytes

variable {d : VirtualDisk} {content : FileEntry → Bytes} {r : Region} {stop offset count : Nat}

theorem imageBytes_of_room (room : Room d.regions r stop) (apart : Apart d.regions)
    (hlow : r.start ≤ offset) (hhigh : offset + count ≤ stop)
    (hrest : ∀ position, r.length ≤ position →
      r.content.byteAt content d.arrangement.table position = 0) :
    d.imageBytes content offset count = (List.range count).map fun i =>
      r.content.byteAt content d.arrangement.table (offset - r.start + i) := by
  refine List.map_congr_left fun i hi => ?_
  have hi := List.mem_range.mp hi
  rw [room.imageByte_eq apart (by omega) (by omega)
    (fun hbehind => hrest _ (by unfold Region.stop at hbehind; omega))]
  congr 1
  omega

/-- Where bytes are stored, they are the bytes of the disk. -/
theorem imageBytes_of_stored {place : Nat} {data : Bytes} (apart : Apart d.regions)
    (hmem : bytesRegion place data ∈ d.regions) :
    d.imageBytes content place data.length = data := by
  calc d.imageBytes content place data.length
      = (List.range data.length).map fun i => data.getD i 0 := imageBytes_of_mem apart hmem
    _ = (List.range data.length).map fun i => data.getD (0 + i) 0 := by simp only [Nat.zero_add]
    _ = Bytes.slice data 0 data.length ++ Bytes.zeros 0 := by
        rw [Bytes.map_getD_range, Nat.sub_zero, Nat.sub_self]
    _ = data := by rw [Bytes.slice_whole]; exact List.append_nil data

theorem imageBytes_of_file {file : FileEntry} (room : Room d.regions r stop)
    (apart : Apart d.regions) (hcontent : r.content = .file file)
    (hlength : r.length = (content file).length) (hstop : r.start + count ≤ stop) :
    d.imageBytes content r.start count =
      Bytes.slice (content file) 0 count ++ Bytes.zeros (count - (content file).length) := by
  rw [imageBytes_of_room room apart (Nat.le_refl _) hstop, hcontent, Nat.sub_self]
  · exact Bytes.map_getD_range (content file) 0 count
  · intro position hposition
    rw [hcontent]
    exact List.getD_eq_default _ _ (by omega)

end Bytes

namespace Built

variable {set : FileSet} {d : VirtualDisk} {b : ParameterBlock}

theorem partitionBlocks_eq (built : Built set d) :
    d.partitionBlocks = 32 + 2 * d.geometry.tableSectors.toNat + 8 * d.geometry.clusters.toNat :=
  built.exact.total

theorem clusterPlace_le_byteLength (built : Built set d) {cluster : Nat}
    (hcluster : cluster ≤ d.geometry.clusters.toNat + 2) :
    clusterPlace d.geometry cluster ≤ d.byteLength := by
  rw [byteLength_eq built.exact]
  unfold clusterPlace clusterSize
  omega

/-- The files stand behind both directories. -/
theorem clusterPlace_le_of_file (built : Built set d) {r : Region} (hr : r ∈ d.regions)
    {file : FileEntry} (hfile : r.content = .file file) :
    clusterPlace d.geometry (d.arrangement.rootClusters.toNat + 3) ≤ r.start := by
  obtain ⟨p, hp, -, hregion⟩ := built.exists_placement_of_region hr hfile
  have hfiles := inOrder_fileRegions built.exact built.arranged.stand (by omega) built.next_le
  exact (hfiles.bounds (List.mem_filterMap.mpr ⟨p, hp, hregion⟩)).1

theorem not_file_of_meets (built : Built set d) {start stop : Nat}
    (hstop : stop ≤ clusterPlace d.geometry (d.arrangement.rootClusters.toNat + 3)) :
    ∀ r ∈ d.regions, r.Meets start stop → ∀ file, r.content ≠ .file file := by
  intro r hr hmeets file hfile
  have := built.clusterPlace_le_of_file hr hfile
  unfold Region.Meets at hmeets
  omega

/-- Metadata are read without touching the machine. -/
theorem readSectors_metadata (built : Built set d) (storage : Storage σ) (sector count : Nat)
    (hstop : BlockDevice.blockPlace (sector + count) ≤
      clusterPlace d.geometry (d.arrangement.rootClusters.toNat + 3)) :
    (BlockDevice.partition d).readSectors storage sector count =
      pure (d.imageBytes (fun _ => []) (BlockDevice.blockPlace sector) (count * 512)) := by
  have hroom := built.arranged.firmwareCluster_lt
  have hnext := built.next_le
  have hinside := built.clusterPlace_le_byteLength (Nat.le_trans hroom hnext)
  have hrange : BlockDevice.blockPlace sector + count * BlockDevice.blockSize ≤ d.byteLength := by
    rw [BlockDevice.blockPlace_add]
    exact Nat.le_trans hstop hinside
  refine BlockDevice.readSectors_eq_pure ?_ (read_without_files built.apart hrange ?_ storage)
  · have hbytes : d.byteLength = BlockDevice.blockPlace d.partitionBlocks := rfl
    rw [BlockDevice.blockPlace_add, hbytes] at hrange
    unfold BlockDevice.blockPlace BlockDevice.blockSize sectorSize at hrange
    omega
  · refine built.not_file_of_meets ?_
    rw [BlockDevice.blockPlace_add]
    exact hstop

/-- Where bytes are stored before all files, the disk reads as these bytes. -/
theorem read_stored (built : Built set d) (storage : Storage σ) {place count : Nat} {data : Bytes}
    (hlength : data.length = count)
    (hstop : place + count ≤ clusterPlace d.geometry (d.arrangement.rootClusters.toNat + 3))
    (hmem : bytesRegion place data ∈ d.regions) : d.read storage place count = pure data := by
  subst hlength
  have hinside := built.clusterPlace_le_byteLength
    (Nat.le_trans built.arranged.firmwareCluster_lt built.next_le)
  calc d.read storage place data.length
      = pure (d.imageBytes (fun _ => []) place data.length) :=
        read_without_files built.apart (Nat.le_trans hstop hinside)
          (built.not_file_of_meets hstop) storage
    _ = pure data := by rw [imageBytes_of_stored built.apart hmem]

/-- The sectors before the tables stand before all files. -/
theorem reserved_le_clusterPlace (built : Built set d) :
    (partitionStart + 32) * 512 ≤
      clusterPlace d.geometry (d.arrangement.rootClusters.toNat + 3) := by
  rw [clusterPlace, built.exact.dataStart_toNat]
  unfold sectorSize
  omega

/-- Where a sector is stored, a driver reads it. -/
theorem readSectors_stored (built : Built set d) (storage : Storage σ) {sector : Nat} {data : Bytes}
    (hlength : data.length = 512) (hsector : sector < 32)
    (hmem : bytesRegion (BlockDevice.blockPlace sector) data ∈ d.regions) :
    (BlockDevice.partition d).readSectors storage sector 1 = pure data := by
  have hblocks := built.partitionBlocks_eq
  have hreserved := built.reserved_le_clusterPlace
  apply BlockDevice.readSectors_eq_pure
  · omega
  · apply built.read_stored storage hlength _ hmem
    unfold BlockDevice.blockPlace BlockDevice.blockSize sectorSize
    omega

/-- Where a sector is stored, it is read from the whole disk as well. -/
theorem readSectors_wholeDisk_stored (built : Built set d) (storage : Storage σ) {sector : Nat}
    {data : Bytes} (hlength : data.length = 512) (hsector : sector < partitionStart + 32)
    (hmem : bytesRegion (sector * BlockDevice.blockSize) data ∈ d.regions) :
    (BlockDevice.wholeDisk d).readSectors storage sector 1 = pure data := by
  have hpartition := built.partitionBlocks_eq
  have hblocks : d.blocks = partitionStart + d.partitionBlocks := rfl
  have hreserved := built.reserved_le_clusterPlace
  apply BlockDevice.readSectors_wholeDisk_eq_pure
  · omega
  · apply built.read_stored storage hlength _ hmem
    unfold BlockDevice.blockSize sectorSize
    omega

theorem mem_regions_of_sector (built : Built set d) {r : Region}
    (hr : r ∈ sectorRegions d.arrangement) : r ∈ d.regions := by
  rw [built.regions]
  exact List.mem_append_left _ (List.mem_append_left _ (List.mem_append_left _ hr))

/-! ## Mounting -/

theorem mount?_block (built : Built set d) (storage : Storage σ) :
    (BlockDevice.partition d).mount? storage =
      pure (some (d.volume storage d.parameterBlock)) := by
  have hmem := built.mem_regions_of_sector
    (List.mem_cons_of_mem _ (List.mem_cons_self ..) : bytesRegion (sectorOffset 0) _ ∈ _)
  have hread : (BlockDevice.partition d).readSectors storage 0 1 = pure _ :=
    built.readSectors_stored storage (length_bootSector ..) (by decide) hmem
  rw [BlockDevice.mount?, hread, pure_bind, ofSector?_bootSector]
  rfl

theorem mount?_eq (built : Built set d) (storage : Storage σ) :
    ∃ b : ParameterBlock, b.Describes d.geometry ∧
      (BlockDevice.partition d).mount? storage = pure (some (d.volume storage b)) :=
  ⟨_, ParameterBlock.describes_parameterBlock .., built.mount?_block storage⟩

/-- The summary of the free space. -/
theorem readSectors_freeSpace (built : Built set d) (storage : Storage σ) :
    (BlockDevice.partition d).readSectors storage 1 1 =
      pure (freeSpaceSector (d.geometry.clusters - d.arrangement.used) d.arrangement.next) := by
  have hmem := built.mem_regions_of_sector
    (List.mem_cons_of_mem _ (List.mem_cons_of_mem _ (List.mem_cons_self ..)) :
      bytesRegion (sectorOffset infoSector) _ ∈ _)
  exact built.readSectors_stored storage (length_freeSpaceSector ..) (by decide) hmem

/-! ## The table -/

/-- Each copy of the table reads as the whole table of the arrangement. -/
theorem readSectors_table (built : Built set d) (storage : Storage σ) {copy : Nat}
    (hcopy : copy < 2) {sector count : Nat} (hstop : sector + count ≤ d.geometry.tableSectors.toNat) :
    (BlockDevice.partition d).readSectors storage
        (32 + copy * d.geometry.tableSectors.toNat + sector) count =
      pure (d.arrangement.table.read (512 * sector) (count * 512)) := by
  have hword : (UInt32.ofNat copy).toNat = copy := by
    rw [UInt32.toNat_ofNat']
    omega
  have hcopies : copy = 0 ∨ copy = 1 := by omega
  have hroom := built.room_table (UInt32.ofNat copy) (by omega)
  have hstart : sectorOffset (d.geometry.tableStart (UInt32.ofNat copy)) =
      BlockDevice.blockPlace (32 + copy * d.geometry.tableSectors.toNat) := by
    rw [sectorOffset, built.exact.tableStart_toNat _ (by omega), hword]
    rfl
  have hdata := built.exact.dataStart_toNat
  rw [hstart] at hroom
  rw [built.readSectors_metadata storage _ _, imageBytes_of_room hroom built.apart]
  · have hplace : BlockDevice.blockPlace (32 + copy * d.geometry.tableSectors.toNat + sector) -
        BlockDevice.blockPlace (32 + copy * d.geometry.tableSectors.toNat) = 512 * sector := by
      unfold BlockDevice.blockPlace BlockDevice.blockSize sectorSize
      omega
    simp only [hplace]
    rfl
  · unfold BlockDevice.blockPlace
    exact Nat.mul_le_mul_right _ (by omega)
  · unfold BlockDevice.blockPlace BlockDevice.blockSize sectorSize
    omega
  · intro position hposition
    exact Table.byteAt_of_behind built.arranged.abut hposition
  · rw [clusterPlace, hdata]
    unfold BlockDevice.blockPlace BlockDevice.blockSize sectorSize
    rcases hcopies with rfl | rfl <;> omega

theorem entry_eq (built : Built set d) (describes : b.Describes d.geometry)
    (storage : Storage σ) {copy n : Nat} (hcopy : copy < 2)
    (hn : n < d.geometry.clusters.toNat + 2) :
    (d.volume storage b).entry copy n =
      pure ((d.arrangement.table.entry n).toNat % 0x10000000) := by
  have htable := built.exact.table_ge
  have hinside : 4 * n / 512 + 1 ≤ d.geometry.tableSectors.toNat := by omega
  have hsector := built.readSectors_table storage hcopy hinside
  have hentry := d.arrangement.table.word32_read n (512 * (4 * n / 512)) 512 (by omega) (by omega)
  simp only [Mounted.entry, VirtualDisk.volume, describes.tableStart_eq, describes.sectorSize,
    hsector, pure_bind]
  rw [show 4 * n % 512 = 4 * n - 512 * (4 * n / 512) by omega, Nat.one_mul, hentry]

theorem next_le_marks (built : Built set d) : d.arrangement.next.toNat ≤ 0x0FFFFFF7 := by
  have := built.next_le
  have hclusters := built.exact.clusters_le
  unfold maxClusters at hclusters
  omega

/-- In both copies of the table the entries of a chain lead from cluster to cluster, and the
last one is the end mark. -/
theorem entry_of_chain (built : Built set d) (describes : b.Describes d.geometry)
    (storage : Storage σ) {copy : Nat} (hcopy : copy < 2) {c : Chain}
    (hc : c ∈ d.arrangement.chains) {i : Nat} (hi : i < c.count.toNat) :
    (d.volume storage b).entry copy (c.first.toNat + i) =
      pure (if i + 1 = c.count.toNat then 0x0FFFFFFF else c.first.toNat + i + 1) := by
  have hbounds := built.arranged.abut.bounds hc
  have hmarks := built.next_le_marks
  have hnext := built.next_le
  unfold Chain.stop at hbounds
  rw [built.entry_eq describes storage hcopy (by omega),
    Table.entry_of_covers (t := d.arrangement.table) built.arranged.abut
      d.arrangement.next.toNat_lt hc (Nat.le_add_right ..) (by unfold Chain.stop; omega)]
  congr 1
  by_cases hlast : i + 1 = c.count.toNat
  · rw [if_pos hlast, if_pos (by unfold Chain.stop; omega)]
    rfl
  · rw [if_neg hlast, if_neg (by unfold Chain.stop; omega), UInt32.toNat_ofNat']
    omega

theorem chain_eq (built : Built set d) (describes : b.Describes d.geometry)
    (storage : Storage σ) {c : Chain} (hc : c ∈ d.arrangement.chains) :
    (d.volume storage b).chain c.first.toNat =
      pure (List.range' c.first.toNat c.count.toNat) := by
  have hbounds := built.arranged.abut.bounds hc
  have hmarks := built.next_le_marks
  have hnext := built.next_le
  unfold Chain.stop at hbounds
  refine Mounted.chainFrom_eq 0x0FFFFFFF hbounds.1 (by omega) ?_ (by decide)
    (fun i hi => built.entry_of_chain describes storage (by decide) hc hi) hbounds.2.1
  show c.count.toNat ≤ b.clusterCount
  rw [describes.clusterCount_eq built.exact]
  omega

theorem chain_zero (storage : Storage σ) : (d.volume storage b).chain 0 = pure [] :=
  Mounted.chainFrom_of_not_isLink (by decide) _

end Built

end BootVolume.Image
