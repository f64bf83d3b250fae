import BootVolume.Proofs.Image.Volume

/-!
# Files read back

A file that was placed on a built disk reads back from the volume: its chain has
the clusters that its length asks for, one read of these clusters is one read of
the file, and reads of an unpatched file over an honest source bring the same
bytes in whatever parts they are made.  The root directory names the visible
files with these chains.
-/

namespace BootVolume.Image

open Fat Files

variable {σ : Type}

/-- A file reads back through the chain that starts at `first`. -/
structure ReadsBack (storage : Storage σ) (d : VirtualDisk) (b : ParameterBlock) (first : UInt32)
    (file : FileEntry) : Prop where
  /-- There is no first cluster just if the file is empty. -/
  first_eq_zero_iff : first = 0 ↔ file.length = 0
  /-- The first two clusters belong to no file. -/
  two_le : file.length ≠ 0 → 2 ≤ first.toNat
  /-- The chain has as many clusters as the length asks for. -/
  chain : (d.volume storage b).chain first.toNat =
    pure (List.range' first.toNat (ceilDiv file.length clusterSize))
  /-- Both copies of the table agree on the chain, which ends in the end mark. -/
  entries : ∀ copy < 2, ∀ i < ceilDiv file.length clusterSize,
    (d.volume storage b).entry copy (first.toNat + i) =
      pure (if i + 1 = ceilDiv file.length clusterSize then 0x0FFFFFFF else first.toNat + i + 1)
  /-- One read of all clusters is one read of the file. -/
  whole : ∀ m : Machine σ,
    (((BlockDevice.partition d).readSectors storage (b.clusterSector first.toNat)
        (ceilDiv file.length clusterSize * b.sectorsPerCluster)).runOn m).1 =
      match ((file.read storage 0 file.length).runOn m).1 with
      | .ok data => .ok (data ++
          Bytes.zeros (ceilDiv file.length clusterSize * clusterSize - file.length))
      | .error _ => .error Status.deviceError
  /-- Any parts of all clusters bring the content and zeros behind it. -/
  parts : ∀ (good : Machine σ → Prop) (content : Bytes), file.patch = none →
    Honest storage good file.source content →
    ∀ counts : List Nat, counts.sum = ceilDiv file.length clusterSize * b.sectorsPerCluster →
    ∀ m, good m → ∃ m',
      ((BlockDevice.partition d).readInTurn storage (b.clusterSector first.toNat) counts).runOn m =
        (.ok (content ++
          Bytes.zeros (ceilDiv file.length clusterSize * clusterSize - file.length)), m') ∧
      good m'

namespace Built

variable {set : FileSet} {d : VirtualDisk} {b : ParameterBlock}

theorem blockPlace_clusterSector (built : Built set d) (describes : b.Describes d.geometry)
    (cluster : Nat) :
    BlockDevice.blockPlace (b.clusterSector cluster) = clusterPlace d.geometry cluster := by
  rw [describes.clusterSector_eq, clusterPlace, built.exact.dataStart_toNat]
  unfold BlockDevice.blockPlace BlockDevice.blockSize sectorSize clusterSize
  omega

/-- The clusters of a placed file lie inside the partition. -/
theorem clusters_inside (built : Built set d) (describes : b.Describes d.geometry) {p : Placement}
    (hp : p ∈ d.arrangement.placements) :
    b.clusterSector p.first.toNat + ceilDiv p.file.length clusterSize * 8 ≤
      d.partitionBlocks := by
  obtain ⟨cluster, hlow, hhigh, hstands⟩ := built.arranged.stand.exists_standsAt hp
  have hnext := built.next_le
  have hfirst := hstands.first
  rw [describes.clusterSector_eq, built.partitionBlocks_eq]
  by_cases hempty : p.file.length = 0
  · rw [if_pos hempty] at hfirst
    rw [hfirst, ceilDiv_clusterSize_eq_zero.mpr hempty]
    omega
  · rw [if_neg hempty] at hfirst
    rw [hfirst]
    omega

/-! ## Directories -/

theorem readClusters_metadata (built : Built set d) (describes : b.Describes d.geometry)
    (storage : Storage σ) {first count : Nat} (hfirst : 2 ≤ first)
    (hstop : first + count ≤ d.arrangement.rootClusters.toNat + 3) :
    (d.volume storage b).readClusters (List.range' first count) =
      pure (d.imageBytes (fun _ => []) (clusterPlace d.geometry first) (count * clusterSize)) := by
  have hroom := built.arranged.firmwareCluster_lt
  have hnext := built.next_le
  have hsum : (List.replicate count 8).sum = count * 8 := List.sum_replicate ..
  have hbytes : ((List.replicate count 8).map (· * BlockDevice.blockSize)).sum =
      count * clusterSize := by
    rw [List.sum_map_mul_right, List.map_id', hsum]
    unfold BlockDevice.blockSize sectorSize clusterSize
    omega
  have hplace := built.blockPlace_clusterSector describes first
  have hinside : clusterPlace d.geometry first + count * clusterSize ≤
      clusterPlace d.geometry (d.arrangement.rootClusters.toNat + 3) := by
    unfold clusterPlace clusterSize
    omega
  have hrange := Nat.le_trans hinside
    (built.clusterPlace_le_byteLength (Nat.le_trans hroom hnext))
  have hblocks : b.clusterSector first + (List.replicate count 8).sum ≤ d.partitionBlocks := by
    rw [hsum, describes.clusterSector_eq, built.partitionBlocks_eq]
    omega
  rw [VirtualDisk.volume, BlockDevice.readClusters_range' first hfirst,
    describes.sectorsPerCluster]
  refine BlockDevice.readInTurn_eq_pure hblocks ?_
  rw [← hbytes] at hrange hinside ⊢
  rw [hplace]
  exact readInTurn_without_files built.apart hrange (built.not_file_of_meets hinside) storage

/-- A directory is read from its clusters. -/
theorem readClusters_directory (built : Built set d) (describes : b.Describes d.geometry)
    (storage : Storage σ) (first count : Nat) (hfirst : 2 ≤ first)
    (hstop : first + count ≤ d.arrangement.rootClusters.toNat + 3) {data : Bytes}
    (hlength : data.length = count * clusterSize)
    (hmem : bytesRegion (clusterPlace d.geometry first) data ∈ d.regions) :
    (d.volume storage b).readClusters (List.range' first count) = pure data := by
  rw [built.readClusters_metadata describes storage hfirst hstop, ← hlength,
    imageBytes_of_stored built.apart hmem]

theorem rootDirectory_read (built : Built set d) (describes : b.Describes d.geometry)
    (storage : Storage σ) :
    (d.volume storage b).chain b.rootCluster =
        pure (List.range' 2 d.arrangement.rootClusters.toNat) ∧
      (d.volume storage b).readClusters (List.range' 2 d.arrangement.rootClusters.toNat) =
        pure (padDirectory (d.arrangement.rootDirectory set) clusterSize) := by
  have hoffset : clusterOffset d.geometry rootCluster = clusterPlace d.geometry 2 :=
    clusterOffset_eq built.exact (by decide) (by
      show 2 ≤ d.geometry.clusters.toNat + 2
      exact Nat.le_add_left ..)
  have hmem : bytesRegion (clusterPlace d.geometry 2)
      (padDirectory (d.arrangement.rootDirectory set) clusterSize) ∈ d.regions := by
    rw [built.regions, ← hoffset]
    exact List.mem_append_left _ (List.mem_append_right _ (List.mem_cons_self ..))
  refine ⟨?_, built.readClusters_directory describes storage _ _ (Nat.le_refl _) (by omega)
    built.arranged.length_padDirectory hmem⟩
  rw [describes.rootCluster]
  exact built.chain_eq describes storage (List.mem_cons_self ..)

/-! ## Files that are not empty -/

section Nonempty

variable {p : Placement}

theorem whole_of_nonempty (built : Built set d) (describes : b.Describes d.geometry)
    (hp : p ∈ d.arrangement.placements) (hlength : p.file.length ≠ 0) (storage : Storage σ)
    (m : Machine σ) :
    (((BlockDevice.partition d).readSectors storage (b.clusterSector p.first.toNat)
        (ceilDiv p.file.length clusterSize * 8)).runOn m).1 =
      match ((p.file.read storage 0 p.file.length).runOn m).1 with
      | .ok data => .ok (data ++
          Bytes.zeros (ceilDiv p.file.length clusterSize * clusterSize - p.file.length))
      | .error _ => .error Status.deviceError := by
  have hinside := built.clusters_inside describes hp
  have hsize : ceilDiv p.file.length clusterSize * 8 * BlockDevice.blockSize =
      ceilDiv p.file.length clusterSize * clusterSize := by
    unfold BlockDevice.blockSize sectorSize clusterSize
    omega
  have hread := read_room_of_file built.apart rfl (built.room_file hp hlength)
    (ceilDiv_mul_ge _ (by decide)) (by
      rw [← hsize, ← built.blockPlace_clusterSector describes, BlockDevice.blockPlace_add]
      exact Nat.mul_le_mul_right _ (Nat.add_le_add_left hinside _)) storage
  rw [BlockDevice.runOn_readSectors hinside, built.blockPlace_clusterSector describes, hsize, hread]
  rcases hfile : (p.file.read storage 0 p.file.length).runOn m with ⟨cause | data, m'⟩
  · rw [Action.runOn_bind_error hfile, BlockDevice.relay]
  · rw [Action.runOn_bind_ok hfile, Action.runOn_pure, BlockDevice.relay]

theorem parts_of_nonempty (built : Built set d) (describes : b.Describes d.geometry)
    (hp : p ∈ d.arrangement.placements) (hlength : p.file.length ≠ 0) {storage : Storage σ}
    {good : Machine σ → Prop} {content : Bytes} (hpatch : p.file.patch = none)
    (honest : Honest storage good p.file.source content) {counts : List Nat}
    (hcounts : counts.sum = ceilDiv p.file.length clusterSize * 8) {m : Machine σ} (hm : good m) :
    ∃ m', ((BlockDevice.partition d).readInTurn storage (b.clusterSector p.first.toNat)
        counts).runOn m = (.ok (content ++
          Bytes.zeros (ceilDiv p.file.length clusterSize * clusterSize - p.file.length)), m') ∧
      good m' := by
  have hinside := built.clusters_inside describes hp
  have hroom := built.room_file hp hlength
  have hcontent : content.length = p.file.length := honest.length_eq
  have hplace := built.blockPlace_clusterSector describes p.first.toNat
  set start := clusterPlace d.geometry p.first.toNat
  set length := (counts.map (· * BlockDevice.blockSize)).sum with hsum_def
  have hsum : length = ceilDiv p.file.length clusterSize * clusterSize := by
    rw [hsum_def, List.sum_map_mul_right, List.map_id', hcounts]
    unfold BlockDevice.blockSize sectorSize clusterSize
    omega
  -- The range meets no other region.
  have halone : ∀ r ∈ d.regions, r.Meets start (start + length) →
      r = ⟨start, p.file.length, .file p.file⟩ := by
    intro r hr hmeets
    unfold Region.Meets at hmeets
    rcases hroom.alone r hr with rfl | hbefore | hafter
    · rfl
    · simp only at hbefore
      omega
    · omega
  have hrange : start + length ≤ d.byteLength := by
    rw [hsum_def, List.sum_map_mul_right, List.map_id', hcounts, ← hplace,
      BlockDevice.blockPlace_add]
    exact Nat.mul_le_mul_right _ (Nat.add_le_add_left hinside _)
  have hserved : ServedIn storage good (fun _ => content) d.regions start (start + length) := by
    intro r hr hmeets file hfile
    obtain rfl := halone r hr hmeets
    cases hfile
    exact ⟨hpatch, honest.toServes⟩
  have hheld : HeldIn (fun _ => content) d.regions start (start + length) := by
    intro r hr hmeets file hfile
    obtain rfl := halone r hr hmeets
    simp only [Region.segment, Region.stop]
    omega
  obtain ⟨m', hread, hm'⟩ := runOn_readInTurn_held built.apart hrange hserved hheld hm
  rw [← hcounts] at hinside
  refine ⟨m', BlockDevice.runOn_readInTurn_ok hinside ?_, hm'⟩
  rw [hplace, hread, ← hsum_def, hsum,
    imageBytes_of_file hroom built.apart rfl hcontent.symm (Nat.le_refl _), hcontent, Bytes.slice, List.drop_zero,
    List.take_of_length_le (by rw [hcontent]; exact ceilDiv_mul_ge _ (by decide))]

end Nonempty

/-! ## All files -/

theorem readSectors_nothing (built : Built set d) (storage : Storage σ) {block : Nat}
    (hinside : block ≤ d.partitionBlocks) :
    (BlockDevice.partition d).readSectors storage block 0 = pure [] := by
  refine BlockDevice.readSectors_eq_pure hinside ?_
  rw [Nat.zero_mul, read_without_files built.apart (Nat.mul_le_mul_right _
    (Nat.add_le_add_left hinside _)) (fun r hr hmeets => ?_) storage]
  · rfl
  · unfold Region.Meets at hmeets
    omega

theorem readInTurn_nothing (built : Built set d) (storage : Storage σ) {block : Nat}
    (hinside : block ≤ d.partitionBlocks) {counts : List Nat} (hcounts : counts.sum = 0) :
    (BlockDevice.partition d).readInTurn storage block counts = pure [] := by
  induction counts with
  | nil => rfl
  | cons count rest ih =>
      rw [List.sum_cons, Nat.add_eq_zero_iff] at hcounts
      obtain ⟨rfl, hrest⟩ := hcounts
      rw [BlockDevice.readInTurn, built.readSectors_nothing storage hinside, pure_bind,
        Nat.add_zero, ih hrest, pure_bind]
      rfl

section AllFiles

variable {p : Placement}

/-- A file without bytes has no clusters, and nothing is read of it. -/
theorem readsBack_of_empty (built : Built set d) (describes : b.Describes d.geometry)
    (hp : p ∈ d.arrangement.placements) (hempty : p.file.length = 0)
    (hfirst : p.first.toNat = 0) (storage : Storage σ) :
    ReadsBack storage d b p.first p.file := by
  have hcount := ceilDiv_clusterSize_eq_zero.mpr hempty
  have hinside := built.clusters_inside describes hp
  rw [hcount, Nat.zero_mul, Nat.add_zero] at hinside
  refine ⟨?_, fun hlength => absurd hempty hlength, ?_, ?_, fun m => ?_,
    fun good content hpatch honest counts hcounts m hm => ?_⟩
  · rw [← UInt32.toNat_inj, hfirst]
    exact iff_of_true rfl hempty
  · rw [hfirst, hcount]
    exact chain_zero storage
  · rw [hcount]
    exact fun _ _ i hi => absurd hi (Nat.not_lt_zero i)
  · obtain ⟨m', hnothing⟩ := p.file.read_nothing storage 0 m
    rw [hcount, hempty, hnothing, Nat.zero_mul, built.readSectors_nothing storage hinside]
    rfl
  · rw [hcount, Nat.zero_mul] at hcounts
    have hnil : content = [] := List.eq_nil_of_length_eq_zero (honest.length_eq.trans hempty)
    refine ⟨m, ?_, hm⟩
    rw [built.readInTurn_nothing storage hinside hcounts, hnil, hcount, hempty]
    rfl

/-- A file with bytes is read over its chain. -/
theorem readsBack_of_nonempty (built : Built set d) (describes : b.Describes d.geometry)
    (hp : p ∈ d.arrangement.placements) (hlength : p.file.length ≠ 0)
    (hfirst : 2 ≤ p.first.toNat) (storage : Storage σ) :
    ReadsBack storage d b p.first p.file := by
  have hspc := describes.sectorsPerCluster
  have hchain := built.arranged.mem_chains_of_nonempty hp hlength
  obtain ⟨_, -, -, hstands⟩ := built.arranged.stand.exists_standsAt hp
  refine ⟨?_, fun _ => hfirst, ?_, ?_, ?_, ?_⟩
  · rw [← UInt32.toNat_inj]
    refine iff_of_false (fun hzero => ?_) hlength
    rw [hzero] at hfirst
    exact absurd hfirst (by decide)
  · rw [← hstands.count]
    exact built.chain_eq describes storage hchain
  · rw [← hstands.count]
    exact fun copy hcopy i hi => built.entry_of_chain describes storage hcopy hchain hi
  · rw [hspc]
    exact built.whole_of_nonempty describes hp hlength storage
  · rw [hspc]
    exact fun good content hpatch honest counts hcounts m hm =>
      built.parts_of_nonempty describes hp hlength hpatch honest hcounts hm

theorem readsBack (built : Built set d) (describes : b.Describes d.geometry)
    (hp : p ∈ d.arrangement.placements) (storage : Storage σ) :
    ReadsBack storage d b p.first p.file := by
  rcases built.arranged.first_cases hp with ⟨hempty, hzero⟩ | ⟨hlength, hfar⟩
  · exact built.readsBack_of_empty describes hp hempty (congrArg UInt32.toNat hzero) storage
  · exact built.readsBack_of_nonempty describes hp hlength (by omega) storage

end AllFiles

/-- Each file that is shown, and the boot target, reads back from the cluster that its entries
name. -/
theorem readsBack_at (built : Built set d) (describes : b.Describes d.geometry) {i : Nat}
    {file : FileEntry} (hfile : set.files[i]? = some file)
    (hplaced : i = set.boot ∨ ∃ v ∈ (visibleFiles set).1, v.index = i) (storage : Storage σ) :
    ReadsBack storage d b (d.arrangement.firstCluster i) file := by
  obtain ⟨p, hp, rfl, rfl⟩ := built.arranged.exists_placement hfile hplaced
  rw [built.arranged.firstCluster_of_mem hp]
  exact built.readsBack describes hp storage

end Built

/-- A driver that reads the whole file over an honest source gets its content. -/
theorem ReadsBack.readFile {storage : Storage σ} {d : VirtualDisk} {b : ParameterBlock}
    {first : UInt32} {file : FileEntry} (back : ReadsBack storage d b first file)
    (hpatch : file.patch = none) {good : Machine σ → Prop} {content : Bytes}
    (honest : Honest storage good file.source content) {item : Listed}
    (hcluster : item.cluster = first.toNat) (hsize : item.size = file.length) {m : Machine σ}
    (hm : good m) :
    ∃ m', ((d.volume storage b).readFile item).runOn m = (.ok content, m') ∧ good m' := by
  have hcontent : content.length = file.length := honest.length_eq
  rw [Mounted.readFile, hcluster, back.chain, pure_bind, hsize]
  by_cases hempty : file.length = 0
  · refine ⟨m, ?_, hm⟩
    rw [hempty] at hcontent
    rw [ceilDiv_clusterSize_eq_zero.mpr hempty, List.eq_nil_of_length_eq_zero hcontent, hempty]
    rfl
  · obtain ⟨m', hread, hm'⟩ := back.parts good content hpatch honest
      (List.replicate (ceilDiv file.length clusterSize) b.sectorsPerCluster)
      (List.sum_replicate ..) m hm
    refine ⟨m', ?_, hm'⟩
    rw [VirtualDisk.volume, BlockDevice.readClusters_range' _ (back.two_le hempty),
      Action.runOn_bind_ok hread, Action.runOn_pure, ← hcontent, List.take_left']
    rfl

/-- The files of a built disk read back through the volume on its partition: the root
directory has the slots of the visible files, each under its stored name, and each file reads
back through the chain that its slots name. -/
theorem files_read_back {set : FileSet} {d : VirtualDisk} {m₀ m₁ : Machine σ}
    (hbuild : (VirtualDisk.build set).runOn m₀ = (.ok d, m₁))
    (hused : usedClusters set ≤ maxClusters) (storage : Storage σ) :
    ∃ (b : ParameterBlock) (first : Nat → UInt32) (clusters : List Nat) (firmware : UInt32)
        (padding : Nat),
      (BlockDevice.partition d).mount? storage = pure (some (d.volume storage b)) ∧
      b.Describes d.geometry ∧
      (d.volume storage b).chain b.rootCluster = pure clusters ∧
      (d.volume storage b).readClusters clusters = pure (
        directoryHead firmware ++ ((visibleFiles set).1.flatMap fun v => v.slots (first v.index)) ++
          aliasSlots (bootAlias? set.boot (visibleFiles set).1) (first set.boot) set.bootTarget ++
          Bytes.zeros padding) ∧
      ∀ v ∈ (visibleFiles set).1,
        storedName? v.file.baseName = some v.stored ∧
        (UInt32.ofNat v.file.length).toNat = v.file.length ∧
        ReadsBack storage d b (first v.index) v.file := by
  have built := built_of_build hbuild hused
  obtain ⟨b, describes, hmount⟩ := built.mount?_eq storage
  obtain ⟨hchain, hroot⟩ := built.rootDirectory_read describes storage
  have shows := shows_visibleFiles set
  obtain ⟨hfits, -⟩ := fits_of_oversized? (eq_assemble_of_build hbuild).1
  obtain ⟨padding, hpadding⟩ := padDirectory_eq_append (d.arrangement.rootDirectory set)
  refine ⟨b, d.arrangement.firstCluster, _, d.arrangement.firmwareCluster, padding, hmount,
    describes, hchain, ?_, fun v hv => ⟨?_, ?_, ?_⟩⟩
  · rw [hroot, hpadding, built.arranged.rootDirectory_eq]
  · exact (accept_eq_ok_iff.mp (shows.accepted v hv)).1
  · rw [UInt32.toNat_ofNat']
    exact Nat.mod_eq_of_lt (hfits v hv)
  · exact built.readsBack_at describes (shows.at_index v hv) (Or.inr ⟨v, hv, rfl⟩) storage

theorem smallSet_reads_back :
    ∃ (d : VirtualDisk) (m₁ m₂ : Machine Unit) (b : ParameterBlock) (first : UInt32),
      (VirtualDisk.build smallSet).runOn { world := () } = (.ok d, m₁) ∧
        usedClusters smallSet ≤ maxClusters ∧
        ((BlockDevice.partition d).readInTurn .absent (b.clusterSector first.toNat) [3, 5]).runOn
          m₁ = (.ok ([1, 2, 3] ++ Bytes.zeros 4093), m₂) := by
  have hused : usedClusters smallSet ≤ maxClusters := by decide
  have hoversized : oversized? smallSet (visibleFiles smallSet).1 = none := by decide
  have hvisible : ∃ v ∈ (visibleFiles smallSet).1,
      v.file = { name := "bootmgfw.efi", source := .memory [1, 2, 3] } := by decide
  obtain ⟨m₁, hbuild⟩ := build_of_fits (σ := Unit) hoversized { world := () }
  obtain ⟨b, first, -, -, -, -, describes, -, -, hfiles⟩ := files_read_back hbuild hused .absent
  obtain ⟨v, hv, hfile⟩ := hvisible
  obtain ⟨-, -, hback⟩ := hfiles v hv
  rw [hfile] at hback
  obtain ⟨m₂, hread, -⟩ := hback.parts (fun _ => True) [1, 2, 3] rfl (honest_memory _ _ _) [3, 5]
    (by rw [describes.sectorsPerCluster]; rfl) m₁ trivial
  exact ⟨_, m₁, m₂, b, first v.index, hbuild, hused, hread⟩

end BootVolume.Image
