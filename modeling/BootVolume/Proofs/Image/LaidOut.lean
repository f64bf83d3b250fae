import BootVolume.Proofs.Image.Rooms

/-!
# The layout of a built disk

`LaidOut` collects what must hold of the regions of a disk before any request is
answered from them: they are sorted and do not overlap, they lie inside the disk,
each copy of the table inside its sectors and the root directory inside the
clusters that were reserved for it, and as many bytes are kept for a region as it
claims.  The last is why no request cuts out of kept bytes more than there are
(`LaidOut.cuts`).
-/

namespace BootVolume.Image

open Fat Files

variable {σ : Type}

/-- The bytes that are kept for a region; those of a file are not, its source has them. -/
def Content.kept? (table : Table) : Content → Option Bytes
  | .bytes data => some data
  | .table => some table.bytes
  | .file _ => none

/-- What a request from `start` to `stop` takes of a region that it meets lies inside the
region, has its place in the answer, and is cut out of the bytes kept for the region without
running over their end. -/
structure Region.CutsInside (table : Table) (r : Region) (start stop : Nat) : Prop where
  inside : (r.segment start stop).1 + (r.segment start stop).2 ≤ r.length
  placed : max start r.start - start + (r.segment start stop).2 ≤ stop - start
  cut : ∀ data, r.content.kept? table = some data →
    (r.segment start stop).1 + (r.segment start stop).2 ≤ data.length ∧
      ∀ {σ : Type} (storage : Storage σ),
        r.content.read storage table (r.segment start stop).1 (r.segment start stop).2 =
          pure (Bytes.slice data (r.segment start stop).1 (r.segment start stop).2)

/-- The layout of the disk of a file set. -/
structure LaidOut (set : FileSet) (d : VirtualDisk) : Prop where
  sorted : d.regions.Pairwise fun r s => r.start ≤ s.start
  nonempty : ∀ r ∈ d.regions, 0 < r.length
  disjoint : d.regions.Pairwise fun r s => ∀ position, ¬ (r.Has position ∧ s.Has position)
  inside : ∀ r ∈ d.regions, r.stop ≤ d.blocks * 512
  /-- Both copies of the table are there, and each fits into its sectors. -/
  tables : ∀ copy : UInt32, copy.toNat < 2 → ∃ r ∈ d.regions, r.content = .table ∧
    r.start = sectorOffset (d.geometry.tableStart copy)
  tables_fit : ∀ r ∈ d.regions, r.content = .table → ∃ copy : UInt32, copy.toNat < 2 ∧
    r.start = sectorOffset (d.geometry.tableStart copy) ∧
    r.length ≤ d.geometry.tableSectors.toNat * 512
  /-- The clusters of the root directory are those for the slots that were counted. -/
  reserved : d.arrangement.rootClusters.toNat =
    max (ceilDiv (Arrangement.rootSlots (visibleFiles set).1 d.arrangement.bootAlias * 32) 4096) 1
  written : (d.arrangement.rootDirectory set).length =
    Arrangement.rootSlots (visibleFiles set).1 d.arrangement.bootAlias * 32
  /-- The root directory fills the clusters reserved for it, up to the directory `\EFI`. -/
  root : ∃ r ∈ d.regions, ∃ s ∈ d.regions,
    r.content = .bytes (padDirectory (d.arrangement.rootDirectory set) clusterSize) ∧
    r.start = clusterOffset d.geometry rootCluster ∧
    r.length = d.arrangement.rootClusters.toNat * 4096 ∧ r.stop = s.start ∧
    s.content = .bytes (padDirectory d.arrangement.firmwareDirectorySlots clusterSize) ∧
    s.start = clusterOffset d.geometry d.arrangement.firmwareCluster
  kept : ∀ r ∈ d.regions, ∀ data, r.content.kept? d.arrangement.table = some data →
    data.length = r.length
  files : ∀ r ∈ d.regions, ∀ file, r.content = .file file → r.length = file.length
  cuts : ∀ offset count, ∀ r ∈ touchedRegions d.regions offset (offset + count),
    r.Meets offset (offset + count) → r.CutsInside d.arrangement.table offset (offset + count)

theorem touchedRegions_subset (regions : List Region) (start stop : Nat) :
    touchedRegions regions start stop ⊆ regions :=
  ((List.takeWhile_sublist _).trans (List.drop_sublist _ _)).subset

/-- Reading what is kept for a region cuts it out of the kept bytes. -/
theorem Content.read_kept {content : Content} {table : Table} {data : Bytes}
    (hkept : content.kept? table = some data) (storage : Storage σ) {position length : Nat}
    (hinside : position + length ≤ data.length) :
    content.read storage table position length = pure (Bytes.slice data position length) := by
  cases content with
  | bytes stored =>
      cases hkept
      rfl
  | table =>
      cases hkept
      rw [Table.length_bytes] at hinside
      exact congrArg pure (Table.read_eq_slice hinside)
  | file entry => cases hkept

theorem Region.cutsInside {table : Table} {r : Region} {start stop : Nat}
    (hkept : ∀ data, r.content.kept? table = some data → data.length = r.length)
    (hmeets : r.Meets start stop) : r.CutsInside table start stop := by
  have hinside : (r.segment start stop).1 + (r.segment start stop).2 ≤ r.length := by
    unfold Region.Meets Region.stop at hmeets
    unfold Region.segment Region.stop
    simp only
    omega
  refine ⟨hinside, ?_, fun data hdata => ?_⟩
  · unfold Region.Meets at hmeets
    unfold Region.segment
    simp only
    omega
  · rw [← hkept data hdata] at hinside
    exact ⟨hinside, fun storage => Content.read_kept hdata storage hinside⟩

namespace Built

variable {set : FileSet} {d : VirtualDisk}

theorem length_of_kept (built : Built set d) {r : Region} (hr : r ∈ d.regions) {data : Bytes}
    (hkept : r.content.kept? d.arrangement.table = some data) : data.length = r.length := by
  rcases built.region_cases hr with ⟨start, stored, rfl⟩ | ⟨-, -, -, hlength, htable⟩ |
    ⟨p, -, hregion⟩
  · cases hkept
    rfl
  · rw [htable] at hkept
    cases hkept
    rw [hlength, Table.length_bytes]
  · unfold fileRegion? at hregion
    split at hregion
    · cases hregion
    · cases hregion
      cases hkept

theorem length_of_file (built : Built set d) {r : Region} (hr : r ∈ d.regions) {file : FileEntry}
    (hfile : r.content = .file file) : r.length = file.length := by
  obtain ⟨p, hp, rfl, hregion⟩ := built.exists_placement_of_region hr hfile
  obtain ⟨_, -, -, hstands⟩ := built.arranged.stand.exists_standsAt hp
  unfold fileRegion? at hregion
  split at hregion
  · cases hregion
  · cases hregion
    exact hstands.size

theorem table_fits (built : Built set d) :
    d.arrangement.table.size ≤ d.geometry.tableSectors.toNat * 512 := by
  have hsectors := built.exact.table_ge
  have hnext := built.next_le
  show 4 * d.arrangement.next.toNat ≤ _
  omega

/-- The root directory fills its clusters up to the directory `\EFI`. -/
theorem root_fills (built : Built set d) :
    clusterOffset d.geometry rootCluster + d.arrangement.rootClusters.toNat * 4096 =
      clusterOffset d.geometry d.arrangement.firmwareCluster := by
  have hroom := built.arranged.firmwareCluster_lt
  have hfirmware := built.arranged.firmwareCluster_toNat
  have hnext := built.next_le
  rw [clusterOffset_eq built.exact (by decide) (by rw [show rootCluster.toNat = 2 from rfl]; omega),
    clusterOffset_eq built.exact (by omega) (by omega), hfirmware]
  unfold clusterPlace clusterSize
  simp only [rootCluster, UInt32.reduceToNat]
  omega

end Built

/-- Whatever the files of a set are called and however long they are: if the disk is built
and no cluster number wraps, its regions are laid out as reading needs them. -/
theorem built_disk_laid_out {set : FileSet} {d : VirtualDisk} {m₀ m₁ : Machine σ}
    (hbuild : (VirtualDisk.build set).runOn m₀ = (.ok d, m₁))
    (hused : usedClusters set ≤ maxClusters) : LaidOut set d := by
  have built := built_of_build hbuild hused
  have hordered := built.apart.ordered
  have halias := built.arranged.bootAlias
  have hmem : ∀ r ∈ sectorRegions d.arrangement ++ tableRegions d.arrangement ++
      directoryRegions d.arrangement set, r ∈ d.regions := by
    intro r hr
    rw [built.regions]
    exact List.mem_append_left _ hr
  refine ⟨?_, built.apart.nonempty, ?_, ?_, ?_, ?_, ?_, ?_, ?_, ?_, ?_, ?_⟩
  · refine hordered.imp fun {r s} hle => ?_
    exact Nat.le_trans r.start_le_stop hle
  · refine hordered.imp fun {r s} hle position hboth => ?_
    unfold Region.Has at hboth
    omega
  · exact fun r hr => (built.inOrder.bounds hr).2.2
  · intro copy hcopy
    obtain ⟨hmem, -⟩ := built.room_table copy hcopy
    exact ⟨_, hmem, rfl, rfl⟩
  · intro r hr htable
    rcases built.region_cases hr with ⟨_, _, rfl⟩ | ⟨copy, hcopy, hstart, hlength, -⟩ |
      ⟨p, -, hregion⟩
    · cases htable
    · exact ⟨copy, hcopy, hstart, hlength ▸ built.table_fits⟩
    · unfold fileRegion? at hregion
      split at hregion
      · cases hregion
      · cases hregion
        cases htable
  · rw [built.arranged.rootClusters, halias]
    rfl
  · rw [built.arranged.length_rootDirectory, halias, Nat.mul_comm]
    rfl
  · have hlength := built.arranged.length_padDirectory
    refine ⟨_, hmem _ (List.mem_append_right _ (List.mem_cons_self ..)), _,
      hmem _ (List.mem_append_right _ (List.mem_cons_of_mem _ (List.mem_singleton_self _))),
      rfl, rfl, hlength, ?_, rfl, rfl⟩
    show _ + (padDirectory (d.arrangement.rootDirectory set) clusterSize).length = _
    rw [hlength]
    exact built.root_fills
  · exact fun r hr data => built.length_of_kept hr
  · exact fun r hr file => built.length_of_file hr
  · intro offset count r hr hmeets
    exact Region.cutsInside
      (fun data => built.length_of_kept (touchedRegions_subset _ _ _ hr)) hmeets

/-- A set whose boot target is hidden by a later file, with an empty file, and with a name that
takes up more than one slot. -/
def crowdedSet : FileSet where
  files :=
    [{ name := "boot/bootmgfw.efi", source := .memory [1, 2, 3] },
      { name := "efi/BOOTMGFW.EFI", source := .memory [4] },
      { name := "empty.wim", source := .memory [] },
      { name := "sources/a name of three slots.txt", source := .memory [5] }]
  boot := 0
  boot_lt := Nat.zero_lt_succ _

theorem build_crowdedSet :
    usedClusters crowdedSet ≤ maxClusters ∧ ∃ (d : VirtualDisk) (m₁ : Machine Unit),
      (VirtualDisk.build crowdedSet).runOn { world := () } = (.ok d, m₁) := by
  have hfits : usedClusters crowdedSet ≤ maxClusters ∧
      oversized? crowdedSet (visibleFiles crowdedSet).1 = none := by
    decide +kernel
  obtain ⟨m₁, hbuild⟩ := build_of_fits (σ := Unit) hfits.2 { world := () }
  exact ⟨hfits.1, _, m₁, hbuild⟩

theorem crowdedSet_laid_out :
    ∃ (d : VirtualDisk) (m₁ : Machine Unit),
      (VirtualDisk.build crowdedSet).runOn { world := () } = (.ok d, m₁) ∧
        usedClusters crowdedSet ≤ maxClusters ∧ LaidOut crowdedSet d := by
  obtain ⟨hused, d, m₁, hbuild⟩ := build_crowdedSet
  exact ⟨d, m₁, hbuild, hused, built_disk_laid_out hbuild hused⟩

end BootVolume.Image
