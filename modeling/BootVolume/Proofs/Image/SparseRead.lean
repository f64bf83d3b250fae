import BootVolume.Proofs.Image.Layout
import BootVolume.Proofs.Image.ServedRead

/-!
# Reading a built disk

The sparse reading of a built disk is the flat one.  The layout gives the order
of the regions (`Built.inOrder`), and with it everything that is known about
disks whose regions stand apart.
-/

namespace BootVolume.Image

open Fat Files

variable {σ : Type}

/-- A region has metadata, a copy of the table, or a placed file. -/
theorem mem_regions_cases {a : Arrangement} {set : FileSet} {r : Region}
    (hr : r ∈ sectorRegions a ++ tableRegions a ++ directoryRegions a set ++
      a.placements.filterMap (fileRegion? a.geometry)) :
    (∃ start data, r = bytesRegion start data) ∨
      (∃ copy : UInt32, copy.toNat < 2 ∧ r.start = sectorOffset (a.geometry.tableStart copy) ∧
        r.length = a.table.size ∧ r.content = .table) ∨
      ∃ p ∈ a.placements, fileRegion? a.geometry p = some r := by
  simp only [List.mem_append] at hr
  rcases hr with ((hr | hr) | hr) | hr
  · simp only [sectorRegions, List.mem_cons, List.not_mem_nil, or_false] at hr
    rcases hr with rfl | rfl | rfl | rfl | rfl <;> exact Or.inl ⟨_, _, rfl⟩
  · simp only [tableRegions, List.map_cons, List.map_nil, List.mem_cons, List.not_mem_nil,
      or_false] at hr
    rcases hr with rfl | rfl
    · exact Or.inr (Or.inl ⟨0, by decide, rfl, rfl, rfl⟩)
    · exact Or.inr (Or.inl ⟨1, by decide, rfl, rfl, rfl⟩)
  · simp only [directoryRegions, List.mem_cons, List.not_mem_nil, or_false] at hr
    rcases hr with rfl | rfl <;> exact Or.inl ⟨_, _, rfl⟩
  · exact Or.inr (Or.inr (List.mem_filterMap.mp hr))

/-- The file in the region of a placed file is that file. -/
theorem file_eq_of_fileRegion? {g : Geometry} {p : Placement} {r : Region}
    (hregion : fileRegion? g p = some r) {file : FileEntry} (hfile : r.content = .file file) :
    p.file = file := by
  unfold fileRegion? at hregion
  split at hregion
  · cases hregion
  · cases hregion
    cases hfile
    rfl

theorem length_le_of_fileRegion? {g : Geometry} {p : Placement} {r : Region}
    (hregion : fileRegion? g p = some r) : r.length ≤ p.file.length := by
  unfold fileRegion? at hregion
  split at hregion
  · cases hregion
  · cases hregion
    simp only [Placement.size, UInt32.toNat_ofNat']
    exact Nat.mod_le ..

/-- The files in the regions of a disk are files of its set, whatever cluster numbers they are
given. -/
theorem mem_files_of_assemble {set : FileSet} {r : Region}
    (hr : r ∈ (assemble set (visibleFiles set).1).regions) {file : FileEntry}
    (hfile : r.content = .file file) : file ∈ set.files := by
  rcases mem_regions_cases (List.mem_mergeSort.mp hr) with
    ⟨start, data, rfl⟩ | ⟨-, -, -, -, htable⟩ | ⟨p, hp, hregion⟩
  · cases hfile
  · rw [htable] at hfile
    cases hfile
  · have hentry : p.entry ∈ placedEntries set := by
      rw [← placed_make]
      exact List.mem_map_of_mem hp
    rw [← file_eq_of_fileRegion? hregion hfile]
    exact List.mem_of_getElem? (files_of_mem_placedEntries hentry)

namespace Built

variable {set : FileSet} {d : VirtualDisk}

theorem byteLength_lt (built : Built set d) : d.byteLength < 2 ^ 64 := by
  have hclusters := built.exact.clusters_le
  have htable := built.exact.tableSectors_lt
  rw [byteLength_eq built.exact, clusterPlace, built.exact.dataStart_toNat]
  unfold maxClusters at hclusters
  unfold partitionStart sectorSize clusterSize
  omega

theorem region_cases (built : Built set d) {r : Region} (hr : r ∈ d.regions) :
    (∃ start data, r = bytesRegion start data) ∨
      (∃ copy : UInt32, copy.toNat < 2 ∧ r.start = sectorOffset (d.geometry.tableStart copy) ∧
        r.length = d.arrangement.table.size ∧ r.content = .table) ∨
      ∃ p ∈ d.arrangement.placements, fileRegion? d.geometry p = some r :=
  mem_regions_cases (built.regions ▸ hr)

/-- The files on a disk are those that were placed. -/
theorem exists_placement_of_region (built : Built set d) {r : Region} (hr : r ∈ d.regions)
    {file : FileEntry} (hfile : r.content = .file file) :
    ∃ p ∈ d.arrangement.placements, p.file = file ∧ fileRegion? d.geometry p = some r := by
  rcases built.region_cases hr with ⟨start, data, rfl⟩ | ⟨-, -, -, -, htable⟩ | ⟨p, hp, hregion⟩
  · cases hfile
  · rw [htable] at hfile
    cases hfile
  · exact ⟨p, hp, file_eq_of_fileRegion? hregion hfile, hregion⟩

theorem mem_regions_of_placement (built : Built set d) {p : Placement}
    (hp : p ∈ d.arrangement.placements) {r : Region} (hregion : fileRegion? d.geometry p = some r) :
    r ∈ d.regions := by
  rw [built.regions]
  exact List.mem_append_right _ (List.mem_filterMap.mpr ⟨p, hp, hregion⟩)

theorem mem_files_of_region (built : Built set d) {r : Region} (hr : r ∈ d.regions)
    {file : FileEntry} (hfile : r.content = .file file) : file ∈ set.files := by
  obtain ⟨p, hp, rfl, -⟩ := built.exists_placement_of_region hr hfile
  have hentry : p.entry ∈ placedEntries set := by
    rw [← built.arranged.placed]
    exact List.mem_map_of_mem hp
  exact List.mem_of_getElem? (files_of_mem_placedEntries hentry)

/-- The files in memory of a disk are served as they are held. -/
theorem servedIn_of_memory (built : Built set d)
    (hfiles : ∀ file ∈ set.files, file.patch = none ∧ file.source = .memory file.source.held)
    (storage : Storage σ) (good : Machine σ → Prop) (start stop : Nat) :
    ServedIn storage good (fun file => file.source.held) d.regions start stop := by
  intro r hr _ file hfile
  obtain ⟨hpatch, hmemory⟩ := hfiles file (built.mem_files_of_region hr hfile)
  refine ⟨hpatch, ?_⟩
  rw [hmemory]
  exact serves_memory storage good _

theorem heldIn_of_memory (built : Built set d)
    (hfiles : ∀ file ∈ set.files, file.patch = none ∧ file.source = .memory file.source.held)
    (start stop : Nat) :
    HeldIn (fun file => file.source.held) d.regions start stop := by
  refine heldIn_of_length_le fun r hr file hfile => ?_
  obtain ⟨p, -, rfl, hregion⟩ := built.exists_placement_of_region hr hfile
  obtain ⟨-, hmemory⟩ := hfiles p.file (built.mem_files_of_region hr hfile)
  have hlength : p.file.length = p.file.source.held.length := by
    rw [FileEntry.length, hmemory]
    rfl
  exact hlength ▸ length_le_of_fileRegion? hregion

end Built

/-- A read of a built disk is refused if it reaches past the end of the disk.  Otherwise it
is the flat reading over all regions in the order of their starts: it fails only where a
read of a file in the range does, with the same cause, and over files that keep to their
contents it brings the same bytes in any number of consecutive parts. -/
theorem read_built_disk {set : FileSet} {d : VirtualDisk} {m₀ m₁ : Machine σ}
    (hbuild : (VirtualDisk.build set).runOn m₀ = (.ok d, m₁))
    (hused : usedClusters set ≤ maxClusters) (storage : Storage σ) (offset count : Nat) :
    d.byteLength = d.blocks * 512 ∧ d.byteLength < 2 ^ 64 ∧
      (d.regions.Pairwise fun r s => r.start < s.start) ∧
      (d.byteLength < offset + count →
        d.read storage offset count = throw (.outOfRange offset count)) ∧
      (offset + count ≤ d.byteLength →
        d.read storage offset count = d.flatRead storage offset count ∧
        (∀ m cause m', (d.read storage offset count).runOn m = (.error cause, m') →
          ∃ r ∈ d.regions, ∃ file, r.content = .file file ∧ r.Meets offset (offset + count) ∧
            ∃ m₂, (file.read storage (r.segment offset (offset + count)).1
              (r.segment offset (offset + count)).2).runOn m₂ = (.error cause, m')) ∧
        ∀ (good : Machine σ → Prop) (content : FileEntry → Bytes),
          ServedIn storage good content d.regions offset (offset + count) →
          ∀ counts : List Nat, counts.sum = count → ∀ m, good m → ∀ data,
            (∃ m', (d.readInTurn storage offset counts).runOn m = (.ok data, m')) ↔
              ∃ m', (d.read storage offset count).runOn m = (.ok data, m')) := by
  have built := built_of_build hbuild hused
  have apart := built.inOrder.apart
  refine ⟨rfl, built.byteLength_lt, ?_, read_outOfRange storage, fun hrange => ?_⟩
  · refine (List.pairwise_iff_getElem.mpr fun i j hi hj hij => ?_)
    have hle := List.pairwise_iff_getElem.mp apart.ordered i j hi hj hij
    have hpos := apart.nonempty _ (List.getElem_mem hi)
    unfold Region.stop at hle
    omega
  · have hflat := read_eq_flatRead apart storage hrange
    refine ⟨hflat, fun m cause m' herror => ?_, ?_⟩
    · rw [hflat, VirtualDisk.flatRead] at herror
      rcases Action.runOn_bind_eq_error herror with hpieces | ⟨pieces, m₂, -, hpure⟩
      · exact exists_file_of_readPieces_error hpieces
      · cases hpure
    · rintro good content hserved counts rfl m hm data
      exact readInTurn_ok_iff apart hrange hserved hm data

/-- A set of two short files, the boot target first. -/
def smallSet : FileSet where
  files :=
    [{ name := "bootmgfw.efi", source := .memory [1, 2, 3] },
      { name := "boot/boot.sdi", source := .memory [4, 5] }]
  boot := 0
  boot_lt := Nat.zero_lt_two

/-- Both files of the set stand in the range, and each of them is cut by the parts. -/
theorem smallSet_read_in_parts :
    ∃ (d : VirtualDisk) (m₁ : Machine Unit),
      (VirtualDisk.build smallSet).runOn { world := () } = (.ok d, m₁) ∧
        usedClusters smallSet ≤ maxClusters ∧
        (∀ file ∈ smallSet.files, ∃ r ∈ d.regions, r.content = .file file ∧
          582656 ≤ r.start ∧ r.stop ≤ 582656 + 4098) ∧
        d.read .absent 582656 4098 = d.flatRead .absent 582656 4098 ∧
        ∀ m, ∃ between m' m'', between.length = 4093 ∧
          (d.read .absent 582656 4098).runOn m = (.ok ([1, 2, 3] ++ between ++ [4, 5]), m') ∧
          (d.readInTurn .absent 582656 [2, 4095, 1]).runOn m =
            (.ok ([1, 2, 3] ++ between ++ [4, 5]), m'') := by
  have hused : usedClusters smallSet ≤ maxClusters := by decide
  have hoversized : oversized? smallSet (visibleFiles smallSet).1 = none := by decide
  obtain ⟨m₁, hbuild⟩ := build_of_fits (σ := Unit) hoversized { world := () }
  have built := built_of_build hbuild hused
  have apart := built.inOrder.apart
  set d := assemble smallSet (visibleFiles smallSet).1
  obtain ⟨-, -, -, -, hread⟩ := read_built_disk hbuild hused .absent 582656 4098
  have hrange : 582656 + 4098 ≤ d.byteLength := by decide +kernel
  obtain ⟨hflat, -, hparts⟩ := hread hrange
  -- The first two clusters behind the directories belong to the files.
  have hplaced : d.arrangement.placements.map (fileRegion? d.geometry) =
      [some { start := 582656, length := 3, content := .file smallSet.files[0] },
        some { start := 586752, length := 2, content := .file smallSet.files[1] }] := by
    decide +kernel
  have hmem : ∀ r, some r ∈ d.arrangement.placements.map (fileRegion? d.geometry) →
      r ∈ d.regions := by
    intro r hr
    obtain ⟨p, hp, hregion⟩ := List.mem_map.mp hr
    exact built.mem_regions_of_placement hp hregion
  rw [hplaced] at hmem
  have hfirst := hmem _ (List.mem_cons_self ..)
  have hsecond := hmem _ (List.mem_cons_of_mem _ (List.mem_cons_self ..))
  have hmemory : ∀ file ∈ smallSet.files,
      file.patch = none ∧ file.source = .memory file.source.held := by decide
  have hserved := built.servedIn_of_memory hmemory .absent (fun _ : Machine Unit => True) 582656
    (582656 + 4098)
  have hheld := built.heldIn_of_memory hmemory 582656 (582656 + 4098)
  have hdata : d.imageBytes (fun file => file.source.held) 582656 4098 =
      [1, 2, 3] ++ d.imageBytes (fun file => file.source.held) 582659 4093 ++ [4, 5] := by
    have hhead : d.imageBytes (fun file => file.source.held) 582656 3 = [1, 2, 3] :=
      imageBytes_of_mem apart hfirst
    have hlast : d.imageBytes (fun file => file.source.held) 586752 2 = [4, 5] :=
      imageBytes_of_mem apart hsecond
    rw [← hhead, ← hlast, ← VirtualDisk.imageBytes_add, ← VirtualDisk.imageBytes_add]
  refine ⟨d, m₁, hbuild, hused, ?_, hflat, fun m => ?_⟩
  · intro file hfile
    simp only [smallSet, List.mem_cons, List.not_mem_nil, or_false] at hfile
    rcases hfile with rfl | rfl
    · exact ⟨_, hfirst, rfl, by decide, by decide⟩
    · exact ⟨_, hsecond, rfl, by decide, by decide⟩
  · obtain ⟨m', hwhole, -⟩ := runOn_read_held apart hrange hserved hheld (m := m) trivial
    obtain ⟨m'', hturns⟩ := (hparts _ _ hserved [2, 4095, 1] rfl m trivial _).mpr ⟨m', hwhole⟩
    rw [hdata] at hwhole hturns
    exact ⟨_, m', m'', by simp [VirtualDisk.imageBytes], hwhole, hturns⟩

end BootVolume.Image
