import BootVolume.Proofs.Image.FlatRead
import BootVolume.Proofs.Image.RootDirectory

/-!
# The regions of a disk

The regions of a built disk stand in order: the sectors with metadata, the two
copies of the table, the directories, and the files, each group behind the one
before it and all of them inside the disk (`Built.inOrder`).  So sorting them
changes nothing, and they stand `Apart`, which is what the search of
`VirtualDisk.read` relies on.
-/

namespace BootVolume.Image

open Fat Files

variable {σ : Type}

/-! ## Regions in order -/

/-- Regions, none of them empty, one behind the other between two positions. -/
def InOrder : (start : Nat) → List Region → (stop : Nat) → Prop
  | start, [], stop => start ≤ stop
  | start, r :: rest, stop => start ≤ r.start ∧ 0 < r.length ∧ InOrder r.stop rest stop

namespace InOrder

variable {start middle stop : Nat} {regions others : List Region} {r : Region}

theorem start_le_stop (h : InOrder start regions stop) : start ≤ stop := by
  induction regions generalizing start with
  | nil => exact h
  | cons r rest ih =>
      have := ih h.2.2
      have := r.start_le_stop
      have := h.1
      omega

theorem mono_stop {stop' : Nat} (h : InOrder start regions stop) (hstop : stop ≤ stop') :
    InOrder start regions stop' := by
  induction regions generalizing start with
  | nil => exact Nat.le_trans h hstop
  | cons r rest ih => exact ⟨h.1, h.2.1, ih h.2.2⟩

theorem mono_start {start' : Nat} (h : InOrder start regions stop) (hstart : start' ≤ start) :
    InOrder start' regions stop := by
  cases regions with
  | nil => exact Nat.le_trans hstart h
  | cons r rest => exact ⟨Nat.le_trans hstart h.1, h.2⟩

theorem append (h : InOrder start regions middle) (h' : InOrder middle others stop) :
    InOrder start (regions ++ others) stop := by
  induction regions generalizing start with
  | nil => exact h'.mono_start h
  | cons r rest ih => exact ⟨h.1, h.2.1, ih h.2.2⟩

theorem bounds (h : InOrder start regions stop) (hr : r ∈ regions) :
    start ≤ r.start ∧ 0 < r.length ∧ r.stop ≤ stop := by
  induction regions generalizing start with
  | nil => cases hr
  | cons s rest ih =>
      rcases List.mem_cons.mp hr with rfl | hr
      · exact ⟨h.1, h.2.1, h.2.2.start_le_stop⟩
      · obtain ⟨hlow, hpos, hhigh⟩ := ih h.2.2 hr
        have := s.start_le_stop
        have := h.1
        exact ⟨by omega, hpos, hhigh⟩

theorem apart (h : InOrder start regions stop) : Apart regions where
  nonempty r hr := (h.bounds hr).2.1
  ordered := by
    induction regions generalizing start with
    | nil => exact List.Pairwise.nil
    | cons r rest ih =>
        exact List.pairwise_cons.mpr ⟨fun s hs => (h.2.2.bounds hs).1, ih h.2.2⟩

/-- Regions in order are sorted already. -/
theorem mergeSort_eq (h : InOrder start regions stop) :
    regions.mergeSort (fun r s => decide (r.start ≤ s.start)) = regions := by
  refine List.mergeSort_of_pairwise (h.apart.ordered.imp fun {r s} hle => ?_)
  have := r.start_le_stop
  simp only [decide_eq_true_eq]
  omega

end InOrder

/-! ## The groups of regions -/

theorem inOrder_sectorRegions (a : Arrangement) :
    InOrder 0 (sectorRegions a) (sectorOffset reservedSectors) := by
  have htable := length_partitionTable diskSignature (UInt32.ofNat partitionStart)
    a.geometry.totalSectors
  have hboot := length_bootSector a.geometry (UInt32.ofNat partitionStart) diskSignature
  have hfree := length_freeSpaceSector (a.geometry.clusters - a.used) a.next
  have hpositions : sectorOffset 0 = 32768 ∧ sectorOffset infoSector = 33280 ∧
      sectorOffset backupSector = 35840 ∧ sectorOffset (backupSector + 1) = 36352 ∧
      sectorOffset reservedSectors = 49152 := by decide
  simp only [sectorRegions, InOrder, bytesRegion, Region.stop, htable, hboot, hfree, sectorSize]
  omega

section Groups

variable {a : Arrangement} {set : FileSet}

theorem inOrder_tableRegions (exact : a.geometry.Exact) (hpos : 0 < a.next.toNat)
    (hnext : a.next.toNat ≤ a.geometry.clusters.toNat + 2) :
    InOrder (sectorOffset reservedSectors) (tableRegions a)
      ((partitionStart + a.geometry.dataStart.toNat) * sectorSize) := by
  have htable := exact.table_ge
  have hdata := exact.dataStart_toNat
  have h0 := exact.tableStart_toNat 0 (by decide)
  have h1 := exact.tableStart_toNat 1 (by decide)
  have hreserved : reservedSectors.toNat = 32 := rfl
  simp only [tableRegions, List.map_cons, List.map_nil, InOrder, Region.stop, sectorOffset,
    Table.size, Arrangement.table, partitionStart, sectorSize, UInt32.reduceToNat] at h0 h1 ⊢
  omega

/-- The position of a cluster on the disk. -/
def clusterPlace (g : Geometry) (cluster : Nat) : Nat :=
  (partitionStart + g.dataStart.toNat) * sectorSize + (cluster - 2) * clusterSize

theorem clusterOffset_eq {g : Geometry} (exact : g.Exact) {cluster : UInt32}
    (hlow : 2 ≤ cluster.toNat) (hhigh : cluster.toNat ≤ g.clusters.toNat + 2) :
    clusterOffset g cluster = clusterPlace g cluster.toNat := by
  rw [clusterOffset, sectorOffset, exact.clusterSector_toNat hlow hhigh, clusterPlace,
    exact.dataStart_toNat]
  unfold partitionStart sectorSize clusterSize
  omega

theorem fileRegion?_of_empty {g : Geometry} {p : Placement} {cluster : Nat}
    (h : p.StandsAt cluster) (hempty : p.file.length = 0) : fileRegion? g p = none := by
  have hfirst := h.first
  rw [if_pos hempty] at hfirst
  rw [fileRegion?, if_pos (UInt32.toNat_inj.mp hfirst)]

theorem fileRegion?_of_nonempty {g : Geometry} (exact : g.Exact) {p : Placement} {cluster : Nat}
    (h : p.StandsAt cluster) (hlength : p.file.length ≠ 0) (hlow : 2 ≤ cluster)
    (hhigh : cluster ≤ g.clusters.toNat + 2) :
    fileRegion? g p =
      some { start := clusterPlace g cluster, length := p.file.length, content := .file p.file } := by
  have hfirst := h.first
  rw [if_neg hlength] at hfirst
  have hzero : p.first ≠ 0 := by
    intro hzero
    rw [hzero] at hfirst
    exact absurd hlow (by rw [← hfirst]; decide)
  rw [fileRegion?, if_neg hzero, clusterOffset_eq exact (by omega) (by omega), hfirst, h.size]

theorem inOrder_fileRegions {g : Geometry} (exact : g.Exact) {placements : List Placement}
    {start stop : Nat} (stand : Stand start placements stop) (hlow : 2 ≤ start)
    (hhigh : stop ≤ g.clusters.toNat + 2) :
    InOrder (clusterPlace g start) (placements.filterMap (fileRegion? g))
      (clusterPlace g stop) := by
  induction placements generalizing start with
  | nil => exact Nat.le_of_eq (congrArg _ stand)
  | cons p rest ih =>
      obtain ⟨hp, hrest⟩ := stand
      have hle := hrest.start_le_stop
      have hnext := ih hrest (by omega)
      by_cases hempty : p.file.length = 0
      · rw [List.filterMap_cons_none (fileRegion?_of_empty hp hempty)]
        rwa [ceilDiv_clusterSize_eq_zero.mpr hempty] at hnext
      · rw [List.filterMap_cons_some (fileRegion?_of_nonempty exact hp hempty hlow (by omega))]
        refine ⟨Nat.le_refl _, Nat.pos_of_ne_zero hempty, hnext.mono_start ?_⟩
        have hroom : p.file.length ≤ ceilDiv p.file.length clusterSize * clusterSize :=
          ceilDiv_mul_ge _ (by decide)
        unfold Region.stop clusterPlace
        unfold clusterSize at hroom ⊢
        simp only
        omega

theorem inOrder_directoryRegions (exact : a.geometry.Exact) (arranged : Arranged set a)
    (hnext : a.next.toNat ≤ a.geometry.clusters.toNat + 2) :
    InOrder (clusterPlace a.geometry 2) (directoryRegions a set)
      (clusterPlace a.geometry (a.rootClusters.toNat + 3)) := by
  have hroot := arranged.rootClusters_pos
  have hroom := arranged.firmwareCluster_lt
  have hfirmware := arranged.firmwareCluster_toNat
  have hlength := arranged.length_padDirectory
  have hfirmwareLength := length_padDirectory_firmware a
  simp only [directoryRegions, InOrder, bytesRegion, Region.stop, hlength, hfirmwareLength]
  rw [clusterOffset_eq exact (by decide) (by rw [show rootCluster.toNat = 2 from rfl]; omega),
    clusterOffset_eq exact (by omega) (by omega), hfirmware]
  unfold clusterPlace clusterSize
  simp only [rootCluster, UInt32.reduceToNat]
  omega

end Groups

/-! ## Building -/

theorem fits_of_oversized? {set : FileSet} {shown : List Visible}
    (h : oversized? set shown = none) :
    (∀ v ∈ shown, v.file.length < Bytes.limit32) ∧ set.bootTarget.length < Bytes.limit32 := by
  simp only [oversized?, List.find?_eq_none, List.mem_append, List.mem_map, List.mem_singleton,
    decide_eq_true_eq, Nat.not_le] at h
  exact ⟨fun v hv => h v.file (Or.inl ⟨v, hv, rfl⟩), h _ (Or.inr rfl)⟩

/-- Building reports the warnings in their order.  Unless some file is too long it then reports
what it has built. -/
theorem build_runOn (set : FileSet) (m : Machine σ) :
    ∃ notes : List String, (VirtualDisk.build set).runOn m =
      match oversized? set (visibleFiles set).1 with
      | some file => (.error (.input (.fileTooLarge file.name)),
          m.reportAll .warn (visibleFiles set).2)
      | none => (.ok (assemble set (visibleFiles set).1),
          (m.reportAll .warn (visibleFiles set).2).reportAll .debug notes) := by
  unfold VirtualDisk.build
  rcases visibleFiles set with ⟨shown, warnings⟩
  simp only [Action.runOn_bind_ok (Action.runOn_forM_reportWarn (ε := Failure) warnings m)]
  cases oversized? set shown with
  | some file => exact ⟨[], rfl⟩
  | none =>
      by_cases halias : (assemble set shown).arrangement.bootAlias.isSome = true
      · simp only [if_pos halias]
        exact ⟨[_, _], rfl⟩
      · simp only [if_neg halias]
        exact ⟨[_], rfl⟩

/-- Building succeeds unless some file is too long, and what it builds follows from the set. -/
theorem build_spec (set : FileSet) (m : Machine σ) :
    match oversized? set (visibleFiles set).1 with
    | some file => ∃ m', (VirtualDisk.build set).runOn m =
        (.error (.input (.fileTooLarge file.name)), m')
    | none => ∃ m', (VirtualDisk.build set).runOn m =
        (.ok (assemble set (visibleFiles set).1), m') := by
  obtain ⟨notes, hrun⟩ := build_runOn set m
  cases hoversized : oversized? set (visibleFiles set).1 with
  | some file =>
      rw [hoversized] at hrun
      exact ⟨_, hrun⟩
  | none =>
      rw [hoversized] at hrun
      exact ⟨_, hrun⟩

theorem build_of_fits {set : FileSet} (h : oversized? set (visibleFiles set).1 = none)
    (m : Machine σ) :
    ∃ m', (VirtualDisk.build set).runOn m = (.ok (assemble set (visibleFiles set).1), m') := by
  have hspec := build_spec set m
  rwa [h] at hspec

theorem eq_assemble_of_build {set : FileSet} {m m' : Machine σ} {d : VirtualDisk}
    (h : (VirtualDisk.build set).runOn m = (.ok d, m')) :
    oversized? set (visibleFiles set).1 = none ∧ d = assemble set (visibleFiles set).1 := by
  cases hoversized : oversized? set (visibleFiles set).1 with
  | some file =>
      have hspec := build_spec set m
      rw [hoversized] at hspec
      obtain ⟨m₁, herror⟩ := hspec
      rw [herror] at h
      cases h
  | none =>
      obtain ⟨m₁, hok⟩ := build_of_fits hoversized m
      rw [hok] at h
      cases h
      exact ⟨rfl, rfl⟩

/-- What a built disk looks like when no cluster number wraps. -/
structure Built (set : FileSet) (d : VirtualDisk) : Prop where
  files : d.files = set
  arranged : Arranged set d.arrangement
  exact : d.geometry.Exact
  clusters : d.geometry.clusters.toNat = max (usedClusters set) 0x10000
  regions : d.regions = sectorRegions d.arrangement ++ tableRegions d.arrangement ++
    directoryRegions d.arrangement set ++
      d.arrangement.placements.filterMap (fileRegion? d.geometry)
  inOrder : InOrder 0 d.regions d.byteLength

theorem byteLength_eq {d : VirtualDisk} (exact : d.geometry.Exact) :
    d.byteLength = clusterPlace d.geometry (d.geometry.clusters.toNat + 2) := by
  rw [VirtualDisk.byteLength, VirtualDisk.blocks, exact.total, clusterPlace, exact.dataStart_toNat]
  unfold partitionStart sectorSize clusterSize
  omega

theorem built_of_build {set : FileSet} {m m' : Machine σ} {d : VirtualDisk}
    (hbuild : (VirtualDisk.build set).runOn m = (.ok d, m'))
    (hused : usedClusters set ≤ maxClusters) : Built set d := by
  obtain ⟨hoversized, rfl⟩ := eq_assemble_of_build hbuild
  obtain ⟨hfits, hboot⟩ := fits_of_oversized? hoversized
  set d := assemble set (visibleFiles set).1
  have hwords : 2 + usedClusters set < 0x100000000 := by
    unfold maxClusters at hused
    omega
  have arranged : Arranged set d.arrangement := arranged_make hfits hboot hwords
  obtain ⟨exact, hclusters⟩ : d.geometry.Exact ∧ _ :=
    Geometry.exact_forClusters d.arrangement.used (by rwa [arranged.used_toNat])
  rw [arranged.used_toNat] at hclusters
  have hnext : d.arrangement.next.toNat ≤ d.geometry.clusters.toNat + 2 := by
    have := arranged.next
    have : d.geometry.clusters.toNat = _ := hclusters
    omega
  have hroom := arranged.firmwareCluster_lt
  have hgroups : InOrder 0 (sectorRegions d.arrangement ++ tableRegions d.arrangement ++
      directoryRegions d.arrangement set ++
        d.arrangement.placements.filterMap (fileRegion? d.geometry)) d.byteLength := by
    have htables := inOrder_tableRegions (a := d.arrangement) exact (by omega) hnext
    have hdirectories := inOrder_directoryRegions exact arranged hnext
    have hfiles := inOrder_fileRegions exact arranged.stand (by omega) hnext
    refine ((((inOrder_sectorRegions d.arrangement).append htables).append
      (hdirectories.mono_start ?_)).append hfiles).mono_stop ?_
    · exact Nat.le_add_right ..
    · rw [byteLength_eq exact]
      unfold clusterPlace clusterSize
      omega
  have hregions : d.regions = _ := hgroups.mergeSort_eq
  exact ⟨rfl, arranged, exact, hclusters, hregions, hregions ▸ hgroups⟩

end BootVolume.Image
