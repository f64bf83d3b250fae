import BootVolume.Proofs.Fat.Allocation
import BootVolume.Proofs.Fat.Stored
import BootVolume.Proofs.Image.Layout

/-!
# Volumes that are too large

The clusters of a volume are numbered by 32-bit words, and a number above
`0x0FFFFFF6` is a mark of the table.  A file is refused if its own length is no
32-bit word, but nothing is said about all files together.  As long as the number
behind the last cluster is a word, a disk is built for every other set, and its
table has a place for each entry; what comes out is free of overflow just if the
set takes up at most `maxClusters` clusters (`built_without_overflow_iff`).
`overfullSet` is a set of files, none of them too long, that takes up more.

From 2 ^ 32 clusters on the numbers themselves come round, and the entries of the
table need not have places any more.  Nothing is said about such sets.
-/

namespace BootVolume.Image

open Fat Files

variable {σ : Type} {set : FileSet} {a : Arrangement}

/-! ## Exact sizes -/

/-- The data clusters of the smallest volume for a set, counted in natural numbers. -/
def volumeClusters (set : FileSet) : Nat := max (usedClusters set) 0x10000

/-- The sectors of a table for that volume. -/
def volumeTableSectors (set : FileSet) : Nat := ceilDiv (4 * (volumeClusters set + 2)) sectorSize

/-- Whether a cluster is given to a directory or a file. -/
def Arrangement.Assigns (a : Arrangement) (cluster : Nat) : Prop :=
  ∃ c ∈ a.chains, c.covers cluster = true

/-- Every size of a volume is the number that it should be, and no cluster in use has the
number of a mark, so that each link leads to the next cluster of its chain. -/
structure Arrangement.WithoutOverflow (set : FileSet) (a : Arrangement) : Prop where
  next : a.next.toNat = 2 + usedClusters set
  clusters : a.geometry.clusters.toNat = volumeClusters set
  tableSectors : a.geometry.tableSectors.toNat = volumeTableSectors set
  totalSectors : a.geometry.totalSectors.toNat =
    32 + 2 * volumeTableSectors set + 8 * volumeClusters set
  clusterSector : ∀ cluster : UInt32, a.Assigns cluster.toNat →
    (a.geometry.clusterSector cluster).toNat =
      32 + 2 * volumeTableSectors set + 8 * (cluster.toNat - 2)
  unmarked : ∀ n, a.Assigns n → n ≤ 0x0FFFFFF6
  link : ∀ c ∈ a.chains, ∀ n, c.covers n = true → n + 1 < c.stop → a.table.link n = n + 1

theorem Arranged.assigns_iff (arranged : Arranged set a) {n : Nat} :
    a.Assigns n ↔ 2 ≤ n ∧ n < a.next.toNat := by
  constructor
  · rintro ⟨c, hc, hcovers⟩
    obtain ⟨hlow, -, hhigh⟩ := arranged.abut.bounds hc
    rw [Chain.covers_iff] at hcovers
    omega
  · rintro ⟨hlow, hhigh⟩
    exact arranged.abut.exists_covers hlow hhigh

theorem Arranged.withoutOverflow (arranged : Arranged set a) (hused : usedClusters set ≤ maxClusters) :
    a.WithoutOverflow set := by
  have hnext := arranged.next
  obtain ⟨exact, hclusters⟩ : a.geometry.Exact ∧ a.geometry.clusters.toNat = _ :=
    Geometry.exact_forClusters a.used (by rwa [arranged.used_toNat])
  rw [arranged.used_toNat] at hclusters
  have htable : a.geometry.tableSectors.toNat = volumeTableSectors set := by
    have hge := exact.table_ge
    have hlt := exact.table_lt
    rw [hclusters] at hge hlt
    unfold volumeTableSectors volumeClusters ceilDiv sectorSize
    omega
  have hroom : usedClusters set ≤ volumeClusters set := Nat.le_max_left ..
  have hstop : a.next.toNat ≤ 0x0FFFFFF7 := by
    unfold maxClusters at hused
    omega
  -- The sizes come from the geometry alone, the rest from where the chains stand.
  refine ⟨hnext, hclusters, htable, ?_, ?_, ?_, ?_⟩
  · rw [exact.total, htable, hclusters]
    rfl
  · intro cluster hassigned
    obtain ⟨hlow, hhigh⟩ := arranged.assigns_iff.mp hassigned
    rw [exact.clusterSector_toNat hlow, htable]
    have : a.geometry.clusters.toNat = volumeClusters set := hclusters
    omega
  · intro n hassigned
    obtain ⟨-, hhigh⟩ := arranged.assigns_iff.mp hassigned
    omega
  · intro c hc n hcovers hinner
    have abut : Abut 2 a.table.chains a.next.toNat := arranged.abut
    rw [Table.link_of_covers abut hstop hc hcovers, if_neg (Nat.ne_of_lt hinner)]

/-- The table of a volume whose clusters are counted in a word can be written down. -/
theorem Arranged.stored?_table (arranged : Arranged set a) :
    a.table.stored? = some a.table.bytes := by
  have abut : Abut 2 a.table.chains a.table.entries := arranged.abut
  exact Table.stored?_of_abut abut

/-- Where files that are short enough stand is free of overflow just if the set takes up at
most `maxClusters` clusters. -/
theorem withoutOverflow_make_iff (hfits : ∀ v ∈ (visibleFiles set).1, v.file.length < Bytes.limit32)
    (hboot : set.bootTarget.length < Bytes.limit32) :
    (Arrangement.make set (visibleFiles set).1).WithoutOverflow set ↔
      usedClusters set ≤ maxClusters := by
  constructor
  · intro exact
    have hwords : 2 + usedClusters set < 0x100000000 :=
      exact.next ▸ (Arrangement.make set (visibleFiles set).1).next.toNat_lt
    have arranged := arranged_make hfits hboot hwords
    -- The last cluster in use is the one before `next`.
    have hroot := arranged.firmwareCluster_lt
    have hnext := exact.next
    have hlast := exact.unmarked (1 + usedClusters set) (arranged.assigns_iff.mpr (by omega))
    unfold maxClusters
    omega
  · intro hused
    refine (arranged_make hfits hboot ?_).withoutOverflow hused
    unfold maxClusters at hused
    omega

/-- A file that is too long is refused.  Without one a disk is built, also for a set that takes
up more clusters than the table has numbers for, as long as they can be counted in a word; the
table is written down as it is read, and nothing overflows just if the set takes up at most
`maxClusters` clusters. -/
theorem built_without_overflow_iff (set : FileSet) (m : Machine σ) :
    (∃ file ∈ (visibleFiles set).1.map Visible.file ++ [set.bootTarget],
      Bytes.limit32 ≤ file.length ∧
        ∃ m', (VirtualDisk.build set).runOn m =
          (.error (.input (.fileTooLarge file.name)), m')) ∨
    (∀ file ∈ (visibleFiles set).1.map Visible.file ++ [set.bootTarget],
      file.length < Bytes.limit32) ∧
        (2 + usedClusters set < 2 ^ 32 →
          ∃ d m', (VirtualDisk.build set).runOn m = (.ok d, m') ∧
            d.arrangement.table.stored? = some d.arrangement.table.bytes ∧
            (d.arrangement.WithoutOverflow set ↔ usedClusters set ≤ maxClusters)) := by
  have hspec := build_spec set m
  cases hoversized : oversized? set (visibleFiles set).1 with
  | some file =>
      rw [hoversized] at hspec
      have hlong : decide (Bytes.limit32 ≤ file.length) = true :=
        List.find?_some (p := fun file : FileEntry => decide (Bytes.limit32 ≤ file.length))
          hoversized
      exact Or.inl ⟨file, List.mem_of_find?_eq_some hoversized, of_decide_eq_true hlong, hspec⟩
  | none =>
      rw [hoversized] at hspec
      obtain ⟨m', hbuild⟩ := hspec
      obtain ⟨hfits, hboot⟩ := fits_of_oversized? hoversized
      refine Or.inr ⟨fun file hfile => ?_, fun hwords => ?_⟩
      · have hshort := List.find?_eq_none.mp hoversized file hfile
        exact Nat.not_le.mp fun hlong => hshort (decide_eq_true hlong)
      · have arranged := arranged_make hfits hboot hwords
        exact ⟨_, m', hbuild, arranged.stored?_table, withoutOverflow_make_iff hfits hboot⟩

/-! ## Many files of the greatest length -/

/-- The files whose lengths decide whether a disk is built are files of the set. -/
theorem mem_files_of_measured {file : FileEntry}
    (h : file ∈ (visibleFiles set).1.map Visible.file ++ [set.bootTarget]) : file ∈ set.files := by
  rcases List.mem_append.mp h with h | h
  · obtain ⟨v, hv, rfl⟩ := List.mem_map.mp h
    exact List.mem_of_getElem? ((shows_visibleFiles set).at_index v hv)
  · rw [List.mem_singleton.mp h]
    exact List.get_mem _ _

theorem fileSlotCount_le {shown : List Visible} (h : ∀ v ∈ shown, v.stored.slots ≤ 21) :
    Arrangement.fileSlotCount shown ≤ 21 * shown.length := by
  induction shown with
  | nil => exact Nat.le_refl _
  | cons v rest ih =>
      have hv := h v (List.mem_cons_self ..)
      have hrest := ih fun w hw => h w (List.mem_cons_of_mem _ hw)
      rw [Arrangement.fileSlotCount, List.length_cons]
      omega

/-- The root directory takes few clusters where few files are visible. -/
theorem rootDirectoryClusters_le (set : FileSet) (h : (visibleFiles set).1.length ≤ 1000) :
    rootDirectoryClusters set.boot (visibleFiles set).1 ≤ 1000 := by
  have shows := shows_visibleFiles set
  have hfiles : Arrangement.fileSlotCount (visibleFiles set).1 ≤
      21 * (visibleFiles set).1.length := by
    apply fileSlotCount_le
    intro v hv
    exact slots_le_of_storedName? (accept_eq_ok_iff.mp (shows.accepted v hv)).1
  have halias : ((bootAlias? set.boot (visibleFiles set).1).map StoredName.slots).getD 0 ≤ 21 := by
    cases hstored : bootAlias? set.boot (visibleFiles set).1 with
    | none => exact Nat.zero_le _
    | some stored => exact slots_le_of_storedName? (storedName?_of_bootAlias? hstored)
  have hfixed : rootAliases.length = 2 := rfl
  unfold rootDirectoryClusters Arrangement.rootSlots ceilDiv clusterSize slotSize
  omega

/-- Files of the greatest length take up 2 ^ 20 clusters each. -/
theorem usedClusters_bounds (hlength : ∀ file ∈ set.files, file.length = 0xFFFFFFFF)
    (hcount : (visibleFiles set).1.length ≤ 1000) :
    (visibleFiles set).1.length * 0x100000 ≤ usedClusters set ∧
      usedClusters set ≤ ((visibleFiles set).1.length + 2) * 0x100000 := by
  have hfiles : fileClusters (visibleFiles set).1 = (visibleFiles set).1.length * 0x100000 := by
    have hmap : (visibleFiles set).1.map (fun v => ceilDiv v.file.length clusterSize) =
        List.replicate (visibleFiles set).1.length 0x100000 := by
      rw [← List.map_const']
      apply List.map_congr_left
      intro v hv
      rw [hlength v.file (List.mem_of_getElem? ((shows_visibleFiles set).at_index v hv))]
      rfl
    rw [fileClusters, hmap, List.sum_replicate, smul_eq_mul]
  have hhidden : hiddenClusters set (visibleFiles set).1 ≤ 0x100000 := by
    unfold hiddenClusters
    split
    · exact Nat.zero_le _
    · rw [hlength set.bootTarget (List.get_mem _ _)]
      exact Nat.le_refl _
  have hroot := rootDirectoryClusters_le set hcount
  have hsum : usedClusters set = rootDirectoryClusters set.boot (visibleFiles set).1 + 1 +
      fileClusters (visibleFiles set).1 + hiddenClusters set (visibleFiles set).1 := rfl
  omega

/-- A disk is built for more files of the greatest length than there are cluster numbers for, and
on it the number of a cluster in use is a mark. -/
theorem built_with_marked_cluster (hlength : ∀ file ∈ set.files, file.length = 0xFFFFFFFF)
    (hlow : 256 ≤ (visibleFiles set).1.length) (hhigh : (visibleFiles set).1.length ≤ 1000)
    (m : Machine σ) :
    ∃ d m', (VirtualDisk.build set).runOn m = (.ok d, m') ∧
      d.arrangement.next.toNat = 2 + usedClusters set ∧
        ∃ cluster, 0x0FFFFFF6 < cluster ∧ d.arrangement.Assigns cluster := by
  obtain ⟨hmany, hfew⟩ := usedClusters_bounds hlength hhigh
  have hoversized : oversized? set (visibleFiles set).1 = none := by
    apply List.find?_eq_none.mpr
    intro file hfile
    rw [hlength file (mem_files_of_measured hfile)]
    decide
  obtain ⟨hfits, hboot⟩ := fits_of_oversized? hoversized
  obtain ⟨m', hbuild⟩ := build_of_fits hoversized m
  have arranged := arranged_make hfits hboot (by omega)
  have hnext := arranged.next
  exact ⟨_, m', hbuild, hnext, 0x0FFFFFF7, by decide, arranged.assigns_iff.mpr (by omega)⟩

/-- A file as long as a directory entry can say. -/
def longestFile (name : String) : FileEntry := { name, source := .provider 0 0xFFFFFFFF }

/-- The letters of the names in `overfullSet`. -/
def sixteenLetters : List Char :=
  ['a', 'b', 'c', 'd', 'e', 'f', 'g', 'h', 'i', 'j', 'k', 'l', 'm', 'n', 'o', 'p']

/-- A boot manager and 256 files with names of two letters, each of four gigabytes less one
byte. -/
def overfullSet : FileSet where
  files := longestFile genericBootName ::
    (sixteenLetters.product sixteenLetters).map fun p => longestFile (String.ofList [p.1, p.2])
  boot := 0
  boot_lt := Nat.zero_lt_succ _

/-- No two files of the set are shown under the same name. -/
theorem nodup_keys_overfullSet :
    (overfullSet.files.map fun file => Text.fold file.baseName).Nodup := by
  have hkeys : (overfullSet.files.map fun file => Text.fold file.baseName) =
      genericBootName.toList :: (sixteenLetters.product sixteenLetters).map fun p => [p.1, p.2] := by
    decide +kernel
  have hletters : sixteenLetters.Nodup := by decide
  rw [hkeys, List.nodup_cons]
  constructor
  · intro hmem
    obtain ⟨p, -, hp⟩ := List.mem_map.mp hmem
    have hlength : 2 = genericBootName.toList.length := congrArg List.length hp
    exact absurd hlength (by decide +kernel)
  · refine (hletters.product hletters).map ?_
    intro p q hpq
    simp only [List.cons.injEq, and_true] at hpq
    exact Prod.ext hpq.1 hpq.2

theorem length_of_mem_overfullSet {file : FileEntry} (h : file ∈ overfullSet.files) :
    file.length = 0xFFFFFFFF := by
  rcases List.mem_cons.mp h with rfl | h
  · rfl
  · obtain ⟨p, -, rfl⟩ := List.mem_map.mp h
    rfl

/-- All files of the set are visible. -/
theorem length_visibleFiles_overfullSet : (visibleFiles overfullSet).1.length = 257 := by
  have haccept : ∀ p ∈ overfullSet.files.zipIdx, (accept 0 p.2 p.1).toBool = true := by
    decide +kernel
  have hcount : overfullSet.files.length = 257 := by decide +kernel
  rw [← hcount]
  apply length_visibleFiles nodup_keys_overfullSet
  intro i file hfile
  exact haccept (file, i) (List.mem_zipIdx_iff_getElem?.mpr hfile)

/-- None of the files of the set is too long, but all of them are too much. -/
theorem overfullSet_built_with_marked_cluster :
    ∃ (d : VirtualDisk) (m' : Machine Unit),
      (VirtualDisk.build overfullSet).runOn { world := () } = (.ok d, m') ∧
        d.arrangement.next.toNat = 2 + usedClusters overfullSet ∧
          ∃ cluster, 0x0FFFFFF6 < cluster ∧ d.arrangement.Assigns cluster := by
  have hcount := length_visibleFiles_overfullSet
  apply built_with_marked_cluster (fun file => length_of_mem_overfullSet)
  · rw [hcount]
    decide
  · rw [hcount]
    decide

/-- The clusters of the set can be counted in a word, so its disk is built, with overflows. -/
theorem overfullSet_built_with_overflow :
    2 + usedClusters overfullSet < 2 ^ 32 ∧ maxClusters < usedClusters overfullSet ∧
      ∃ (d : VirtualDisk) (m' : Machine Unit),
        (VirtualDisk.build overfullSet).runOn { world := () } = (.ok d, m') ∧
          d.arrangement.table.stored? = some d.arrangement.table.bytes ∧
            ¬ d.arrangement.WithoutOverflow overfullSet := by
  have hcount := length_visibleFiles_overfullSet
  obtain ⟨hmany, hfew⟩ : _ ∧ usedClusters overfullSet ≤ _ :=
    usedClusters_bounds (fun file => length_of_mem_overfullSet) (by omega)
  have hwords : 2 + usedClusters overfullSet < 2 ^ 32 := by omega
  have hover : maxClusters < usedClusters overfullSet := by
    unfold maxClusters
    omega
  refine ⟨hwords, hover, ?_⟩
  rcases built_without_overflow_iff overfullSet { world := () } with
    ⟨file, hfile, hlong, -⟩ | ⟨-, hbuilt⟩
  · rw [length_of_mem_overfullSet (mem_files_of_measured hfile)] at hlong
    exact absurd hlong (by decide)
  · obtain ⟨d, m', hok, hstored, hiff⟩ := hbuilt hwords
    exact ⟨d, m', hok, hstored, fun exact => absurd (hiff.mp exact) (Nat.not_le.mpr hover)⟩

end BootVolume.Image
