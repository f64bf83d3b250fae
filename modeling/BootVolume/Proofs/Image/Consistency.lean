import BootVolume.Proofs.Fat.Allocation
import BootVolume.Proofs.Image.LaidOut
import BootVolume.Proofs.Image.RootListing

/-!
# The volume as a checker sees it

A checker of filesystems mounts the partition and takes a `Survey`: the entries
of both tables, the chains, the two directories and the summary of the free
space, all of them read as any driver reads them.  The survey of a built disk is
`Consistent`: no cluster is lost or belongs to two chains, every chain is reached
from a directory, and entries share a cluster only where the volume means them
to (`Purpose.MayShare`).

The clusters are those of a table whose chains abut.  What ties them to the
directories are the placements: each has an entry, the boot target possibly only
under its other name (`Arranged.exists_fileEntry`), and two of them never start in
one cluster (`Arranged.first_injective`).
-/

namespace BootVolume.Image

open Fat Files

variable {σ : Type}

/-! ## Surveys -/

/-- What an entry of a directory is there for. -/
inductive Purpose where
  | label
  /-- `BOOT` in the root directory, which is the root again. -/
  | boot
  /-- `SOURCES` in the root directory, which is the root again. -/
  | sources
  /-- The directory `\EFI`. -/
  | firmware
  /-- The file with the given position in its set. -/
  | file (index : Nat)
  /-- The boot target under its other name. -/
  | bootAlias
  | self
  | parent
  /-- `BOOT` in `\EFI`, which is the root again. -/
  | wayBack
  deriving DecidableEq, Repr

/-- The pairs of entries that lead to one cluster. -/
inductive Purpose.MayShare (boot : Nat) : Purpose → Purpose → Prop
  | bootSources : MayShare boot .boot .sources
  | bootWayBack : MayShare boot .boot .wayBack
  | sourcesWayBack : MayShare boot .sources .wayBack
  | firmwareSelf : MayShare boot .firmware .self
  | bootTarget : MayShare boot (.file boot) .bootAlias

/-- What a checker takes down of a volume. -/
structure Survey where
  allocation : Allocation
  root : List (Purpose × Listed)
  firmware : List (Purpose × Listed)
  space : FreeSpace

namespace Survey

/-- The entries of both directories. -/
def entries (s : Survey) : List (Purpose × Listed) := s.root ++ s.firmware

/-- Everything in a survey was read from the volume. -/
structure Read (s : Survey) (v : Mounted (Action σ Status)) : Prop where
  clusters : v.block.clusterCount = s.allocation.clusters
  /-- All copies of the table have the same bytes. -/
  copies : ∀ sector count, sector + count ≤ v.block.tableSectors →
    ∃ data, ∀ copy < v.block.copies, v.read (v.block.tableStart copy + sector) count = pure data
  links : ∀ copy < v.block.copies, ∀ n < s.allocation.clusters + 2,
    v.entry copy n = pure (s.allocation.entry n)
  chains : ∀ c, s.allocation.IsFirst c → v.chain c = pure (s.allocation.chain c)
  root : v.directory v.block.rootCluster = pure (s.root.map Prod.snd)
  firmware : ∃ e ∈ s.root, e.1 = .firmware ∧
    v.directory e.2.cluster = pure (s.firmware.map Prod.snd)
  space : ∃ sector, v.read v.block.infoSector 1 = pure sector ∧
    FreeSpace.ofSector? sector = some s.space

end Survey

/-- The entries of the root directory by what they are for, with their short names. -/
def rootPurposes (set : FileSet) : List (Purpose × Bytes) :=
  [(.label, volumeLabel), (.boot, bootDirectory), (.sources, sourcesDirectory),
      (.firmware, firmwareDirectory)] ++
    (visibleFiles set).1.map (fun v => (.file v.index, v.stored.short)) ++
    ((bootAlias? set.boot (visibleFiles set).1).map fun stored =>
      (.bootAlias, stored.short)).toList

/-- The entries of the directory `\EFI` by what they are for, with their short names. -/
def firmwarePurposes : List (Purpose × Bytes) :=
  [(.self, Bytes.ascii ".          "), (.parent, Bytes.ascii "..         "),
    (.wayBack, bootDirectory)]

/-- A survey without a complaint. -/
structure Survey.Consistent (s : Survey) (set : FileSet) (root : Nat) : Prop where
  sound : s.allocation.Sound s.space
  root_names : s.root.map (fun e => (e.1, e.2.short)) = rootPurposes set
  firmware_names : s.firmware.map (fun e => (e.1, e.2.short)) = firmwarePurposes
  /-- Every chain but that of the root directory is reached by an entry. -/
  reached : ∀ c, s.allocation.IsFirst c → c = root ∨ ∃ e ∈ s.entries, e.2.cluster = c
  /-- Every entry with a cluster leads to the start of a chain. -/
  leads : ∀ e ∈ s.entries, e.2.cluster = 0 ∨ s.allocation.IsFirst e.2.cluster
  /-- No two entries share a cluster, but for those that are meant to. -/
  apart : s.entries.Pairwise fun x y =>
    x.2.cluster = y.2.cluster → x.2.cluster = 0 ∨ Purpose.MayShare set.boot x.1 y.1
  shared : ∀ x ∈ s.entries, ∀ y ∈ s.entries, Purpose.MayShare set.boot x.1 y.1 →
    x.2.cluster = y.2.cluster
  rooted : ∀ e ∈ s.entries, e.1 = .boot ∨ e.1 = .sources ∨ e.1 = .wayBack → e.2.cluster = root

/-! ## The survey of a built disk -/

/-- The entries at the start of the root directory. -/
def headEntries (firmware : UInt32) : List (Purpose × Listed) :=
  [(.label, labelItem), (.boot, directoryItem bootDirectory rootCluster),
    (.sources, directoryItem sourcesDirectory rootCluster),
    (.firmware, directoryItem firmwareDirectory firmware)]

/-- The entries of files in the root directory. -/
def fileEntries (set : FileSet) (a : Arrangement) : List (Purpose × Listed) :=
  (visibleFiles set).1.map (fun v =>
      (.file v.index, listedItem v.stored (a.firstCluster v.index) v.file)) ++
    (aliasItems (bootAlias? set.boot (visibleFiles set).1) (a.firstCluster set.boot)
      set.bootTarget).map fun item => (.bootAlias, item)

/-- The entries of the directory `\EFI`. -/
def firmwareEntries (firmware : UInt32) : List (Purpose × Listed) :=
  [(.self, directoryItem (Bytes.ascii ".          ") firmware),
    (.parent, directoryItem (Bytes.ascii "..         ") 0),
    (.wayBack, directoryItem bootDirectory rootCluster)]

/-- What a checker takes down of a built disk. -/
def VirtualDisk.survey (set : FileSet) (d : VirtualDisk) : Survey where
  allocation := d.arrangement.table.allocation d.geometry.clusters.toNat
  root := headEntries d.arrangement.firmwareCluster ++ fileEntries set d.arrangement
  firmware := firmwareEntries d.arrangement.firmwareCluster
  space :=
    { free := d.geometry.clusters.toNat + 2 - d.arrangement.next.toNat
      next := d.arrangement.next.toNat }

/-- The cluster that an entry leads to follows from what it is there for. -/
def Purpose.cluster (a : Arrangement) (boot : Nat) : Purpose → Nat
  | .label | .parent => 0
  | .boot | .sources | .wayBack => 2
  | .firmware | .self => a.firmwareCluster.toNat
  | .file index => (a.firstCluster index).toNat
  | .bootAlias => (a.firstCluster boot).toNat

theorem cluster_of_mem_entries {set : FileSet} {d : VirtualDisk} {e : Purpose × Listed}
    (he : e ∈ (d.survey set).entries) : e.2.cluster = e.1.cluster d.arrangement set.boot := by
  simp only [Survey.entries, VirtualDisk.survey, headEntries, fileEntries, firmwareEntries,
    List.mem_append, List.mem_cons, List.mem_map, List.not_mem_nil, or_false] at he
  rcases he with ((rfl | rfl | rfl | rfl) | ⟨v, -, rfl⟩ | ⟨item, hitem, rfl⟩) | rfl | rfl | rfl
  case inl.inr.inr =>
    obtain ⟨stored, -, rfl⟩ := Option.map_eq_some_iff.mp (Option.mem_toList.mp hitem)
    rfl
  all_goals rfl

theorem map_short_aliasItems (stored : Option StoredName) (first : UInt32) (file : FileEntry) :
    (aliasItems stored first file).map (fun item => (Purpose.bootAlias, item.short)) =
      (stored.map fun stored => (Purpose.bootAlias, stored.short)).toList := by
  cases stored <;> rfl

namespace Arranged

variable {set : FileSet} {a : Arrangement}

/-- The entry of a visible file leads to the place of that file. -/
theorem exists_placement_of_visible (arranged : Arranged set a) {v : Visible}
    (hv : v ∈ (visibleFiles set).1) :
    ∃ p ∈ a.placements, p.index = v.index ∧
      (listedItem v.stored (a.firstCluster v.index) v.file).cluster = p.first.toNat := by
  obtain ⟨p, hp, hindex, -⟩ := arranged.exists_placement
    ((shows_visibleFiles set).at_index v hv) (Or.inr ⟨v, hv, rfl⟩)
  refine ⟨p, hp, hindex, ?_⟩
  rw [← arranged.firstCluster_of_mem hp, hindex]
  rfl

/-- An entry of a file leads to the place of that file. -/
theorem fileEntry_cases (arranged : Arranged set a) {e : Purpose × Listed}
    (he : e ∈ fileEntries set a) :
    ∃ p ∈ a.placements, e.2.cluster = p.first.toNat ∧
      (e.1 = .file p.index ∨ e.1 = .bootAlias ∧ p.index = set.boot) := by
  rcases List.mem_append.mp he with he | he
  · obtain ⟨v, hv, rfl⟩ := List.mem_map.mp he
    obtain ⟨p, hp, hindex, hcluster⟩ := arranged.exists_placement_of_visible hv
    exact ⟨p, hp, hcluster, Or.inl (hindex ▸ rfl)⟩
  · obtain ⟨item, hitem, rfl⟩ := List.mem_map.mp he
    obtain ⟨p, hp, hindex, hfirst⟩ := arranged.boot
    refine ⟨p, hp, ?_, Or.inr ⟨rfl, hindex⟩⟩
    obtain ⟨stored, -, rfl⟩ := Option.map_eq_some_iff.mp (Option.mem_toList.mp hitem)
    rw [hfirst, ← arranged.firstCluster_boot]
    rfl

/-- Every placed file has an entry: if the boot target is hidden by another file, then it is
shown under its other name. -/
theorem exists_fileEntry (arranged : Arranged set a) {p : Placement} (hp : p ∈ a.placements) :
    ∃ e ∈ fileEntries set a, e.2.cluster = p.first.toNat := by
  have hentry : p.entry ∈ placedEntries set := by
    rw [← arranged.placed]
    exact List.mem_map_of_mem hp
  have hfirst := arranged.firstCluster_of_mem hp
  rcases placedEntries_cases hentry with ⟨v, hv, heq⟩ | ⟨heq, hhidden⟩
  · refine ⟨_, List.mem_append_left _ (List.mem_map_of_mem hv), ?_⟩
    rw [← hfirst, show p.index = v.index from congrArg Prod.fst heq]
    rfl
  · have hindex : p.index = set.boot := congrArg Prod.fst heq
    have hnone : Arrangement.bootNameShown set.boot (visibleFiles set).1 = false := by
      refine List.any_eq_false.mpr fun v hv => ?_
      rw [beq_eq_false_iff_ne.mpr (hhidden v hv)]
      exact Bool.false_ne_true
    obtain ⟨stored, hstored⟩ : ∃ stored, storedName? bootName = some stored :=
      Option.isSome_iff_exists.mp (by decide)
    have halias : bootAlias? set.boot (visibleFiles set).1 = some stored := by
      rw [bootAlias?, hnone]
      exact hstored
    refine ⟨(.bootAlias, fileItem stored (a.firstCluster set.boot) set.bootTarget), ?_, ?_⟩
    · refine List.mem_append_right _ (List.mem_map_of_mem ?_)
      rw [halias]
      exact List.mem_singleton_self _
    · rw [← hfirst, hindex]
      rfl

/-- The files stand behind both directories. -/
theorem cluster_of_fileEntry (arranged : Arranged set a) {e : Purpose × Listed}
    (he : e ∈ fileEntries set a) :
    e.2.cluster = 0 ∨ a.rootClusters.toNat + 3 ≤ e.2.cluster := by
  obtain ⟨p, hp, hcluster, -⟩ := arranged.fileEntry_cases he
  rw [hcluster]
  rcases arranged.first_cases hp with ⟨-, hzero⟩ | ⟨-, hfar⟩
  · exact Or.inl (congrArg UInt32.toNat hzero)
  · exact Or.inr hfar

/-- Different files never share a cluster. -/
theorem first_eq_zero_of_shared (arranged : Arranged set a) {p q : Placement}
    (hp : p ∈ a.placements) (hq : q ∈ a.placements) (hne : p.index ≠ q.index)
    (hfirst : p.first.toNat = q.first.toNat) : p.first.toNat = 0 := by
  rcases arranged.first_injective hp hq (UInt32.toNat_inj.mp hfirst) with hzero | rfl
  · exact congrArg UInt32.toNat hzero
  · exact absurd rfl hne

/-- Two entries of files share a cluster only if they are both for the boot target. -/
theorem pairwise_fileEntries (arranged : Arranged set a) :
    (fileEntries set a).Pairwise fun x y =>
      x.2.cluster = y.2.cluster → x.2.cluster = 0 ∨ Purpose.MayShare set.boot x.1 y.1 := by
  have shows := shows_visibleFiles set
  refine List.pairwise_append.mpr ⟨?_, ?_, ?_⟩
  · have hnodup : ((visibleFiles set).1.map Visible.index).Nodup :=
      shows.distinct.of_map.map_on fun v hv w hw h => shows.index_injective hv hw h
    refine List.pairwise_map.mpr ?_
    refine (List.pairwise_map.mp hnodup).imp_of_mem fun {v w} hv hw hne hcluster => ?_
    obtain ⟨p, hp, hpindex, hpcluster⟩ := arranged.exists_placement_of_visible hv
    obtain ⟨q, hq, hqindex, hqcluster⟩ := arranged.exists_placement_of_visible hw
    refine Or.inl ?_
    rw [hpcluster, hqcluster] at hcluster
    rw [hpcluster]
    exact arranged.first_eq_zero_of_shared hp hq (by rwa [hpindex, hqindex]) hcluster
  · cases bootAlias? set.boot (visibleFiles set).1 with
    | none => exact List.Pairwise.nil
    | some stored => exact List.pairwise_singleton _ _
  · intro x hx y hy hcluster
    obtain ⟨v, hv, rfl⟩ := List.mem_map.mp hx
    obtain ⟨item, hitem, rfl⟩ := List.mem_map.mp hy
    obtain ⟨p, hp, hpindex, hpcluster⟩ := arranged.exists_placement_of_visible hv
    obtain ⟨q, hq, hqcluster, hqcase⟩ := arranged.fileEntry_cases
      (List.mem_append_right _ (List.mem_map_of_mem hitem))
    obtain ⟨-, hboot⟩ : _ ∧ q.index = set.boot := hqcase.resolve_left Purpose.noConfusion
    by_cases hsame : p.index = q.index
    · rw [← hpindex, hsame, hboot]
      exact Or.inr .bootTarget
    · refine Or.inl ?_
      rw [hpcluster, hqcluster] at hcluster
      rw [hpcluster]
      exact arranged.first_eq_zero_of_shared hp hq hsame hcluster

theorem cluster_directoryItem_firmware (arranged : Arranged set a) (short : Bytes) :
    (directoryItem short a.firmwareCluster).cluster = a.rootClusters.toNat + 2 :=
  arranged.firmwareCluster_toNat

/-- Directories stand before all files. -/
theorem cluster_of_directoryEntry (arranged : Arranged set a) {e : Purpose × Listed}
    (he : e ∈ headEntries a.firmwareCluster ++ firmwareEntries a.firmwareCluster) :
    e.2.cluster ≤ a.rootClusters.toNat + 2 := by
  have hfirmware := arranged.cluster_directoryItem_firmware
  have hroot : ∀ short, (directoryItem short rootCluster).cluster = 2 := fun _ => rfl
  simp only [headEntries, firmwareEntries, List.cons_append, List.nil_append, List.mem_cons,
    List.not_mem_nil, or_false] at he
  rcases he with rfl | rfl | rfl | rfl | rfl | rfl | rfl
  case inl => exact Nat.zero_le _
  case inr.inr.inr.inr.inr.inl => exact Nat.zero_le _
  all_goals
    simp only [hfirmware, hroot]
    omega

/-- Directories are shared only by entries that are meant to. -/
theorem pairwise_directoryEntries (arranged : Arranged set a) :
    (headEntries a.firmwareCluster ++ firmwareEntries a.firmwareCluster).Pairwise fun x y =>
      x.2.cluster = y.2.cluster → x.2.cluster = 0 ∨ Purpose.MayShare set.boot x.1 y.1 := by
  have hpos := arranged.rootClusters_pos
  have hfirmware := arranged.cluster_directoryItem_firmware
  have hroot : ∀ short, (directoryItem short rootCluster).cluster = 2 := fun _ => rfl
  have hnone : ∀ short, (directoryItem short 0).cluster = 0 := fun _ => rfl
  rw [headEntries, firmwareEntries, List.cons_append, List.pairwise_cons]
  refine ⟨fun _ _ _ => Or.inl rfl, ?_⟩
  simp only [List.cons_append, List.nil_append, List.pairwise_cons, List.forall_mem_cons,
    hfirmware, hroot, hnone]
  refine ⟨⟨fun _ => Or.inr .bootSources, ?_, ?_, ?_, fun _ => Or.inr .bootWayBack, by simp⟩,
    ⟨?_, ?_, ?_, fun _ => Or.inr .sourcesWayBack, by simp⟩,
    ⟨fun _ => Or.inr .firmwareSelf, ?_, ?_, by simp⟩, ⟨?_, ?_, by simp⟩, ⟨?_, by simp⟩,
    by simp⟩
  -- The pairs that are left stand in different clusters.
  all_goals omega

/-- Entries share a cluster only where they are meant to. -/
theorem pairwise_entries (arranged : Arranged set a) :
    (headEntries a.firmwareCluster ++ fileEntries set a ++
      firmwareEntries a.firmwareCluster).Pairwise fun x y =>
        x.2.cluster = y.2.cluster → x.2.cluster = 0 ∨ Purpose.MayShare set.boot x.1 y.1 := by
  obtain ⟨hhead, htail, hacross⟩ := List.pairwise_append.mp arranged.pairwise_directoryEntries
  refine List.pairwise_append.mpr ⟨List.pairwise_append.mpr
    ⟨hhead, arranged.pairwise_fileEntries, ?_⟩, htail, ?_⟩
  · intro x hx y hy hcluster
    have hnear := arranged.cluster_of_directoryEntry (List.mem_append_left _ hx)
    rcases arranged.cluster_of_fileEntry hy with hzero | hfar
    · exact Or.inl (hcluster.trans hzero)
    · omega
  · intro x hx y hy hcluster
    rcases List.mem_append.mp hx with hx | hx
    · exact hacross x hx y hy hcluster
    · have hnear := arranged.cluster_of_directoryEntry (List.mem_append_right _ hy)
      rcases arranged.cluster_of_fileEntry hx with hzero | hfar
      · exact Or.inl hzero
      · omega

end Arranged

namespace Built

variable {set : FileSet} {d : VirtualDisk}

theorem isFirst_iff (built : Built set d) {c : Nat} :
    (d.survey set).allocation.IsFirst c ↔ ∃ chain ∈ d.arrangement.chains, chain.first.toNat = c :=
  Table.isFirst_iff (t := d.arrangement.table) built.arranged.abut built.next_le_marks built.next_le

/-- What a checker takes down is what it reads. -/
theorem survey_read (built : Built set d) (storage : Storage σ) :
    (d.survey set).Read (d.volume storage d.parameterBlock) := by
  have describes : d.parameterBlock.Describes d.geometry :=
    ParameterBlock.describes_parameterBlock ..
  have hroot := built.directory_root describes storage
  have hfirmware := built.directory_firmware describes storage
  refine ⟨describes.clusterCount_eq built.exact, ?_, ?_, ?_, ?_, ?_, ?_⟩
  · intro sector count hstop
    refine ⟨d.arrangement.table.read (512 * sector) (count * 512), fun copy hcopy => ?_⟩
    have hstart : d.parameterBlock.tableStart copy =
        32 + copy * d.geometry.tableSectors.toNat := describes.tableStart_eq copy
    show (BlockDevice.partition d).readSectors storage
      (d.parameterBlock.tableStart copy + sector) count = _
    rw [hstart]
    exact built.readSectors_table storage hcopy hstop
  · intro copy hcopy n hn
    exact built.entry_eq describes storage hcopy hn
  · intro c hc
    obtain ⟨chain, hchain, rfl⟩ := built.isFirst_iff.mp hc
    have hclusters : (d.survey set).allocation.chain chain.first.toNat = _ :=
      Table.chain_of_mem (t := d.arrangement.table) built.arranged.abut hchain
    rw [built.chain_eq describes storage hchain, hclusters]
  · rw [show (d.volume storage d.parameterBlock).block = d.parameterBlock from rfl, hroot]
    refine congrArg pure ?_
    simp only [VirtualDisk.survey, headEntries, fileEntries, List.map_append, List.map_cons,
      List.map_map, Function.comp_def, List.map_id', List.cons_append, List.nil_append]
  · exact ⟨(.firmware, directoryItem firmwareDirectory d.arrangement.firmwareCluster),
      List.mem_append_left _ (by simp [headEntries]), rfl, hfirmware⟩
  · refine ⟨_, built.readSectors_freeSpace storage, ?_⟩
    have hused := built.arranged.used_toNat
    have hnext := built.arranged.next
    have hclusters := built.clusters
    have hfree : (d.geometry.clusters - d.arrangement.used).toNat =
        d.geometry.clusters.toNat + 2 - d.arrangement.next.toNat := by
      rw [UInt32.toNat_sub_of_le _ _ (UInt32.le_iff_toNat_le.mpr (by omega))]
      omega
    rw [ofSector?_freeSpaceSector, hfree]
    rfl

/-- The survey of a built disk has no complaint. -/
theorem survey_consistent (built : Built set d) : (d.survey set).Consistent set 2 where
  sound := Table.allocation_sound (t := d.arrangement.table) built.arranged.abut
    built.next_le_marks built.next_le
  root_names := by
    simp only [VirtualDisk.survey, headEntries, fileEntries, rootPurposes, List.map_append,
      List.map_cons, List.map_nil, List.map_map, Function.comp_def, map_short_aliasItems,
      List.append_assoc]
    rfl
  firmware_names := rfl
  reached c hc := by
    obtain ⟨chain, hchain, rfl⟩ := built.isFirst_iff.mp hc
    rcases Arrangement.chain_cases hchain with hroot | hfirmware | ⟨p, hp, hfirst⟩
    · exact Or.inl (congrArg UInt32.toNat hroot)
    · refine Or.inr ⟨(.firmware, directoryItem firmwareDirectory d.arrangement.firmwareCluster),
        List.mem_append_left _ (List.mem_append_left _ (by simp [headEntries])), ?_⟩
      rw [hfirmware]
      rfl
    · obtain ⟨e, he, hcluster⟩ := built.arranged.exists_fileEntry hp
      exact Or.inr ⟨e, List.mem_append_left _ (List.mem_append_right _ he), hfirst ▸ hcluster⟩
  leads e he := by
    have hroot : (d.survey set).allocation.IsFirst 2 :=
      built.isFirst_iff.mpr ⟨_, List.mem_cons_self .., rfl⟩
    have hfirmware : (d.survey set).allocation.IsFirst d.arrangement.firmwareCluster.toNat :=
      built.isFirst_iff.mpr ⟨_, List.mem_cons_of_mem _ (List.mem_cons_self ..), rfl⟩
    simp only [Survey.entries, VirtualDisk.survey, headEntries, firmwareEntries, List.mem_append,
      List.mem_cons, List.not_mem_nil, or_false] at he
    rcases he with ((rfl | rfl | rfl | rfl) | he) | rfl | rfl | rfl
    · exact Or.inl rfl
    · exact Or.inr hroot
    · exact Or.inr hroot
    · exact Or.inr hfirmware
    · obtain ⟨p, hp, hcluster, -⟩ := built.arranged.fileEntry_cases he
      rcases built.arranged.first_cases hp with ⟨-, hzero⟩ | ⟨hlength, -⟩
      · rw [hcluster, hzero]
        exact Or.inl rfl
      · refine Or.inr (built.isFirst_iff.mpr
          ⟨_, built.arranged.mem_chains_of_nonempty hp hlength, hcluster.symm⟩)
    · exact Or.inr hfirmware
    · exact Or.inl rfl
    · exact Or.inr hroot
  apart := built.arranged.pairwise_entries
  shared x hx y hy hshare := by
    rw [cluster_of_mem_entries hx, cluster_of_mem_entries hy]
    generalize x.1 = first, y.1 = second at hshare
    cases hshare <;> rfl
  rooted e he hpurpose := by
    rw [cluster_of_mem_entries he]
    rcases hpurpose with h | h | h <;> rw [h] <;> rfl

end Built

/-- The volume on a built disk is consistent, whatever the files of the set are called and
however long they are, as long as no cluster number wraps. -/
theorem built_volume_consistent {set : FileSet} {d : VirtualDisk} {m₀ m₁ : Machine σ}
    (hbuild : (VirtualDisk.build set).runOn m₀ = (.ok d, m₁))
    (hused : usedClusters set ≤ maxClusters) (storage : Storage σ) :
    ∃ (b : ParameterBlock) (s : Survey),
      (BlockDevice.partition d).mount? storage = pure (some (d.volume storage b)) ∧
      b.Describes d.geometry ∧ s.Read (d.volume storage b) ∧ s.Consistent set b.rootCluster := by
  have built := built_of_build hbuild hused
  exact ⟨d.parameterBlock, d.survey set, built.mount?_block storage,
    ParameterBlock.describes_parameterBlock .., built.survey_read storage,
    built.survey_consistent⟩

theorem crowdedSet_volume_consistent :
    ∃ (d : VirtualDisk) (m₁ : Machine Unit) (b : ParameterBlock) (s : Survey),
      (VirtualDisk.build crowdedSet).runOn { world := () } = (.ok d, m₁) ∧
        usedClusters crowdedSet ≤ maxClusters ∧
        (BlockDevice.partition d).mount? .absent = pure (some (d.volume .absent b)) ∧
        s.Read (d.volume .absent b) ∧ s.Consistent crowdedSet b.rootCluster := by
  obtain ⟨hused, d, m₁, hbuild⟩ := build_crowdedSet
  obtain ⟨b, s, hmount, -, hread, hconsistent⟩ := built_volume_consistent hbuild hused .absent
  exact ⟨d, m₁, b, s, hbuild, hused, hmount, hread, hconsistent⟩

end BootVolume.Image
