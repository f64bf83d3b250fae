import BootVolume.Proofs.Files.BootTarget
import BootVolume.Proofs.Image.RootListing

/-!
# The way to the boot target

The firmware looks for the boot manager of a removable medium by one fixed path.
On a built disk the directory `\EFI` leads to a directory `BOOT`, which is the
root again.  There the first entry with the name sought is the boot target: a
visible file of this name is the boot target itself, since no other file may be
shown under it, and otherwise the boot target is listed a second time.
-/

namespace BootVolume.Image

open Fat Files

variable {σ : Type}

/-! ## Entries that answer -/

/-- The name by which the firmware looks for the boot manager. -/
def soughtName : String := Text.upper bootName

theorem components_bootFilePath : components bootFilePath = ["EFI", "BOOT", soughtName] := by
  decide

theorem answers_directoryItem (component : String) (short : Bytes) (cluster : UInt32) :
    Mounted.answers component (directoryItem short cluster) =
      Text.sameName (shownShort short 0) component := by
  have hlabel : (directoryItem short cluster).isLabel = false := by
    show (attrDirectory &&& attrVolume != 0) = false
    decide
  rw [Mounted.answers, hlabel]
  rfl

theorem sameName_soughtName (name : String) :
    Text.sameName name soughtName = Text.sameName name bootName := by
  have hfold : Text.fold soughtName = Text.fold bootName := by decide
  unfold Text.sameName
  rw [hfold]

/-- A file is found under the sought name just if this is the last component of its name. -/
theorem answers_fileItem {name : String} {stored : StoredName}
    (hstored : storedName? name = some stored) (first : UInt32) (file : FileEntry) :
    Mounted.answers soughtName (fileItem stored first file) = Text.sameName name bootName := by
  have hshown : Text.sameName stored.shown soughtName = Text.sameName name soughtName :=
    StoredName.sameName_shown hstored (by decide) (by decide)
  have hlabel : (fileItem stored first file).isLabel = false := by
    show (Arrangement.fileAttributes &&& attrVolume != 0) = false
    decide
  rw [← sameName_soughtName, ← hshown, Mounted.answers, hlabel]
  rfl

/-- Of the label and the directories in the root, `\EFI` alone answers to its name. -/
theorem find?_firmwareDirectory (cluster : UInt32) (rest : List Listed) :
    (labelItem :: directoryItem bootDirectory rootCluster ::
        directoryItem sourcesDirectory rootCluster ::
        directoryItem firmwareDirectory cluster :: rest).find? (Mounted.answers "EFI") =
      some (directoryItem firmwareDirectory cluster) := by
  have hlabel : Mounted.answers "EFI" labelItem = false := by decide
  have hboot : Text.sameName (shownShort bootDirectory 0) "EFI" = false := by decide
  have hsources : Text.sameName (shownShort sourcesDirectory 0) "EFI" = false := by decide
  have hfirmware : Text.sameName (shownShort firmwareDirectory 0) "EFI" = true := by decide
  simp only [List.find?_cons, answers_directoryItem, hlabel, hboot, hsources, hfirmware]

/-- Neither the label nor a directory in the root has the sought name. -/
theorem find?_soughtName_root (cluster : UInt32) (rest : List Listed) :
    (labelItem :: directoryItem bootDirectory rootCluster ::
        directoryItem sourcesDirectory rootCluster ::
        directoryItem firmwareDirectory cluster :: rest).find? (Mounted.answers soughtName) =
      rest.find? (Mounted.answers soughtName) := by
  have hlabel : Mounted.answers soughtName labelItem = false := by decide
  have hboot : Text.sameName (shownShort bootDirectory 0) soughtName = false := by
    decide
  have hsources : Text.sameName (shownShort sourcesDirectory 0) soughtName = false := by
    decide
  have hfirmware : Text.sameName (shownShort firmwareDirectory 0) soughtName = false := by
    decide
  simp only [List.find?_cons, answers_directoryItem, hlabel, hboot, hsources, hfirmware]

theorem find?_bootDirectory (cluster : UInt32) :
    [directoryItem (Bytes.ascii ".          ") cluster,
        directoryItem (Bytes.ascii "..         ") 0,
        directoryItem bootDirectory rootCluster].find? (Mounted.answers "BOOT") =
      some (directoryItem bootDirectory rootCluster) := by
  have hself : Text.sameName (shownShort (Bytes.ascii ".          ") 0) "BOOT" = false := by
    decide
  have hparent : Text.sameName (shownShort (Bytes.ascii "..         ") 0) "BOOT" = false := by
    decide
  have hboot : Text.sameName (shownShort bootDirectory 0) "BOOT" = true := by decide
  simp only [List.find?_cons, answers_directoryItem, hself, hparent, hboot]

/-- Of the files in the root directory the first with the sought name is the boot target. -/
theorem find?_soughtName (set : FileSet) (first : Nat → UInt32) :
    ∃ stored,
      (((visibleFiles set).1.map fun v => fileItem v.stored (first v.index) v.file) ++
          aliasItems (bootAlias? set.boot (visibleFiles set).1) (first set.boot)
            set.bootTarget).find? (Mounted.answers soughtName) =
        some (fileItem stored (first set.boot) set.bootTarget) := by
  have shows := shows_visibleFiles set
  have hanswers : ∀ v ∈ (visibleFiles set).1,
      Mounted.answers soughtName (fileItem v.stored (first v.index) v.file) =
        Text.sameName v.file.baseName bootName := fun v hv =>
    answers_fileItem (accept_eq_ok_iff.mp (shows.accepted v hv)).1 _ _
  rw [List.find?_append]
  cases hfound : ((visibleFiles set).1.map fun v =>
      fileItem v.stored (first v.index) v.file).find? (Mounted.answers soughtName) with
  | some item =>
      obtain ⟨v, hv, rfl⟩ := List.mem_map.mp (List.mem_of_find?_eq_some hfound)
      have hname : Text.sameName v.file.baseName bootName = true := by
        rw [← hanswers v hv]
        exact List.find?_some hfound
      -- A file other than the boot target would not have been accepted under this name.
      have hindex : v.index = set.boot := by
        by_contra hne
        exact (accept_eq_ok_iff.mp (shows.accepted v hv)).2.2 ⟨hne, hname⟩
      have hfile : v.file = set.bootTarget := by
        have hat := shows.at_index v hv
        rw [hindex, files_boot, Option.some.injEq] at hat
        exact hat.symm
      refine ⟨v.stored, ?_⟩
      rw [Option.some_or, hindex, hfile]
  | none =>
      have hnone : Arrangement.bootNameShown set.boot (visibleFiles set).1 = false := by
        refine List.any_eq_false.mpr fun v hv => ?_
        have hno := List.find?_eq_none.mp hfound _ (List.mem_map_of_mem hv)
        rw [hanswers v hv] at hno
        simp [hno]
      obtain ⟨stored, hstored⟩ : ∃ stored, storedName? bootName = some stored :=
        Option.isSome_iff_exists.mp (by decide)
      refine ⟨stored, ?_⟩
      have hanswer := answers_fileItem hstored (first set.boot) set.bootTarget
      rw [Text.sameName_refl] at hanswer
      rw [Option.none_or, bootAlias?, hnone, hstored, aliasItems]
      exact List.find?_cons_of_pos hanswer

/-! ## Directories on the way -/

theorem not_mem_baseName {c : Char} {name : String} (h : c ∉ name.toList) :
    c ∉ (baseName name).toList := by
  intro hmem
  rw [baseName, String.toList_ofList, List.mem_reverse] at hmem
  exact h (List.mem_reverse.mp ((List.takeWhile_sublist _).subset hmem))

namespace Built

variable {set : FileSet} {d : VirtualDisk} {b : ParameterBlock}

theorem directory_root_of_nul_free (built : Built set d) (describes : b.Describes d.geometry)
    (hnul : ∀ file ∈ set.files, '\x00' ∉ file.name.toList) (storage : Storage σ) :
    (d.volume storage b).directory b.rootCluster = pure
      (labelItem :: directoryItem bootDirectory rootCluster ::
        directoryItem sourcesDirectory rootCluster ::
        directoryItem firmwareDirectory d.arrangement.firmwareCluster ::
        ((visibleFiles set).1.map fun v =>
          fileItem v.stored (d.arrangement.firstCluster v.index) v.file) ++
        aliasItems (bootAlias? set.boot (visibleFiles set).1)
          (d.arrangement.firstCluster set.boot) set.bootTarget) := by
  have shows := shows_visibleFiles set
  have hitems : ∀ v ∈ (visibleFiles set).1,
      listedItem v.stored (d.arrangement.firstCluster v.index) v.file =
        fileItem v.stored (d.arrangement.firstCluster v.index) v.file := by
    intro v hv
    have hmem := List.mem_of_getElem? (shows.at_index v hv)
    exact listedItem_eq (accept_eq_ok_iff.mp (shows.accepted v hv)).1
      (not_mem_baseName (hnul _ hmem)) _ _
  rw [built.directory_root describes storage, List.map_congr_left hitems]

/-- From the root into `\EFI`, and from there by `BOOT` back to the root. -/
theorem resolveFrom_firmwareBoot (built : Built set d) (describes : b.Describes d.geometry)
    (storage : Storage σ) (next : String) (rest : List String) :
    (d.volume storage b).resolveFrom b.rootCluster ("EFI" :: "BOOT" :: next :: rest) =
      (d.volume storage b).resolveFrom b.rootCluster (next :: rest) := by
  have hroot := built.directory_root describes storage
  have hfirmware := built.directory_firmware describes storage
  have hcluster := built.arranged.firmwareCluster_toNat
  have hdown : (d.volume storage b).directoryCluster
      (directoryItem firmwareDirectory d.arrangement.firmwareCluster) =
        d.arrangement.firmwareCluster.toNat := if_neg (by
    show d.arrangement.firmwareCluster.toNat ≠ 0
    omega)
  have hback : (d.volume storage b).directoryCluster (directoryItem bootDirectory rootCluster) =
      b.rootCluster := describes.rootCluster.symm
  rw [Mounted.resolveFrom_next hroot (find?_firmwareDirectory ..), hdown,
    Mounted.resolveFrom_next hfirmware (find?_bootDirectory _), hback]

theorem resolve_bootFilePath (built : Built set d) (describes : b.Describes d.geometry)
    (hnul : ∀ file ∈ set.files, '\x00' ∉ file.name.toList) (storage : Storage σ) :
    ∃ stored, (d.volume storage b).resolve (components bootFilePath) =
      pure (some (fileItem stored (d.arrangement.firstCluster set.boot) set.bootTarget)) := by
  obtain ⟨stored, hfound⟩ := find?_soughtName set d.arrangement.firstCluster
  have hroot := built.directory_root_of_nul_free describes hnul storage
  have hsought := (find?_soughtName_root d.arrangement.firmwareCluster _).trans hfound
  refine ⟨stored, ?_⟩
  calc (d.volume storage b).resolve (components bootFilePath)
      = (d.volume storage b).resolveFrom b.rootCluster ["EFI", "BOOT", soughtName] := by
        rw [components_bootFilePath]
        rfl
    _ = (d.volume storage b).resolveFrom b.rootCluster [soughtName] :=
        built.resolveFrom_firmwareBoot describes storage soughtName []
    _ = _ := Mounted.resolveFrom_last hroot hsought

end Built

/-- The path for removable media leads to the boot target: whatever was registered, the first
entries with the names on the path lead to a file of its length, and this file reads back as
the content of the boot target. -/
theorem boot_path_serves_target {c : Catalog} (hreachable : c.Reachable) {set : FileSet}
    (hfinish : c.finish = .ok set) (hnul : ∀ file ∈ set.files, '\x00' ∉ file.name.toList)
    {d : VirtualDisk} {m₀ m₁ : Machine σ}
    (hbuild : (VirtualDisk.build set).runOn m₀ = (.ok d, m₁))
    (hused : usedClusters set ≤ maxClusters) (storage : Storage σ) :
    ∃ (b : ParameterBlock) (item : Listed),
      (BlockDevice.partition d).mount? storage = pure (some (d.volume storage b)) ∧
      (d.volume storage b).resolve (components bootFilePath) = pure (some item) ∧
      item.isDirectory = false ∧ item.size = set.bootTarget.length ∧
      (d.volume storage b).chain item.cluster =
        pure (List.range' item.cluster (ceilDiv set.bootTarget.length clusterSize)) ∧
      ∀ (good : Machine σ → Prop) (content : Bytes),
        Honest storage good set.bootTarget.source content → ∀ m, good m →
        ∃ m', ((d.volume storage b).readFile item).runOn m = (.ok content, m') ∧ good m' := by
  have built := built_of_build hbuild hused
  obtain ⟨b, describes, hmount⟩ := built.mount?_eq storage
  obtain ⟨stored, hresolve⟩ := built.resolve_bootFilePath describes hnul storage
  obtain ⟨-, hfits⟩ := fits_of_oversized? (eq_assemble_of_build hbuild).1
  have hpatch := (hreachable.bootNamed.of_finish hfinish).2
  have hsize : (UInt32.ofNat set.bootTarget.length).toNat = set.bootTarget.length := by
    rw [UInt32.toNat_ofNat']
    exact Nat.mod_eq_of_lt hfits
  have back := built.readsBack_at describes (files_boot set) (Or.inl rfl) storage
  have hdirectory :
      (fileItem stored (d.arrangement.firstCluster set.boot) set.bootTarget).isDirectory =
        false := by
    show (Arrangement.fileAttributes &&& attrDirectory != 0) = false
    decide
  exact ⟨b, _, hmount, hresolve, hdirectory, hsize, back.chain,
    fun good content honest m hm => back.readFile hpatch honest rfl hsize hm⟩

/-- A set of two boot managers, the first of them the boot target. -/
def twoManagers : FileSet where
  files :=
    [{ name := "efi/bootmgfw.efi", source := .memory [1, 2, 3] },
      { name := "BOOTX64.EFI", source := .memory [4] }]
  boot := 0
  boot_lt := Nat.zero_lt_two

theorem twoManagers_path_serves_first :
    ∃ (d : VirtualDisk) (m₁ m₂ : Machine Unit) (b : ParameterBlock) (item : Listed),
      (VirtualDisk.build twoManagers).runOn { world := () } = (.ok d, m₁) ∧
        usedClusters twoManagers ≤ maxClusters ∧
        (d.volume .absent b).resolve (components bootFilePath) = pure (some item) ∧
        ((d.volume .absent b).readFile item).runOn m₁ = (.ok [1, 2, 3], m₂) := by
  have hused : usedClusters twoManagers ≤ maxClusters := by decide
  have hoversized : oversized? twoManagers (visibleFiles twoManagers).1 = none := by
    decide
  have hnul : ∀ file ∈ twoManagers.files, '\x00' ∉ file.name.toList := by decide
  obtain ⟨m₁, hbuild⟩ := build_of_fits (σ := Unit) hoversized { world := () }
  obtain ⟨c, hreachable, hfinish⟩ : ∃ c : Catalog, c.Reachable ∧ c.finish = .ok twoManagers :=
    ⟨_, (Catalog.Reachable.empty.register (σ := Unit) .opaqueFiles {} "efi/bootmgfw.efi"
      (.memory [1, 2, 3]) { world := () }).register .opaqueFiles {} "BOOTX64.EFI"
      (.memory [4]) { world := () }, rfl⟩
  obtain ⟨b, item, -, hresolve, -, -, -, hread⟩ :=
    boot_path_serves_target hreachable hfinish hnul hbuild hused .absent
  obtain ⟨m₂, hread, -⟩ := hread (fun _ => True) [1, 2, 3] (honest_memory _ _ _) m₁ trivial
  exact ⟨_, m₁, m₂, b, item, hbuild, hused, hresolve, hread⟩

end BootVolume.Image
