import BootVolume.Proofs.Files.InTurn
import BootVolume.Proofs.Image.RootListing

/-!
# Which of several files a name leads to

The root directory shows one file under each last component of a name.  It is
the one whose full name came up last, with the content that this name was given
last (`newest_name_served`).  That is not always the file registered last: where a
name is registered again behind the first use of another one, the directory
keeps to the other one (`crossedFiles`).
-/

namespace BootVolume.Image

open Fat Files

variable {σ : Type} {set : FileSet} {base : String}

/-- Whether the last component of a name may stand in the root directory. -/
def isShowable (name : String) : Bool :=
  (storedName? (baseName name)).any fun stored => !isReserved stored.short

theorem exists_accept {file : FileEntry} (hshown : isShowable file.name = true)
    (hbase : Text.sameName file.baseName base = true) (hboot : Text.sameName bootName base = false)
    (boot index : Nat) : ∃ stored, accept boot index file = .ok stored := by
  obtain ⟨stored, hstored, hfree⟩ := (Option.any_eq_true _ _).mp hshown
  refine ⟨stored, accept_eq_ok_iff.mpr ⟨hstored, by simpa using hfree, ?_⟩⟩
  rintro ⟨-, hsame⟩
  have hcross := Text.sameName_trans (Text.sameName_comm _ _ ▸ hsame) hbase
  rw [hboot] at hcross
  cases hcross

/-- A file that may be shown is shown, or one behind it with the same last component is. -/
theorem exists_visible_behind {i : Nat} {file : FileEntry} {stored : StoredName}
    (hfile : set.files[i]? = some file) (haccept : accept set.boot i file = .ok stored)
    (hbase : Text.sameName file.baseName base = true) :
    ∃ v ∈ (visibleFiles set).1, Text.sameName v.file.baseName base = true ∧ i ≤ v.index := by
  obtain ⟨v, hv, hkey, hle⟩ := (shows_visibleFiles set).covered i file stored hfile haccept
  have hsame : Text.sameName v.file.baseName file.baseName = true :=
    (Text.sameName_iff _ _).mpr hkey
  exact ⟨v, hv, Text.sameName_trans hsame hbase, hle⟩

/-- The last element of its kind. -/
theorem getLast?_filter_eq_some {α : Type} {l : List α} {p : α → Bool} {i : Nat} {a : α}
    (hi : l[i]? = some a) (ha : p a = true) (hlater : ∀ j b, i < j → l[j]? = some b → p b = false) :
    (l.filter p).getLast? = some a := by
  obtain ⟨hlt, rfl⟩ := List.getElem?_eq_some_iff.mp hi
  have hsplit : l = l.take i ++ l[i] :: l.drop (i + 1) := by
    rw [List.getElem_cons_drop, List.take_append_drop]
  have hbehind : (l.drop (i + 1)).filter p = [] := by
    rw [List.filter_eq_nil_iff]
    intro b hb
    obtain ⟨j, hj⟩ := List.mem_iff_getElem?.mp hb
    rw [List.getElem?_drop] at hj
    rw [hlater (i + 1 + j) b (by omega) hj]
    exact Bool.false_ne_true
  have hfilter : l.filter p = (l.take i).filter p ++ [l[i]] := by
    calc l.filter p = (l.take i ++ l[i] :: l.drop (i + 1)).filter p := by rw [← hsplit]
      _ = (l.take i).filter p ++ [l[i]] := by
        rw [List.filter_append, List.filter_cons_of_pos ha, hbehind]
  rw [hfilter]
  exact List.getLast?_concat

section Newest

variable {files others : List (String × Source)} {c : Catalog}

/-- What was registered is in the set. -/
theorem exists_file_of_mem (holds : c.Holds others) (hfinish : c.finish = .ok set)
    {name : String} (hname : name ∈ others.map Prod.fst) :
    ∃ (i : Nat) (file : FileEntry), set.files[i]? = some file ∧
      Text.fold file.name = Text.fold name := by
  obtain ⟨registered, hmem, rfl⟩ := List.mem_map.mp hname
  have hfold : Text.fold registered.1 ∈ c.names := by
    rw [holds.names, namesInTurn, List.mem_eraseDups]
    exact List.mem_map_of_mem hmem
  obtain ⟨file, hfile, hsame⟩ := List.mem_map.mp hfold
  obtain ⟨i, hi⟩ := List.mem_iff_getElem?.mp (Catalog.files_of_finish hfinish ▸ hfile)
  exact ⟨i, file, hi, hsame⟩

/-- The files of a set are among those registered. -/
theorem mem_filesUnder_of_getElem? (holds : c.Holds others) (hfinish : c.finish = .ok set)
    {i : Nat} {file : FileEntry} (hfile : set.files[i]? = some file)
    (hsame : Text.sameName file.baseName base = true) :
    (file.name, file.source) ∈ filesUnder base others := by
  have hmem := List.mem_of_getElem? hfile
  rw [Catalog.files_of_finish hfinish] at hmem
  exact mem_filesUnder.mpr ⟨mem_of_lastFile? (holds.last file hmem), hsame⟩

/-- The visible file with a last component has the newest name with it, if no file behind it has
this last component. -/
theorem newestName?_of_visible (holds : c.Holds others) (hfinish : c.finish = .ok set)
    {v : Visible} (hv : v ∈ (visibleFiles set).1)
    (hsame : Text.sameName v.file.baseName base = true)
    (hlast : ∀ i file, set.files[i]? = some file → Text.sameName file.baseName base = true →
      i ≤ v.index) : newestName? base others = some (Text.fold v.file.name) := by
  have hfiles := Catalog.files_of_finish hfinish
  have hat := (shows_visibleFiles set).at_index v hv
  rw [newestName?, ← namesInTurn_filesUnder, ← holds.names]
  apply getLast?_filter_eq_some (i := v.index)
  · rw [Catalog.names, ← hfiles, List.getElem?_map, hat]
    rfl
  · exact beq_iff_eq.mpr (sameName_baseName_iff.mp hsame)
  · intro j name hj hname
    rw [Catalog.names, ← hfiles, List.getElem?_map] at hname
    obtain ⟨file, hfile, rfl⟩ := Option.map_eq_some_iff.mp hname
    rw [← Bool.not_eq_true, beq_iff_eq]
    intro hfold
    have hle := hlast j file hfile (sameName_baseName_iff.mpr hfold)
    omega

/-- Of the files with one last component the one with the newest name is visible. -/
theorem exists_visible_newest (holds : c.Holds others) (hfinish : c.finish = .ok set)
    (hbase : filesUnder base others ≠ []) (hboot : Text.sameName bootName base = false)
    (hshown : ∀ file ∈ filesUnder base others, isShowable file.1 = true) :
    ∃ v ∈ (visibleFiles set).1,
      (∀ w ∈ (visibleFiles set).1, Text.sameName w.file.baseName base = true → w = v) ∧
      Text.sameName v.file.baseName base = true ∧
      newestName? base others = some (Text.fold v.file.name) ∧
      lastFile? v.file.name others = some (v.file.name, v.file.source) := by
  have shows := shows_visibleFiles set
  -- Every file with this last component is shown, or one behind it is.
  have hbehind : ∀ i file, set.files[i]? = some file →
      Text.sameName file.baseName base = true →
      ∃ w ∈ (visibleFiles set).1, Text.sameName w.file.baseName base = true ∧ i ≤ w.index := by
    intro i file hfile hsame
    have hshowable : isShowable file.name = true :=
      hshown (file.name, file.source) (mem_filesUnder_of_getElem? holds hfinish hfile hsame)
    obtain ⟨stored, hstored⟩ := exists_accept hshowable hsame hboot set.boot i
    exact exists_visible_behind hfile hstored hsame
  obtain ⟨v, hv, hsame⟩ : ∃ v ∈ (visibleFiles set).1, Text.sameName v.file.baseName base = true := by
    obtain ⟨first, hfirst⟩ := List.exists_mem_of_ne_nil _ hbase
    obtain ⟨hmem, hunder⟩ := mem_filesUnder.mp hfirst
    obtain ⟨i, file, hfile, hfold⟩ :=
      exists_file_of_mem holds hfinish (List.mem_map_of_mem (f := Prod.fst) hmem)
    have hfileBase : Text.sameName file.baseName base = true := by
      rw [sameName_baseName_iff] at hunder
      rw [FileEntry.baseName, sameName_baseName_iff, hfold, hunder]
    obtain ⟨v, hv, hsame, -⟩ := hbehind i file hfile hfileBase
    exact ⟨v, hv, hsame⟩
  have hunique : ∀ w ∈ (visibleFiles set).1, Text.sameName w.file.baseName base = true → w = v := by
    intro w hw hwsame
    apply List.inj_on_of_nodup_map shows.distinct hw hv
    calc w.key = Text.fold base := (Text.sameName_iff _ _).mp hwsame
      _ = v.key := ((Text.sameName_iff _ _).mp hsame).symm
  refine ⟨v, hv, hunique, hsame, ?_, ?_⟩
  · refine newestName?_of_visible holds hfinish hv hsame fun i file hfile hfileBase => ?_
    obtain ⟨w, hw, hwsame, hle⟩ := hbehind i file hfile hfileBase
    rwa [hunique w hw hwsame] at hle
  · have hmem := List.mem_of_getElem? (shows.at_index v hv)
    rw [Catalog.files_of_finish hfinish] at hmem
    exact holds.last v.file hmem

/-- Under a last component that may stand in the root directory and does not belong to the boot
target, the directory serves the file whose full name came up last, as it was registered last.
This is the last file with that component if its name is the newest one. -/
theorem newest_name_served {container : Container σ} {settings : Settings} {m m' m₀ m₁ : Machine σ}
    (hregister : (Catalog.registerAll container settings files).runFrom .empty m =
      ((.ok (), c), m'))
    (hfinish : c.finish = .ok set) {d : VirtualDisk}
    (hbuild : (VirtualDisk.build set).runOn m₀ = (.ok d, m₁))
    (hused : usedClusters set ≤ maxClusters) (hbase : filesUnder base files ≠ [])
    (hboot : Text.sameName bootName base = false)
    (hshown : ∀ file ∈ filesUnder base files, isShowable file.1 = true) (storage : Storage σ) :
    ∃ (b : ParameterBlock) (items : List Listed) (v : Visible) (first : UInt32),
      (BlockDevice.partition d).mount? storage = pure (some (d.volume storage b)) ∧
      (d.volume storage b).directory b.rootCluster = pure items ∧
      v ∈ (visibleFiles set).1 ∧
      (∀ w ∈ (visibleFiles set).1, Text.sameName w.file.baseName base = true ↔ w = v) ∧
      storedName? v.file.baseName = some v.stored ∧
      listedItem v.stored first v.file ∈ items ∧
      ReadsBack storage d b first v.file ∧
      newestName? base files = some (Text.fold v.file.name) ∧
      lastFile? v.file.name files = some (v.file.name, v.file.source) ∧
      ∀ last, (filesUnder base files).getLast? = some last →
        Text.sameName last.1 v.file.name = true → last = (v.file.name, v.file.source) := by
  obtain ⟨done, hdone, holds⟩ := Catalog.holds_of_registerAll hregister .empty
  rw [List.nil_append] at holds
  have hunder : filesUnder base (done.flatMap Registered.puts) = filesUnder base files := by
    rw [filesUnder_puts hboot, hdone]
  obtain ⟨v, hv, hunique, hsame, hnewest, hlast⟩ := exists_visible_newest holds hfinish
    (hunder ▸ hbase) hboot (hunder ▸ hshown)
  rw [newestName?, hunder, ← newestName?] at hnewest
  rw [← lastFile?_filesUnder hsame, hunder, lastFile?_filesUnder hsame] at hlast
  have built := built_of_build hbuild hused
  obtain ⟨b, describes, hmount⟩ := built.mount?_eq storage
  have hroot := built.directory_root describes storage
  have shows := shows_visibleFiles set
  have hstored := (accept_eq_ok_iff.mp (shows.accepted v hv)).1
  have back := built.readsBack_at describes (shows.at_index v hv) (Or.inr ⟨v, hv, rfl⟩) storage
  refine ⟨b, _, v, d.arrangement.firstCluster v.index, hmount, hroot, hv, ?_, hstored, ?_, back,
    hnewest, hlast, ?_⟩
  · intro w hw
    constructor
    · exact hunique w hw
    · rintro rfl
      exact hsame
  · have hitem := List.mem_map_of_mem
      (f := fun v : Visible => listedItem v.stored (d.arrangement.firstCluster v.index) v.file) hv
    simp only [List.mem_cons, List.cons_append, List.mem_append]
    exact Or.inr (Or.inr (Or.inr (Or.inr (Or.inl hitem))))
  · intro last hlatest hname
    obtain ⟨before, hsplit⟩ := List.getLast?_eq_some_iff.mp hlatest
    rw [← lastFile?_filesUnder hsame, hsplit, lastFile?_concat, if_pos hname] at hlast
    exact Option.some.inj hlast

end Newest

/-! ## A name registered again behind another one -/

/-- Two files with one last component, the first of them registered again behind the other. -/
def crossedFiles : List (String × Source) :=
  [("bootmgfw.efi", .memory [1]), ("a/x.txt", .memory [2]), ("b/x.txt", .memory [3, 3]),
    ("a/x.txt", .memory [4, 4, 4])]

/-- The set that these files are closed into. -/
def crossedSet : FileSet where
  files :=
    [{ name := "bootmgfw.efi", source := .memory [1] },
      { name := "a/x.txt", source := .memory [4, 4, 4] },
      { name := "b/x.txt", source := .memory [3, 3] }]
  boot := 0
  boot_lt := Nat.zero_lt_succ _

theorem finish_crossedFiles :
    ∃ (c : Catalog) (m : Machine Unit),
      (Catalog.registerAll .opaqueFiles {} crossedFiles).runFrom .empty { world := () } =
        ((.ok (), c), m) ∧ c.finish = .ok crossedSet := by
  have houtcome : ((Catalog.registerAll (σ := Unit) .opaqueFiles {} crossedFiles).runFrom .empty
      { world := () }).1.1.toBool = true := by decide
  have hfiles : ((Catalog.registerAll (σ := Unit) .opaqueFiles {} crossedFiles).runFrom .empty
      { world := () }).1.2.files = crossedSet.files := by decide
  have hboot : ((Catalog.registerAll (σ := Unit) .opaqueFiles {} crossedFiles).runFrom .empty
      { world := () }).1.2.boot.map Prod.fst = some crossedSet.boot := by decide
  generalize (Catalog.registerAll (σ := Unit) .opaqueFiles {} crossedFiles).runFrom .empty
    { world := () } = run at houtcome hfiles hboot ⊢
  obtain ⟨⟨failure | ⟨⟩, c⟩, m⟩ := run
  · cases houtcome
  · exact ⟨c, m, rfl, Catalog.finish_eq_ok hfiles hboot⟩

theorem usedClusters_crossedSet : usedClusters crossedSet ≤ maxClusters := by decide

theorem build_crossedSet :
    ∃ (d : VirtualDisk) (m : Machine Unit),
      (VirtualDisk.build crossedSet).runOn { world := () } = (.ok d, m) := by
  have hoversized : oversized? crossedSet (visibleFiles crossedSet).1 = none := by decide
  obtain ⟨m, hbuild⟩ := build_of_fits (σ := Unit) hoversized { world := () }
  exact ⟨_, m, hbuild⟩

/-- The name that came up last is served. -/
theorem crossedFiles_serve_newest :
    ∃ (d : VirtualDisk) (m₁ m₂ : Machine Unit) (b : ParameterBlock) (v : Visible) (first : UInt32),
      (VirtualDisk.build crossedSet).runOn { world := () } = (.ok d, m₁) ∧
        newestName? "x.txt" crossedFiles = some "b/x.txt".toList ∧
        v ∈ (visibleFiles crossedSet).1 ∧ v.file.source = .memory [3, 3] ∧
        ((d.volume .absent b).readFile (listedItem v.stored first v.file)).runOn m₁ =
          (.ok [3, 3], m₂) := by
  obtain ⟨c, m, hregister, hfinish⟩ := finish_crossedFiles
  obtain ⟨d, m₁, hbuild⟩ := build_crossedSet
  have hunder : filesUnder "x.txt" crossedFiles ≠ [] := by decide
  have hshown : ∀ file ∈ filesUnder "x.txt" crossedFiles, isShowable file.1 = true := by
    decide
  have hnewest : newestName? "x.txt" crossedFiles = some "b/x.txt".toList := by decide
  obtain ⟨b, items, v, first, -, -, hv, -, -, -, back, hname, hlast, -⟩ :=
    newest_name_served hregister hfinish hbuild usedClusters_crossedSet hunder (by decide)
      hshown .absent
  have hfile : ∀ w ∈ (visibleFiles crossedSet).1,
      newestName? "x.txt" crossedFiles = some (Text.fold w.file.name) →
        w.file = { name := "b/x.txt", source := .memory [3, 3] } := by
    decide
  have hv_file := hfile v hv hname
  have hsource : v.file.source = .memory [3, 3] := by rw [hv_file]
  have hpatch : v.file.patch = none := by rw [hv_file]
  have hsize : (listedItem v.stored first v.file).size = v.file.length := by
    rw [hv_file]
    rfl
  have honest : Honest .absent (fun _ : Machine Unit => True) v.file.source [3, 3] := by
    rw [hsource]
    exact honest_memory _ _ _
  obtain ⟨m₂, hread, -⟩ := back.readFile hpatch honest rfl hsize (m := m₁) trivial
  exact ⟨d, m₁, m₂, b, v, first, hbuild, hnewest, hv, hsource, hread⟩

/-- The last file with the component is another one, and it is not served. -/
theorem crossedFiles_hide_last :
    (∃ (c : Catalog) (m : Machine Unit),
      (Catalog.registerAll .opaqueFiles {} crossedFiles).runFrom .empty { world := () } =
        ((.ok (), c), m) ∧ c.finish = .ok crossedSet) ∧
    (∃ (d : VirtualDisk) (m : Machine Unit),
      (VirtualDisk.build crossedSet).runOn { world := () } = (.ok d, m)) ∧
    usedClusters crossedSet ≤ maxClusters ∧
    (filesUnder "x.txt" crossedFiles).getLast? = some ("a/x.txt", .memory [4, 4, 4]) ∧
    ∀ v ∈ (visibleFiles crossedSet).1, Text.sameName v.file.baseName "x.txt" = true →
      v.file.source = .memory [3, 3] :=
  ⟨finish_crossedFiles, build_crossedSet, usedClusters_crossedSet, by decide,
    by decide⟩

end BootVolume.Image
