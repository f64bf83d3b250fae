import BootVolume.Proofs.Fat.AlikeNames
import BootVolume.Proofs.Image.BootPath

/-!
# The names in the root directory

A built disk lays down a root directory with the label, three directories, and
an entry for every name of `rootNames`: the last components of the names of the
visible files, and the name by which the boot target is also shown.  No two of
these names are the same up to the case of letters, and none is stored under the
short name of a directory.

Nothing here depends on where the files stand, so it holds of every disk that is
built, also of one whose cluster numbers wrap.
-/

namespace BootVolume.Fat

/-- Whether the entry is a file. -/
def Listed.isFile (item : Listed) : Bool := !item.isLabel && !item.isDirectory

/-- The entry is listed as a file of the given name is. -/
def Listed.StandsFor (item : Listed) (name : String) : Prop :=
  ∃ n, storedName? name = some n ∧ item.name = n.listed ∧ item.short = n.short ∧
    item.isLong = n.long.isSome

end BootVolume.Fat

namespace BootVolume.Image

open Fat Files

variable {σ : Type} {set : FileSet}

/-- The names of the files in the root directory, in its order. -/
def rootNames (set : FileSet) : List String :=
  (visibleFiles set).1.map (fun v => v.file.baseName) ++
    if Arrangement.bootNameShown set.boot (visibleFiles set).1 then [] else [bootName]

/-- What the root directory of a disk lists. -/
def VirtualDisk.rootListing (d : VirtualDisk) : List Listed :=
  listing (padDirectory (d.arrangement.rootDirectory d.files) clusterSize)

/-- The files among the entries of the root directory. -/
def VirtualDisk.rootFiles (d : VirtualDisk) : List Listed := d.rootListing.filter Listed.isFile

/-! ## Names of a set -/

/-- The names are stored, and not under the short name of a directory. -/
theorem stored_of_mem_rootNames {name : String} (h : name ∈ rootNames set) :
    ∃ n, storedName? name = some n ∧ isReserved n.short = false ∧
      (name = bootName ∨ ∃ file ∈ set.files, file.baseName = name) := by
  rcases List.mem_append.mp h with h | h
  · obtain ⟨v, hv, rfl⟩ := List.mem_map.mp h
    have shows := shows_visibleFiles set
    obtain ⟨hstored, hfree, -⟩ := accept_eq_ok_iff.mp (shows.accepted v hv)
    exact ⟨v.stored, hstored, hfree,
      Or.inr ⟨v.file, List.mem_of_getElem? (shows.at_index v hv), rfl⟩⟩
  · have hname : name = bootName := by
      split at h
      · cases h
      · exact List.mem_singleton.mp h
    have hboot : (storedName? bootName).any (fun n => !isReserved n.short) = true := by
      decide
    obtain ⟨n, hn, hfree⟩ := (Option.any_eq_true _ _).mp hboot
    exact ⟨n, hname ▸ hn, by simpa using hfree, Or.inl hname⟩

/-- A file that may be shown has its name, up to the case of letters, in the directory. -/
theorem exists_mem_rootNames {i : Nat} {file : FileEntry} {stored : StoredName}
    (hfile : set.files[i]? = some file) (haccept : accept set.boot i file = .ok stored) :
    ∃ name ∈ rootNames set, Text.sameName name file.baseName = true := by
  obtain ⟨v, hv, hkey, -⟩ := (shows_visibleFiles set).covered i file stored hfile haccept
  refine ⟨v.file.baseName, List.mem_append_left _ (List.mem_map_of_mem hv), ?_⟩
  exact (Text.sameName_iff _ _).mpr hkey

theorem rootNames_distinct (set : FileSet) :
    (rootNames set).Pairwise fun a b => Text.sameName a b = false := by
  have hfolded : ((rootNames set).map Text.fold).Nodup := by
    have hkeys : ((visibleFiles set).1.map fun v => v.file.baseName).map Text.fold =
        (visibleFiles set).1.map Visible.key := by
      rw [List.map_map]
      exact List.map_congr_left fun v _ => by rw [Function.comp_apply, Visible.key]
    rw [rootNames, List.map_append, hkeys]
    split
    · rw [List.map_nil, List.append_nil]
      exact (shows_visibleFiles set).distinct
    · rename_i hshown
      refine List.nodup_append.mpr
        ⟨(shows_visibleFiles set).distinct, List.nodup_singleton _, ?_⟩
      intro key hkey other hother
      rw [List.map_singleton, List.mem_singleton] at hother
      obtain ⟨v, hv, rfl⟩ := List.mem_map.mp hkey
      rw [hother]
      intro hsame
      -- Under the name of the boot target only the boot target itself is shown.
      have hname : Text.sameName v.file.baseName bootName = true :=
        (Text.sameName_iff _ _).mpr hsame
      have hindex : v.index = set.boot := by
        by_contra hne
        have haccepted := (shows_visibleFiles set).accepted v hv
        exact (accept_eq_ok_iff.mp haccepted).2.2 ⟨hne, hname⟩
      apply hshown
      rw [Arrangement.bootNameShown, List.any_eq_true]
      exact ⟨v, hv, by rw [hindex, hname, beq_self_eq_true, Bool.and_self]⟩
  refine (List.pairwise_map.mp hfolded).imp fun hne => ?_
  rw [← Bool.not_eq_true, Text.sameName_iff]
  exact hne

theorem nul_not_mem_of_mem_rootNames (hnul : ∀ file ∈ set.files, '\x00' ∉ file.name.toList)
    {name : String} (h : name ∈ rootNames set) : '\x00' ∉ name.toList := by
  obtain ⟨-, -, -, rfl | ⟨file, hfile, rfl⟩⟩ := stored_of_mem_rootNames h
  · decide
  · exact not_mem_baseName (hnul file hfile)

theorem getLast?_of_mem_rootNames
    (hdot : ∀ file ∈ set.files, file.baseName.toList.getLast? ≠ some '.')
    {name : String} (h : name ∈ rootNames set) : name.toList.getLast? ≠ some '.' := by
  obtain ⟨-, -, -, rfl | ⟨file, hfile, rfl⟩⟩ := stored_of_mem_rootNames h
  · decide
  · exact hdot file hfile

/-! ## Entries of placed files -/

/-- What is listed for a placed file, if it is shown. -/
def Placement.item? (p : Placement) : Option Listed :=
  p.stored.map fun n => listedItem n p.first p.file

theorem length_fileSlots_mod {p : Placement}
    (h : ∀ n ∈ p.stored, ∃ name, storedName? name = some n) :
    (Arrangement.fileSlots p).length % slotSize = 0 := by
  unfold Arrangement.fileSlots
  cases hstored : p.stored with
  | none => rfl
  | some n =>
      obtain ⟨name, hname⟩ := h n hstored
      rw [StoredName.length_encode (length_short_of_storedName? hname), Nat.mul_mod_right]

theorem length_flatMap_fileSlots_mod {placements : List Placement}
    (h : ∀ p ∈ placements, ∀ n ∈ p.stored, ∃ name, storedName? name = some n) :
    (placements.flatMap Arrangement.fileSlots).length % slotSize = 0 := by
  induction placements with
  | nil => rfl
  | cons p rest ih =>
      rw [List.flatMap_cons, List.length_append, Nat.add_mod,
        length_fileSlots_mod (h p (List.mem_cons_self ..)),
        ih fun q hq => h q (List.mem_cons_of_mem _ hq)]
      rfl

theorem listSlots_fileSlots {placements : List Placement}
    (h : ∀ p ∈ placements, ∀ n ∈ p.stored, ∃ name, storedName? name = some n)
    (rest : List Bytes) :
    listSlots [] (slotsIn (placements.flatMap Arrangement.fileSlots) ++ rest) =
      placements.filterMap Placement.item? ++ listSlots [] rest := by
  induction placements with
  | nil => simp [slotsIn]
  | cons p others ih =>
      have hp := h p (List.mem_cons_self ..)
      have ih := ih fun q hq => h q (List.mem_cons_of_mem _ hq)
      rw [List.flatMap_cons, slotsIn_append _ _ (length_fileSlots_mod hp), List.append_assoc]
      cases hstored : p.stored with
      | none =>
          have hslots : Arrangement.fileSlots p = [] := by rw [Arrangement.fileSlots, hstored]
          have hitem : p.item? = none := by rw [Placement.item?, hstored]; rfl
          rw [hslots, List.filterMap_cons_none hitem]
          exact ih
      | some n =>
          obtain ⟨name, hname⟩ := hp n hstored
          have hslots : Arrangement.fileSlots p =
              n.encode Arrangement.fileAttributes p.first p.size := by
            rw [Arrangement.fileSlots, hstored]
          have hitem : p.item? = some (listedItem n p.first p.file) := by
            rw [Placement.item?, hstored]
            rfl
          rw [hslots, listSlots_encode hname (by decide), ih, List.filterMap_cons_some hitem]
          rfl

theorem standsFor_listedItem {name : String} {n : StoredName} (h : storedName? name = some n)
    (first : UInt32) (file : FileEntry) : (listedItem n first file).StandsFor name :=
  ⟨n, h, rfl, rfl, rfl⟩

theorem isFile_directoryItem (short : Bytes) (cluster : UInt32) :
    (directoryItem short cluster).isFile = false := by
  show (!(attrDirectory &&& attrVolume != 0) && !(attrDirectory &&& attrDirectory != 0)) = false
  decide

theorem isFile_listedItem (n : StoredName) (first : UInt32) (file : FileEntry) :
    (listedItem n first file).isFile = true := by
  show (!(Arrangement.fileAttributes &&& attrVolume != 0) &&
    !(Arrangement.fileAttributes &&& attrDirectory != 0)) = true
  decide

/-- Visible files are listed in their order, wherever they are placed. -/
theorem forall₂_items_placeFrom (next : UInt32) {shown : List Visible}
    (hstored : ∀ v ∈ shown, storedName? v.file.baseName = some v.stored) :
    List.Forall₂ (fun name item => Listed.StandsFor item name ∧ item.isFile = true)
      (shown.map fun v => v.file.baseName)
      ((placeFrom next shown).1.filterMap Placement.item?) := by
  induction shown generalizing next with
  | nil => exact .nil
  | cons v rest ih =>
      have hitem : (placeAt next v.index v.file (some v.stored)).item? =
          some (listedItem v.stored (placeAt next v.index v.file (some v.stored)).first v.file) :=
        rfl
      rw [placeFrom_cons, List.filterMap_cons_some hitem]
      exact .cons
        ⟨standsFor_listedItem (hstored v (List.mem_cons_self ..)) _ _, isFile_listedItem ..⟩
        (ih _ fun w hw => hstored w (List.mem_cons_of_mem _ hw))

/-- A boot target that is placed behind the visible files is not listed. -/
theorem filterMap_item?_make (set : FileSet) (shown : List Visible) :
    (Arrangement.make set shown).placements.filterMap Placement.item? =
      (placeShown set.boot shown).1.filterMap Placement.item? := by
  cases hfind : (placeShown set.boot shown).1.find? (·.index == set.boot) with
  | some boot => rw [make_of_some hfind]
  | none =>
      rw [make_of_none hfind, List.filterMap_append]
      exact List.append_nil _

theorem bootAlias_make (set : FileSet) (shown : List Visible) :
    (Arrangement.make set shown).bootAlias = bootAlias? set.boot shown := by
  cases hfind : (placeShown set.boot shown).1.find? (·.index == set.boot) with
  | some boot => rw [make_of_some hfind]
  | none => rw [make_of_none hfind]

/-- A name that is placed was stored for some name. -/
theorem exists_storedName?_of_make {p : Placement}
    (hp : p ∈ (Arrangement.make set (visibleFiles set).1).placements) {n : StoredName}
    (hn : n ∈ p.stored) : ∃ name, storedName? name = some n := by
  have hshown : ∀ p ∈ (placeShown set.boot (visibleFiles set).1).1, ∀ n ∈ p.stored,
      ∃ name, storedName? name = some n := by
    intro p hp n hn
    have hentry := List.mem_map_of_mem (f := Placement.entry) hp
    rw [placeShown, placeFrom_map] at hentry
    obtain ⟨v, hv, heq⟩ := List.mem_map.mp hentry
    have hstored : some v.stored = p.stored := congrArg (fun e => e.2.2) heq
    rw [← hstored, Option.mem_some] at hn
    exact ⟨_, hn ▸ (accept_eq_ok_iff.mp ((shows_visibleFiles set).accepted v hv)).1⟩
  cases hfind : (placeShown set.boot (visibleFiles set).1).1.find? (·.index == set.boot) with
  | some boot =>
      rw [make_of_some hfind] at hp
      exact hshown p hp n hn
  | none =>
      rw [make_of_none hfind] at hp
      rcases List.mem_append.mp hp with hp | hp
      · exact hshown p hp n hn
      · rw [List.mem_singleton.mp hp] at hn
        cases hn

/-! ## The whole directory -/

/-- What the root directory lists, wherever the files are placed. -/
theorem listing_rootDirectory_make (set : FileSet) :
    let a := Arrangement.make set (visibleFiles set).1
    listing (padDirectory (a.rootDirectory set) clusterSize) =
      labelItem :: directoryItem bootDirectory rootCluster ::
        directoryItem sourcesDirectory rootCluster ::
        directoryItem firmwareDirectory a.firmwareCluster ::
        (a.placements.filterMap Placement.item? ++
          aliasItems (bootAlias? set.boot (visibleFiles set).1) a.bootCluster set.bootTarget) := by
  intro a
  have hstored : ∀ p ∈ a.placements, ∀ n ∈ p.stored, ∃ name, storedName? name = some n :=
    fun p hp n hn => exists_storedName?_of_make hp hn
  have hhead : (directoryHead a.firmwareCluster).length % slotSize = 0 := by
    rw [Arranged.length_directoryHead, Nat.mul_mod_right]
  have hfiles := length_flatMap_fileSlots_mod hstored
  have halias : (aliasSlots (bootAlias? set.boot (visibleFiles set).1) a.bootCluster
      set.bootTarget).length % slotSize = 0 := by
    rw [Arranged.length_aliasSlots, Nat.mul_mod_right]
  obtain ⟨padding, hpadding⟩ := padDirectory_eq_append (a.rootDirectory set)
  rw [hpadding, listing_eq, rootDirectory_eq_append, bootAlias_make,
    slotsIn_append _ _ (by
      unfold slotSize at hhead hfiles halias ⊢
      rw [List.length_append, List.length_append]
      omega),
    slotsIn_append _ _ hhead, slotsIn_append _ _ hfiles]
  simp only [List.append_assoc]
  rw [listSlots_directoryHead, listSlots_fileSlots hstored, listSlots_alias, listSlots_zeros,
    List.append_nil]

/-- The entries of the files stand for the names of the set, in their order. -/
theorem forall₂_items_make (set : FileSet) (first : UInt32) :
    List.Forall₂ (fun name item => Listed.StandsFor item name ∧ item.isFile = true)
      (rootNames set)
      ((Arrangement.make set (visibleFiles set).1).placements.filterMap Placement.item? ++
        aliasItems (bootAlias? set.boot (visibleFiles set).1) first set.bootTarget) := by
  refine List.rel_append ?_ ?_
  · rw [filterMap_item?_make]
    exact forall₂_items_placeFrom _ fun v hv =>
      (accept_eq_ok_iff.mp ((shows_visibleFiles set).accepted v hv)).1
  · unfold bootAlias?
    split
    · exact .nil
    · obtain ⟨n, hn⟩ : ∃ n, storedName? bootName = some n :=
        Option.isSome_iff_exists.mp (by decide)
      have hitem : aliasItems (some n) first set.bootTarget =
          [listedItem n first set.bootTarget] :=
        congrArg ([·]) (listedItem_eq hn (by decide) first set.bootTarget).symm
      rw [hn, hitem]
      exact .cons ⟨standsFor_listedItem hn _ _, isFile_listedItem ..⟩ .nil

/-- What the root directory of a built disk lists: the label, the directories, and an entry for
each name. -/
theorem rootListing_of_build {d : VirtualDisk} {m₀ m₁ : Machine σ}
    (hbuild : (VirtualDisk.build set).runOn m₀ = (.ok d, m₁)) :
    d.rootListing =
      labelItem :: directoryItem bootDirectory rootCluster ::
        directoryItem sourcesDirectory rootCluster ::
        directoryItem firmwareDirectory d.arrangement.firmwareCluster :: d.rootFiles ∧
      List.Forall₂ (fun name item => Listed.StandsFor item name) (rootNames set) d.rootFiles := by
  obtain ⟨-, rfl⟩ := eq_assemble_of_build hbuild
  have hlisting : (assemble set (visibleFiles set).1).rootListing = _ :=
    listing_rootDirectory_make set
  have hitems := forall₂_items_make set
    (Arrangement.make set (visibleFiles set).1).bootCluster
  generalize List.filterMap _ _ ++ _ = items at hlisting hitems
  have hfiles : (assemble set (visibleFiles set).1).rootFiles = items := by
    have hall : ∀ item ∈ items, item.isFile = true := by
      intro item hitem
      obtain ⟨i, hi, rfl⟩ := List.getElem_of_mem hitem
      exact ((List.forall₂_iff_get.mp hitems).2 i (hitems.length_eq ▸ hi) hi).2
    have hlabel : labelItem.isFile = false := by decide
    rw [VirtualDisk.rootFiles, hlisting]
    simp only [List.filter_cons, hlabel, isFile_directoryItem, Bool.false_eq_true, if_false,
      List.filter_eq_self.mpr hall]
  rw [hfiles]
  exact ⟨hlisting, hitems.imp fun _ _ h => h.1⟩

section Items

variable {d : VirtualDisk} {m₀ m₁ : Machine σ}

theorem exists_item (hbuild : (VirtualDisk.build set).runOn m₀ = (.ok d, m₁)) {name : String}
    (hname : name ∈ rootNames set) : ∃ item ∈ d.rootFiles, item.StandsFor name := by
  obtain ⟨-, hitems⟩ := rootListing_of_build hbuild
  obtain ⟨hlength, hget⟩ := List.forall₂_iff_get.mp hitems
  obtain ⟨i, hi, rfl⟩ := List.getElem_of_mem hname
  exact ⟨_, List.getElem_mem (hlength ▸ hi), hget i hi (hlength ▸ hi)⟩

theorem exists_name (hbuild : (VirtualDisk.build set).runOn m₀ = (.ok d, m₁)) {item : Listed}
    (hitem : item ∈ d.rootFiles) : ∃ name ∈ rootNames set, item.StandsFor name := by
  obtain ⟨-, hitems⟩ := rootListing_of_build hbuild
  obtain ⟨hlength, hget⟩ := List.forall₂_iff_get.mp hitems
  obtain ⟨i, hi, rfl⟩ := List.getElem_of_mem hitem
  exact ⟨_, List.getElem_mem (hlength ▸ hi), hget i (hlength ▸ hi) hi⟩

/-- The names and the short names that are listed, computed from the names of the set. -/
theorem map_rootFiles (hbuild : (VirtualDisk.build set).runOn m₀ = (.ok d, m₁)) :
    d.rootFiles.map (fun item => (item.name, item.short)) =
      (rootNames set).filterMap fun name =>
        (storedName? name).map fun n => (n.listed, n.short) := by
  obtain ⟨-, hitems⟩ := rootListing_of_build hbuild
  generalize rootNames set = names at hitems ⊢
  generalize d.rootFiles = items at hitems ⊢
  induction hitems with
  | nil => rfl
  | cons hitem _ ih =>
      obtain ⟨n, hn, hlisted, hshort, -⟩ := hitem
      rw [List.map_cons, ih, List.filterMap_cons_some (by rw [hn]; rfl), hlisted, hshort]

end Items

/-- A driver that mounts the partition finds these entries in the root directory. -/
def VirtualDisk.Lists (storage : Storage σ) (d : VirtualDisk) (items : List Listed) : Prop :=
  ∃ b : ParameterBlock,
    (BlockDevice.partition d).mount? storage = pure (some (d.volume storage b)) ∧
    (d.volume storage b).directory b.rootCluster = pure items

/-- The root directory that a driver finds is the one that was laid down. -/
theorem lists_rootListing {d : VirtualDisk} {m₀ m₁ : Machine σ}
    (hbuild : (VirtualDisk.build set).runOn m₀ = (.ok d, m₁))
    (hused : usedClusters set ≤ maxClusters) (storage : Storage σ) :
    d.Lists storage d.rootListing := by
  have built := built_of_build hbuild hused
  obtain ⟨b, describes, hmount⟩ := built.mount?_eq storage
  obtain ⟨hchain, hread⟩ := built.rootDirectory_read describes storage
  have hset : d.files = set := by
    rw [(eq_assemble_of_build hbuild).2]
    rfl
  refine ⟨b, hmount, ?_⟩
  rw [VirtualDisk.rootListing, hset]
  exact Mounted.directory_eq hchain hread

end BootVolume.Image
