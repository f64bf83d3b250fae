import BootVolume.Proofs.Fat.Listing
import BootVolume.Proofs.Image.ReadBack

/-!
# What the directories list

A driver that lists the root directory of a built disk finds the label, the
directories, then the visible files in their order, and last the boot target
under its other name.  The directory `\EFI` leads back to the root by the name
`BOOT`.
-/

namespace BootVolume.Image

open Fat Files

/-! ## Entries -/

/-- What is listed for a directory. -/
def directoryItem (short : Bytes) (cluster : UInt32) : Listed where
  name := shownShort short 0
  short
  isLong := false
  attributes := attrDirectory
  cluster := cluster.toNat
  size := 0

/-- What is listed for a file under a stored name. -/
def fileItem (stored : StoredName) (first : UInt32) (file : FileEntry) : Listed where
  name := stored.shown
  short := stored.short
  isLong := stored.long.isSome
  attributes := Arrangement.fileAttributes
  cluster := first.toNat
  size := (UInt32.ofNat file.length).toNat

/-- What is listed for a file under a stored name, whether it has a zero in it or not. -/
def listedItem (stored : StoredName) (first : UInt32) (file : FileEntry) : Listed :=
  { fileItem stored first file with name := stored.listed }

theorem listedItem_eq {name : String} {stored : StoredName} (h : storedName? name = some stored)
    (hnul : '\x00' ∉ name.toList) (first : UInt32) (file : FileEntry) :
    listedItem stored first file = fileItem stored first file := by
  rw [listedItem, StoredName.listed_eq_shown h hnul]
  rfl

/-- What is listed for the label of the volume. -/
def labelItem : Listed where
  name := shownShort volumeLabel 0
  short := volumeLabel
  isLong := false
  attributes := attrVolume
  cluster := 0
  size := 0

theorem listing_eq (data : Bytes) : listing data = listSlots [] (slotsIn data) := rfl

/-- Zeros end a directory. -/
theorem listSlots_zeros (padding : Nat) : listSlots [] (slotsIn (Bytes.zeros padding)) = [] := by
  cases hslots : slotsIn (Bytes.zeros padding) with
  | nil => rfl
  | cons slot rest =>
      have hmem : slot ∈ slotsIn (Bytes.zeros padding) := hslots ▸ List.mem_cons_self ..
      obtain ⟨i, -, rfl⟩ := List.mem_map.mp hmem
      rw [listSlots, if_pos]
      rw [slotByte, Bytes.slice_zeros, List.getD_eq_getElem?_getD, Bytes.getElem?_zeros]
      split <;> rfl

section Slots

variable (rest : List Bytes)

theorem listSlots_entry (e : DirectoryEntry) (hshort : e.short.length = 11)
    (hfirst : e.short.headD 0 ≠ 0) (hattributes : e.attributes ≠ attrLongName) :
    listSlots [] (slotsIn e.encode ++ rest) =
      { name := shownShort e.short e.caseFlags
        short := e.short
        isLong := false
        attributes := e.attributes
        cluster := e.cluster.toNat
        size := e.size.toNat } :: listSlots [] rest := by
  rw [slotsIn_slot (DirectoryEntry.length_encode e hshort), List.cons_append, List.nil_append,
    listSlots_encode_cons e hshort hfirst hattributes, ofSlot_encode e hshort]
  rfl

theorem listSlots_directorySlot {short : Bytes} (cluster : UInt32) (hshort : short.length = 11)
    (hfirst : short.headD 0 ≠ 0) :
    listSlots [] (slotsIn (Arrangement.directorySlot short cluster) ++ rest) =
      directoryItem short cluster :: listSlots [] rest :=
  listSlots_entry rest { short, attributes := attrDirectory, cluster, size := 0 } hshort hfirst
    (show attrDirectory ≠ attrLongName by decide)

theorem length_directorySlot (short : Bytes) (cluster : UInt32) (hshort : short.length = 11) :
    (Arrangement.directorySlot short cluster).length = slotSize :=
  DirectoryEntry.length_encode _ hshort

theorem listSlots_directoryHead (firmware : UInt32) :
    listSlots [] (slotsIn (directoryHead firmware) ++ rest) =
      labelItem :: directoryItem bootDirectory rootCluster ::
        directoryItem sourcesDirectory rootCluster :: directoryItem firmwareDirectory firmware ::
          listSlots [] rest := by
  have hlabel : volumeLabel.length = 11 := rfl
  have hboot := length_directorySlot bootDirectory rootCluster (by decide)
  have hsources := length_directorySlot sourcesDirectory rootCluster (by decide)
  have hlabelSlot :
      (DirectoryEntry.encode ⟨volumeLabel, attrVolume, 0, 0, 0⟩).length = slotSize :=
    DirectoryEntry.length_encode _ hlabel
  unfold directoryHead
  rw [slotsIn_append _ _ (by simp only [List.length_append, hlabelSlot, hboot, hsources]; decide),
    slotsIn_append _ _ (by rw [hlabelSlot]; decide), slotsIn_append _ _ (by rw [hboot]; decide)]
  simp only [List.append_assoc]
  rw [listSlots_entry _ _ hlabel (by decide) (by decide),
    listSlots_directorySlot _ _ (by decide) (by decide),
    listSlots_directorySlot _ _ (by decide) (by decide),
    listSlots_directorySlot _ _ (by decide) (by decide)]
  rfl

/-- The visible files are listed in their order. -/
theorem listSlots_visible {shown : List Visible} (first : Visible → UInt32)
    (hstored : ∀ v ∈ shown, storedName? v.file.baseName = some v.stored) :
    listSlots [] (slotsIn (shown.flatMap fun v => v.slots (first v)) ++ rest) =
      (shown.map fun v => listedItem v.stored (first v) v.file) ++ listSlots [] rest := by
  induction shown with
  | nil => simp [slotsIn]
  | cons v others ih =>
      have hv := hstored v (List.mem_cons_self ..)
      have hlength : (v.slots (first v)).length = slotSize * v.stored.slots :=
        StoredName.length_encode (length_short_of_storedName? hv) _ _ _
      rw [List.flatMap_cons, slotsIn_append _ _ (by rw [hlength, Nat.mul_mod_right]),
        List.append_assoc, Visible.slots,
        listSlots_encode hv (by decide), ih fun w hw => hstored w (List.mem_cons_of_mem _ hw)]
      rfl

end Slots

/-- What is listed for the boot target under its other name. -/
def aliasItems (stored : Option StoredName) (first : UInt32) (file : FileEntry) : List Listed :=
  (stored.map fun stored => fileItem stored first file).toList

theorem listSlots_alias (boot : Nat) (shown : List Visible) (first : UInt32) (file : FileEntry)
    (rest : List Bytes) :
    listSlots [] (slotsIn (aliasSlots (bootAlias? boot shown) first file) ++ rest) =
      aliasItems (bootAlias? boot shown) first file ++ listSlots [] rest := by
  cases halias : bootAlias? boot shown with
  | none => simp [aliasSlots, aliasItems, slotsIn]
  | some stored =>
      have hstored := storedName?_of_bootAlias? halias
      have hitem : aliasItems (some stored) first file = [listedItem stored first file] :=
        congrArg ([·]) (listedItem_eq hstored (by decide) first file).symm
      rw [hitem]
      exact listSlots_encode hstored (by decide) _ _ _

namespace Arranged

variable {set : FileSet} {a : Arrangement}

/-- What is listed in the root directory. -/
theorem listing_rootDirectory (arranged : Arranged set a) :
    listing (padDirectory (a.rootDirectory set) clusterSize) =
      labelItem :: directoryItem bootDirectory rootCluster ::
        directoryItem sourcesDirectory rootCluster ::
        directoryItem firmwareDirectory a.firmwareCluster ::
        ((visibleFiles set).1.map fun v => listedItem v.stored (a.firstCluster v.index) v.file) ++
        aliasItems (bootAlias? set.boot (visibleFiles set).1) (a.firstCluster set.boot)
          set.bootTarget := by
  have hstored : ∀ v ∈ (visibleFiles set).1, storedName? v.file.baseName = some v.stored :=
    fun v hv => (accept_eq_ok_iff.mp ((shows_visibleFiles set).accepted v hv)).1
  have hnames : ∀ v ∈ (visibleFiles set).1, v.stored.short.length = 11 := fun v hv =>
    length_short_of_storedName? (hstored v hv)
  obtain ⟨padding, hpadding⟩ := padDirectory_eq_append (a.rootDirectory set)
  have hlength := arranged.length_rootDirectory
  have hfiles := length_flatMap_slots hnames fun v => a.firstCluster v.index
  rw [hpadding, listing_eq, slotsIn_append _ _ (by rw [hlength, Nat.mul_mod_right]),
    arranged.rootDirectory_eq, slotsIn_append _ _ (by
      rw [List.length_append, length_directoryHead, hfiles, ← Nat.mul_add, Nat.mul_mod_right]),
    slotsIn_append _ _ (by rw [length_directoryHead, Nat.mul_mod_right])]
  simp only [List.append_assoc]
  rw [listSlots_directoryHead, listSlots_visible _ _ hstored, listSlots_alias,
    listSlots_zeros, List.append_nil]
  simp only [List.cons_append]

end Arranged

/-- What is listed in the directory `\EFI`. -/
theorem listing_firmwareDirectory (a : Arrangement) :
    listing (padDirectory a.firmwareDirectorySlots clusterSize) =
      [directoryItem (Bytes.ascii ".          ") a.firmwareCluster,
        directoryItem (Bytes.ascii "..         ") 0, directoryItem bootDirectory rootCluster] := by
  obtain ⟨padding, hpadding⟩ := padDirectory_eq_append a.firmwareDirectorySlots
  have hself := length_directorySlot (Bytes.ascii ".          ") a.firmwareCluster
    (by decide)
  have hparent := length_directorySlot (Bytes.ascii "..         ") 0 (by decide)
  rw [hpadding, listing_eq,
    slotsIn_append _ _ (by rw [length_firmwareDirectorySlots]; decide),
    Arrangement.firmwareDirectorySlots,
    slotsIn_append _ _ (by rw [List.length_append, hself, hparent]; decide),
    slotsIn_append _ _ (by rw [hself]; decide)]
  simp only [List.append_assoc]
  rw [listSlots_directorySlot _ _ (by decide) (by decide),
    listSlots_directorySlot _ _ (by decide) (by decide),
    listSlots_directorySlot _ _ (by decide) (by decide), listSlots_zeros]

/-! ## Directories of a built disk -/

namespace Built

variable {σ : Type} {set : FileSet} {d : VirtualDisk} {b : ParameterBlock}

theorem directory_root (built : Built set d) (describes : b.Describes d.geometry)
    (storage : Storage σ) :
    (d.volume storage b).directory b.rootCluster = pure
      (labelItem :: directoryItem bootDirectory rootCluster ::
        directoryItem sourcesDirectory rootCluster ::
        directoryItem firmwareDirectory d.arrangement.firmwareCluster ::
        ((visibleFiles set).1.map fun v =>
          listedItem v.stored (d.arrangement.firstCluster v.index) v.file) ++
        aliasItems (bootAlias? set.boot (visibleFiles set).1)
          (d.arrangement.firstCluster set.boot) set.bootTarget) := by
  obtain ⟨hchain, hread⟩ := built.rootDirectory_read describes storage
  rw [Mounted.directory_eq hchain hread, built.arranged.listing_rootDirectory]

theorem directory_firmware (built : Built set d) (describes : b.Describes d.geometry)
    (storage : Storage σ) :
    (d.volume storage b).directory d.arrangement.firmwareCluster.toNat = pure
      [directoryItem (Bytes.ascii ".          ") d.arrangement.firmwareCluster,
        directoryItem (Bytes.ascii "..         ") 0, directoryItem bootDirectory rootCluster] := by
  have hnext := built.arranged.firmwareCluster_toNat
  have hplace : clusterOffset d.geometry d.arrangement.firmwareCluster =
      clusterPlace d.geometry d.arrangement.firmwareCluster.toNat :=
    clusterOffset_eq built.exact (by omega) (by
      have := built.arranged.firmwareCluster_lt
      have := built.next_le
      omega)
  have hmem : bytesRegion (clusterPlace d.geometry d.arrangement.firmwareCluster.toNat)
      (padDirectory d.arrangement.firmwareDirectorySlots clusterSize) ∈ d.regions := by
    rw [built.regions, ← hplace]
    exact List.mem_append_left _ (List.mem_append_right _
      (List.mem_cons_of_mem _ (List.mem_cons_self ..)))
  have hchain := built.chain_eq describes storage (List.mem_cons_of_mem _ (List.mem_cons_self ..))
  have hread := built.readClusters_directory describes storage
    d.arrangement.firmwareCluster.toNat 1 (by omega) (by omega)
    (length_padDirectory_firmware d.arrangement) hmem
  rw [Mounted.directory_eq hchain hread, listing_firmwareDirectory]

end Built

end BootVolume.Image
