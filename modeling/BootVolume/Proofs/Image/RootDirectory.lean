import BootVolume.Proofs.Image.Arrangement

/-!
# The root directory

The bytes of the root directory in terms of the visible files: first the slots
that every volume has, then those of each visible file under its stored name,
and last those of the other name of the boot target.  They take up exactly the
slots that were counted when clusters were reserved for the directory.
-/

namespace BootVolume.Image

open Fat Files

/-- The slots of a visible file whose first cluster is `first`. -/
def Visible.slots (first : UInt32) (v : Visible) : Bytes :=
  v.stored.encode Arrangement.fileAttributes first (UInt32.ofNat v.file.length)

/-- The slots at the start of the root directory: the label, and the directories, of which
all but `\EFI` are the root itself. -/
def directoryHead (firmware : UInt32) : Bytes :=
  DirectoryEntry.encode { short := volumeLabel, attributes := attrVolume, cluster := 0, size := 0 } ++
    (Arrangement.directorySlot bootDirectory rootCluster ++
      Arrangement.directorySlot sourcesDirectory rootCluster) ++
    Arrangement.directorySlot firmwareDirectory firmware

/-- The slots under which the boot target is also shown, if it is. -/
def aliasSlots (stored : Option StoredName) (first : UInt32) (file : FileEntry) : Bytes :=
  match stored with
  | some stored => stored.encode Arrangement.fileAttributes first (UInt32.ofNat file.length)
  | none => []

theorem rootDirectory_eq_append (a : Arrangement) (set : FileSet) :
    a.rootDirectory set = directoryHead a.firmwareCluster ++
      (a.placements.flatMap Arrangement.fileSlots ++
        aliasSlots a.bootAlias a.bootCluster set.bootTarget) := by
  have halias : a.aliasSlots set = aliasSlots a.bootAlias a.bootCluster set.bootTarget := rfl
  rw [← halias]
  simp only [Arrangement.rootDirectory, directoryHead, rootAliases, List.flatMap_cons,
    List.flatMap_nil, List.append_nil, List.append_assoc]

namespace Arranged

variable {set : FileSet} {a : Arrangement}

theorem flatMap_fileSlots (arranged : Arranged set a) :
    a.placements.flatMap Arrangement.fileSlots =
      (visibleFiles set).1.flatMap fun v => v.slots (a.firstCluster v.index) := by
  -- The slots of a placement follow from what it places.
  let slotsOf (e : Nat × FileEntry × Option StoredName) : Bytes :=
    (e.2.2.map fun stored => stored.encode Arrangement.fileAttributes (a.firstCluster e.1)
      (UInt32.ofNat e.2.1.length)).getD []
  have hslots : ∀ p ∈ a.placements, Arrangement.fileSlots p = slotsOf p.entry := by
    intro p hp
    simp only [slotsOf, Placement.entry, arranged.firstCluster_of_mem hp, Arrangement.fileSlots]
    cases p.stored <;> rfl
  calc a.placements.flatMap Arrangement.fileSlots
      = (a.placements.map Placement.entry).flatMap slotsOf := by
        rw [List.flatMap_map]
        exact List.flatMap_congr hslots
    _ = (placedEntries set).flatMap slotsOf := by rw [arranged.placed]
    _ = (visibleFiles set).1.flatMap fun v => v.slots (a.firstCluster v.index) := by
        rw [placedEntries, List.flatMap_append, List.flatMap_map]
        split <;> simp [slotsOf, Visible.slots]

theorem length_flatMap_slots {shown : List Visible}
    (hnames : ∀ v ∈ shown, v.stored.short.length = 11) (first : Visible → UInt32) :
    (shown.flatMap fun v => v.slots (first v)).length =
      slotSize * Arrangement.fileSlotCount shown := by
  induction shown with
  | nil => rfl
  | cons v rest ih =>
      rw [List.flatMap_cons, List.length_append, ih fun w hw => hnames w (List.mem_cons_of_mem _ hw),
        Visible.slots, StoredName.length_encode (hnames v (List.mem_cons_self ..)),
        Arrangement.fileSlotCount, Nat.mul_add]

/-- The slots of the visible files, and those of the boot target's other name. -/
theorem rootDirectory_eq (arranged : Arranged set a) :
    a.rootDirectory set =
      directoryHead a.firmwareCluster ++
        ((visibleFiles set).1.flatMap fun v => v.slots (a.firstCluster v.index)) ++
        aliasSlots (bootAlias? set.boot (visibleFiles set).1) (a.firstCluster set.boot)
          set.bootTarget := by
  rw [arranged.firstCluster_boot, ← arranged.bootAlias, ← arranged.flatMap_fileSlots,
    rootDirectory_eq_append, List.append_assoc]

theorem length_directoryHead (firmware : UInt32) :
    (directoryHead firmware).length = slotSize * 4 := by
  have hslot : ∀ (attributes : UInt8) (cluster : UInt32) (short : Bytes), short.length = 11 →
      (DirectoryEntry.encode { short, attributes, cluster, size := 0 }).length = slotSize :=
    fun _ _ _ h => DirectoryEntry.length_encode _ h
  unfold directoryHead Arrangement.directorySlot
  rw [List.length_append, List.length_append, List.length_append, hslot _ _ _ (by decide),
    hslot _ _ _ (by decide), hslot _ _ _ (by decide), hslot _ _ _ (by decide)]
  rfl

theorem length_aliasSlots (boot : Nat) (shown : List Visible) (first : UInt32)
    (file : FileEntry) :
    (aliasSlots (bootAlias? boot shown) first file).length =
      slotSize * ((bootAlias? boot shown).map StoredName.slots).getD 0 := by
  cases halias : bootAlias? boot shown with
  | none => rfl
  | some stored =>
      have hstored := storedName?_of_bootAlias? halias
      exact StoredName.length_encode (length_short_of_storedName? hstored) _ _ _

/-- The root directory is as long as was estimated when its clusters were reserved. -/
theorem length_rootDirectory (arranged : Arranged set a) :
    (a.rootDirectory set).length = slotSize *
      Arrangement.rootSlots (visibleFiles set).1 (bootAlias? set.boot (visibleFiles set).1) := by
  have hnames : ∀ v ∈ (visibleFiles set).1, v.stored.short.length = 11 := fun v hv =>
    length_short_of_storedName? (accept_eq_ok_iff.mp ((shows_visibleFiles set).accepted v hv)).1
  rw [arranged.rootDirectory_eq, List.length_append, List.length_append, length_directoryHead,
    length_flatMap_slots hnames, length_aliasSlots, ← Nat.mul_add, ← Nat.mul_add]
  rfl

theorem length_padDirectory (arranged : Arranged set a) :
    (padDirectory (a.rootDirectory set) clusterSize).length =
      a.rootClusters.toNat * clusterSize := by
  rw [padDirectory, Bytes.length_fit, arranged.length_rootDirectory, arranged.rootClusters,
    rootDirectoryClusters, ceilDiv]
  unfold clusterSize slotSize Arrangement.rootSlots
  omega

end Arranged

theorem padDirectory_eq_append (data : Bytes) :
    ∃ padding, padDirectory data clusterSize = data ++ Bytes.zeros padding := by
  have hroom : data.length ≤ (max data.length 1 + clusterSize - 1) / clusterSize * clusterSize := by
    unfold clusterSize
    omega
  exact ⟨_, congrArg (· ++ _) (List.take_of_length_le hroom)⟩

theorem length_firmwareDirectorySlots (a : Arrangement) :
    a.firmwareDirectorySlots.length = 96 := by
  have hslot : ∀ (cluster : UInt32) (short : Bytes), short.length = 11 →
      (Arrangement.directorySlot short cluster).length = slotSize :=
    fun _ _ h => DirectoryEntry.length_encode _ h
  rw [Arrangement.firmwareDirectorySlots, List.length_append, List.length_append,
    hslot _ _ (by decide), hslot _ _ (by decide), hslot _ _ (by decide)]
  rfl

theorem length_padDirectory_firmware (a : Arrangement) :
    (padDirectory a.firmwareDirectorySlots clusterSize).length = 1 * clusterSize := by
  rw [padDirectory, Bytes.length_fit, length_firmwareDirectorySlots]
  rfl

end BootVolume.Image
