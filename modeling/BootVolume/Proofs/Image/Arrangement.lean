import BootVolume.Image.Arrangement
import BootVolume.Proofs.Fat.Geometry
import BootVolume.Proofs.Fat.StoredName
import BootVolume.Proofs.Fat.Table
import BootVolume.Proofs.Image.Visible

/-!
# Where everything stands, without overflow

`usedClusters` is the number of clusters that a file set takes up, counted in
natural numbers.  As long as the number behind the last of them is a 32-bit
word, no cluster number of the arrangement wraps, and so the files stand one
behind the other (`Stand`): the chains fill the clusters from the first one on
(`Arranged.abut`), and the root directory is as long as was estimated for it
(`Arranged.length_rootDirectory`).
-/

namespace BootVolume.Image

open Fat Files

/-! ## What is placed -/

/-- What a placement places: a file of the set, and the name that it is shown under. -/
def Placement.entry (p : Placement) : Nat × FileEntry × Option StoredName :=
  (p.index, p.file, p.stored)

/-- What is placed for a set: the visible files in their order, and the boot target if it is
not one of them. -/
def placedEntries (set : FileSet) : List (Nat × FileEntry × Option StoredName) :=
  let shown := (visibleFiles set).1
  shown.map (fun v => (v.index, v.file, some v.stored)) ++
    if shown.any (·.index == set.boot) then [] else [(set.boot, set.bootTarget, none)]

/-! ## Counting clusters -/

/-- The clusters that the visible files take up. -/
def fileClusters (shown : List Visible) : Nat :=
  (shown.map fun v => ceilDiv v.file.length clusterSize).sum

/-- The name by which the boot target is also shown. -/
def bootAlias? (boot : Nat) (shown : List Visible) : Option StoredName :=
  if Arrangement.bootNameShown boot shown then none else storedName? bootName

/-- The clusters of the root directory. -/
def rootDirectoryClusters (boot : Nat) (shown : List Visible) : Nat :=
  max (ceilDiv (Arrangement.rootSlots shown (bootAlias? boot shown) * slotSize) clusterSize) 1

/-- The clusters of the boot target, if it is not among the visible files. -/
def hiddenClusters (set : FileSet) (shown : List Visible) : Nat :=
  if shown.any (·.index == set.boot) then 0 else ceilDiv set.bootTarget.length clusterSize

/-- The clusters that the directories and files of a set take up. -/
def usedClusters (set : FileSet) : Nat :=
  let shown := (visibleFiles set).1
  rootDirectoryClusters set.boot shown + 1 + fileClusters shown + hiddenClusters set shown

theorem storedName?_of_bootAlias? {boot : Nat} {shown : List Visible} {stored : StoredName}
    (h : bootAlias? boot shown = some stored) : storedName? bootName = some stored := by
  unfold bootAlias? at h
  split at h
  · cases h
  · exact h

/-! ## Files one behind the other -/

/-- A placement holds its file from a cluster on. -/
structure Placement.StandsAt (p : Placement) (cluster : Nat) : Prop where
  count : p.count.toNat = ceilDiv p.file.length clusterSize
  size : p.size.toNat = p.file.length
  first : p.first.toNat = if p.file.length = 0 then 0 else cluster

/-- Placements that stand one behind the other from one cluster up to another. -/
def Stand : (start : Nat) → List Placement → (stop : Nat) → Prop
  | start, [], stop => start = stop
  | start, p :: rest, stop =>
      p.StandsAt start ∧ Stand (start + ceilDiv p.file.length clusterSize) rest stop

namespace Stand

variable {start middle stop : Nat} {placements others : List Placement} {p : Placement}

theorem start_le_stop (h : Stand start placements stop) : start ≤ stop := by
  induction placements generalizing start with
  | nil => exact Nat.le_of_eq h
  | cons p rest ih => exact Nat.le_trans (Nat.le_add_right ..) (ih h.2)

theorem append (h : Stand start placements middle) (h' : Stand middle others stop) :
    Stand start (placements ++ others) stop := by
  induction placements generalizing start with
  | nil => exact h ▸ h'
  | cons p rest ih => exact ⟨h.1, ih h.2⟩

theorem split (h : Stand start placements stop) (hp : p ∈ placements) :
    ∃ before after cluster, placements = before ++ p :: after ∧ Stand start before cluster ∧
      p.StandsAt cluster ∧ Stand (cluster + ceilDiv p.file.length clusterSize) after stop := by
  induction placements generalizing start with
  | nil => cases hp
  | cons q rest ih =>
      rcases List.mem_cons.mp hp with rfl | hp
      · exact ⟨[], rest, start, rfl, rfl, h.1, h.2⟩
      · obtain ⟨before, after, cluster, rfl, hbefore, hstands, hafter⟩ := ih h.2 hp
        exact ⟨q :: before, after, cluster, rfl, ⟨h.1, hbefore⟩, hstands, hafter⟩

/-- Every placement stands between the two clusters. -/
theorem exists_standsAt (h : Stand start placements stop) (hp : p ∈ placements) :
    ∃ cluster, start ≤ cluster ∧ cluster + ceilDiv p.file.length clusterSize ≤ stop ∧
      p.StandsAt cluster := by
  obtain ⟨_, _, cluster, -, hbefore, hstands, hafter⟩ := h.split hp
  exact ⟨cluster, hbefore.start_le_stop, hafter.start_le_stop, hstands⟩

/-- Of two files that are not empty the one that stands behind starts in a later cluster. -/
theorem pairwise_first (h : Stand start placements stop) :
    placements.Pairwise fun p q =>
      p.file.length ≠ 0 → q.file.length ≠ 0 → p.first.toNat < q.first.toNat := by
  induction placements generalizing start with
  | nil => exact List.Pairwise.nil
  | cons p rest ih =>
      obtain ⟨hp, hrest⟩ := h
      refine List.pairwise_cons.mpr ⟨fun q hq hpne hqne => ?_, ih hrest⟩
      obtain ⟨cluster, hle, -, hstands⟩ := hrest.exists_standsAt hq
      have hpos := Nat.pos_of_ne_zero (mt ceilDiv_clusterSize_eq_zero.mp hpne)
      rw [hp.first, hstands.first, if_neg hpne, if_neg hqne]
      omega

end Stand

namespace Placement

variable {p : Placement} {cluster : Nat}

theorem StandsAt.chain?_of_empty (h : p.StandsAt cluster) (hempty : p.file.length = 0) :
    p.chain? = none := by
  have hcount := h.count
  rw [ceilDiv_clusterSize_eq_zero.mpr hempty] at hcount
  rw [chain?, if_pos (UInt32.toNat_inj.mp hcount)]

theorem StandsAt.chain?_of_nonempty (h : p.StandsAt cluster) (hlength : p.file.length ≠ 0) :
    p.chain? = some { first := p.first, count := p.count } := by
  have hcount := h.count
  have hpos := mt ceilDiv_clusterSize_eq_zero.mp hlength
  rw [chain?, if_neg fun hzero => hpos (by rw [← hcount, hzero]; rfl)]

end Placement

/-- The chains of placements that stand one behind the other abut. -/
theorem Stand.abut {start stop : Nat} {placements : List Placement}
    (h : Stand start placements stop) : Abut start (placements.filterMap Placement.chain?) stop := by
  induction placements generalizing start with
  | nil => exact h
  | cons p rest ih =>
      obtain ⟨hp, hrest⟩ := h
      by_cases hempty : p.file.length = 0
      · rw [List.filterMap_cons_none (hp.chain?_of_empty hempty)]
        rw [ceilDiv_clusterSize_eq_zero.mpr hempty] at hrest
        exact ih hrest
      · rw [List.filterMap_cons_some (hp.chain?_of_nonempty hempty)]
        have hfirst := hp.first
        rw [if_neg hempty] at hfirst
        have hpos := Nat.pos_of_ne_zero (mt ceilDiv_clusterSize_eq_zero.mp hempty)
        refine ⟨hfirst, by rwa [hp.count], ?_⟩
        rw [Chain.stop, hfirst, hp.count]
        exact ih hrest

/-! ## Placing files -/

theorem placeAt_standsAt {file : FileEntry} (hfits : file.length < Bytes.limit32)
    (next : UInt32) (index : Nat) (stored : Option StoredName) :
    (placeAt next index file stored).StandsAt next.toNat where
  count := toNat_clustersFor (Nat.lt_of_le_of_lt (ceilDiv_clusterSize_le hfits) (by decide))
  size := by
    show (UInt32.ofNat file.length).toNat = file.length
    rw [UInt32.toNat_ofNat']
    exact Nat.mod_eq_of_lt hfits
  first := by
    have hcount : (clustersFor file.length).toNat = ceilDiv file.length clusterSize :=
      toNat_clustersFor (Nat.lt_of_le_of_lt (ceilDiv_clusterSize_le hfits) (by decide))
    show (if clustersFor file.length = 0 then (0 : UInt32) else next).toNat =
      if file.length = 0 then 0 else next.toNat
    have hzero : clustersFor file.length = 0 ↔ file.length = 0 := by
      rw [← UInt32.toNat_inj, hcount]
      exact ceilDiv_clusterSize_eq_zero
    simp only [hzero]
    split <;> rfl

theorem placeFrom_cons (next : UInt32) (v : Visible) (rest : List Visible) :
    placeFrom next (v :: rest) =
      (placeAt next v.index v.file (some v.stored) ::
          (placeFrom (next + clustersFor v.file.length) rest).1,
        (placeFrom (next + clustersFor v.file.length) rest).2) := rfl

theorem placeFrom_map (next : UInt32) (shown : List Visible) :
    (placeFrom next shown).1.map Placement.entry =
      shown.map fun v => (v.index, v.file, some v.stored) := by
  induction shown generalizing next with
  | nil => rfl
  | cons v rest ih =>
      rw [placeFrom_cons, List.map_cons, List.map_cons, ih]
      rfl

theorem placeFrom_stand (next : UInt32) {shown : List Visible}
    (hfits : ∀ v ∈ shown, v.file.length < Bytes.limit32)
    (hroom : next.toNat + fileClusters shown < 0x100000000) :
    Stand next.toNat (placeFrom next shown).1 (placeFrom next shown).2.toNat ∧
      (placeFrom next shown).2.toNat = next.toNat + fileClusters shown := by
  induction shown generalizing next with
  | nil => exact ⟨rfl, rfl⟩
  | cons v rest ih =>
      have hv := hfits v (List.mem_cons_self ..)
      have hcount : (clustersFor v.file.length).toNat = ceilDiv v.file.length clusterSize :=
        toNat_clustersFor (Nat.lt_of_le_of_lt (ceilDiv_clusterSize_le hv) (by decide))
      have hsum : fileClusters (v :: rest) =
          ceilDiv v.file.length clusterSize + fileClusters rest := rfl
      rw [hsum] at hroom ⊢
      have hstep : (next + clustersFor v.file.length).toNat =
          next.toNat + ceilDiv v.file.length clusterSize := by
        rw [UInt32.toNat_add, hcount]
        omega
      obtain ⟨hstand, hstop⟩ := ih (next + clustersFor v.file.length)
        (fun w hw => hfits w (List.mem_cons_of_mem _ hw)) (by omega)
      rw [hstep] at hstand hstop
      rw [placeFrom_cons]
      exact ⟨⟨placeAt_standsAt hv _ _ _, hstand⟩, by rw [hstop, Nat.add_assoc]⟩

/-! ## Arrangements -/

/-- What an arrangement looks like when no cluster number wraps. -/
structure Arranged (set : FileSet) (a : Arrangement) : Prop where
  rootClusters : a.rootClusters.toNat = rootDirectoryClusters set.boot (visibleFiles set).1
  next : a.next.toNat = 2 + usedClusters set
  bootAlias : a.bootAlias = bootAlias? set.boot (visibleFiles set).1
  placed : a.placements.map Placement.entry = placedEntries set
  stand : Stand (a.rootClusters.toNat + 3) a.placements a.next.toNat
  boot : ∃ p ∈ a.placements, p.index = set.boot ∧ p.first = a.bootCluster

/-- The clusters of the root directory as a word. -/
def rootWord (boot : Nat) (shown : List Visible) : UInt32 :=
  max (clustersFor (Arrangement.rootSlots shown (bootAlias? boot shown) * slotSize)) 1

/-- The places of the visible files, behind the two directories. -/
def placeShown (boot : Nat) (shown : List Visible) : List Placement × UInt32 :=
  placeFrom (rootCluster + rootWord boot shown + 1) shown

theorem make_of_some {set : FileSet} {shown : List Visible} {boot : Placement}
    (h : (placeShown set.boot shown).1.find? (·.index == set.boot) = some boot) :
    Arrangement.make set shown =
      { rootClusters := rootWord set.boot shown
        placements := (placeShown set.boot shown).1
        bootCluster := boot.first
        bootAlias := bootAlias? set.boot shown
        next := (placeShown set.boot shown).2 } := by
  unfold placeShown rootWord bootAlias? at h
  simp only [Arrangement.make, h]
  rfl

theorem make_of_none {set : FileSet} {shown : List Visible}
    (h : (placeShown set.boot shown).1.find? (·.index == set.boot) = none) :
    Arrangement.make set shown =
      let boot := placeAt (placeShown set.boot shown).2 set.boot set.bootTarget none
      { rootClusters := rootWord set.boot shown
        placements := (placeShown set.boot shown).1 ++ [boot]
        bootCluster := boot.first
        bootAlias := bootAlias? set.boot shown
        next := (placeShown set.boot shown).2 + boot.count } := by
  unfold placeShown rootWord bootAlias? at h
  simp only [Arrangement.make, h]
  rfl

/-- The boot target is found among the placed files if it is visible. -/
theorem isSome_find?_placeShown (set : FileSet) (shown : List Visible) :
    ((placeShown set.boot shown).1.find? (·.index == set.boot)).isSome =
      shown.any (·.index == set.boot) := by
  have hmap : (placeShown set.boot shown).1.map Placement.entry = _ := placeFrom_map _ shown
  have hany := congrArg (List.any · fun e => e.1 == set.boot) hmap
  rw [List.any_map, List.any_map] at hany
  rw [Bool.eq_iff_iff, List.find?_isSome, ← List.any_eq_true]
  exact Bool.eq_iff_iff.mp hany

/-- What is placed, whatever cluster numbers it is given. -/
theorem placed_make (set : FileSet) :
    (Arrangement.make set (visibleFiles set).1).placements.map Placement.entry =
      placedEntries set := by
  set shown := (visibleFiles set).1 with hshown
  have hentries : placedEntries set = shown.map (fun v => (v.index, v.file, some v.stored)) ++
      if shown.any (·.index == set.boot) then [] else [(set.boot, set.bootTarget, none)] := rfl
  have hmap : (placeShown set.boot shown).1.map Placement.entry = _ := placeFrom_map _ shown
  have hsome := isSome_find?_placeShown set shown
  cases hfind : (placeShown set.boot shown).1.find? (·.index == set.boot) with
  | some boot =>
      rw [hfind] at hsome
      rw [make_of_some hfind, hentries, ← hsome, hmap]
      exact (List.append_nil _).symm
  | none =>
      rw [hfind] at hsome
      rw [make_of_none hfind, hentries, ← hsome, List.map_append, hmap]
      rfl

theorem rootWord_toNat (boot : Nat) (shown : List Visible)
    (h : rootDirectoryClusters boot shown < 0x100000000) :
    (rootWord boot shown).toNat = rootDirectoryClusters boot shown := by
  have hle : ceilDiv (Arrangement.rootSlots shown (bootAlias? boot shown) * slotSize)
      clusterSize ≤ rootDirectoryClusters boot shown := Nat.le_max_left ..
  rw [rootWord, Geometry.toNat_max, toNat_clustersFor (by omega)]
  rfl

theorem arranged_make {set : FileSet}
    (hfits : ∀ v ∈ (visibleFiles set).1, v.file.length < Bytes.limit32)
    (hboot : set.bootTarget.length < Bytes.limit32) (hused : 2 + usedClusters set < 0x100000000) :
    Arranged set (Arrangement.make set (visibleFiles set).1) := by
  set shown := (visibleFiles set).1 with hshown
  have hsum : usedClusters set = rootDirectoryClusters set.boot shown + 1 + fileClusters shown +
      hiddenClusters set shown := rfl
  have hroot := rootWord_toNat set.boot shown (by omega)
  have hstart : (rootCluster + rootWord set.boot shown + 1).toNat =
      (rootWord set.boot shown).toNat + 3 := by
    rw [UInt32.toNat_add, UInt32.toNat_add]
    simp only [rootCluster, UInt32.reduceToNat]
    omega
  have hplaces : (Arrangement.make set shown).placements.map Placement.entry = placedEntries set :=
    placed_make set
  obtain ⟨hstand, hstop⟩ : Stand _ (placeShown set.boot shown).1 _ ∧ _ :=
    placeFrom_stand (rootCluster + rootWord set.boot shown + 1) hfits (by omega)
  rw [hstart] at hstand hstop
  have hsome := isSome_find?_placeShown set shown
  -- The boot target is one of the visible files or stands behind them.
  cases hfind : (placeShown set.boot shown).1.find? (·.index == set.boot) with
  | some boot =>
      have hfound : (boot.index == set.boot) = true :=
        List.find?_some (p := fun p : Placement => p.index == set.boot) hfind
      rw [hfind, Option.isSome_some] at hsome
      rw [hiddenClusters, if_pos hsome.symm] at hsum
      rw [make_of_some hfind] at hplaces ⊢
      refine ⟨hroot, ?_, rfl, hplaces, hstand, boot, List.mem_of_find?_eq_some hfind,
        eq_of_beq hfound, rfl⟩
      show (placeFrom (rootCluster + rootWord set.boot shown + 1) shown).2.toNat = _
      omega
  | none =>
      rw [hfind, Option.isSome_none] at hsome
      rw [hiddenClusters, if_neg (by rw [← hsome]; exact Bool.false_ne_true)] at hsum
      rw [make_of_none hfind] at hplaces ⊢
      have hplaced := placeAt_standsAt hboot (placeShown set.boot shown).2 set.boot none
      have hcount : (placeAt (placeShown set.boot shown).2 set.boot set.bootTarget none).count.toNat =
          ceilDiv set.bootTarget.length clusterSize := hplaced.count
      have hbehind : (placeShown set.boot shown).2.toNat =
          (rootWord set.boot shown).toNat + 3 + fileClusters shown := hstop
      have hnext : ((placeShown set.boot shown).2 +
          (placeAt (placeShown set.boot shown).2 set.boot set.bootTarget none).count).toNat =
          (placeShown set.boot shown).2.toNat + ceilDiv set.bootTarget.length clusterSize := by
        rw [UInt32.toNat_add, hcount]
        omega
      refine ⟨hroot, ?_, rfl, hplaces, hstand.append ⟨hplaced, hnext.symm⟩, _,
        List.mem_append_right _ (List.mem_singleton_self _), rfl, rfl⟩
      show ((placeShown set.boot shown).2 +
        (placeAt (placeShown set.boot shown).2 set.boot set.bootTarget none).count).toNat = _
      omega

namespace Arranged

variable {set : FileSet} {a : Arrangement}

theorem used_toNat (arranged : Arranged set a) : a.used.toNat = usedClusters set := by
  have hnext := arranged.next
  rw [Arrangement.used, UInt32.toNat_sub_of_le _ _ (UInt32.le_iff_toNat_le.mpr (by
    rw [hnext]
    exact Nat.le_add_right ..)), hnext]
  exact Nat.add_sub_cancel_left ..

theorem rootClusters_pos (arranged : Arranged set a) : 0 < a.rootClusters.toNat := by
  rw [arranged.rootClusters]
  exact Nat.le_max_right ..

theorem firmwareCluster_lt (arranged : Arranged set a) :
    a.rootClusters.toNat + 3 ≤ a.next.toNat :=
  arranged.stand.start_le_stop

theorem firmwareCluster_toNat (arranged : Arranged set a) :
    a.firmwareCluster.toNat = a.rootClusters.toNat + 2 := by
  have hroom := arranged.firmwareCluster_lt
  have := a.next.toNat_lt
  rw [Arrangement.firmwareCluster, UInt32.toNat_add]
  simp only [rootCluster, UInt32.reduceToNat]
  omega

/-- The chains fill the clusters in use without a gap. -/
theorem abut (arranged : Arranged set a) : Abut 2 a.chains a.next.toNat := by
  have hroot := arranged.rootClusters_pos
  refine ⟨rfl, hroot, arranged.firmwareCluster_toNat.trans (Nat.add_comm ..), Nat.zero_lt_one, ?_⟩
  have hstop : Chain.stop { first := a.firmwareCluster, count := 1 } =
      a.rootClusters.toNat + 3 := by
    rw [Chain.stop, arranged.firmwareCluster_toNat]
    rfl
  rw [hstop]
  exact arranged.stand.abut

end Arranged

/-- A chain is that of the root directory, of `\EFI`, or of a placed file. -/
theorem Arrangement.chain_cases {a : Arrangement} {c : Chain} (hc : c ∈ a.chains) :
    c.first = rootCluster ∨ c.first = a.firmwareCluster ∨ ∃ p ∈ a.placements, c.first = p.first := by
  rcases List.mem_cons.mp hc with rfl | hc
  · exact Or.inl rfl
  · rcases List.mem_cons.mp hc with rfl | hc
    · exact Or.inr (Or.inl rfl)
    · obtain ⟨p, hp, hchain⟩ := List.mem_filterMap.mp hc
      refine Or.inr (Or.inr ⟨p, hp, ?_⟩)
      unfold Placement.chain? at hchain
      split at hchain
      · cases hchain
      · cases hchain
        rfl

/-! ## The files of a set -/

theorem files_boot (set : FileSet) : set.files[set.boot]? = some set.bootTarget := by
  rw [FileSet.bootTarget, List.get_eq_getElem, List.getElem?_eq_getElem set.boot_lt]

theorem placedEntries_cases {set : FileSet} {e : Nat × FileEntry × Option StoredName}
    (h : e ∈ placedEntries set) :
    (∃ v ∈ (visibleFiles set).1, e = (v.index, v.file, some v.stored)) ∨
      e = (set.boot, set.bootTarget, none) ∧
        ∀ v ∈ (visibleFiles set).1, v.index ≠ set.boot := by
  rcases List.mem_append.mp h with h | h
  · obtain ⟨v, hv, rfl⟩ := List.mem_map.mp h
    exact Or.inl ⟨v, hv, rfl⟩
  · by_cases hvisible : (visibleFiles set).1.any (·.index == set.boot) = true
    · rw [if_pos hvisible] at h
      cases h
    · rw [if_neg hvisible] at h
      exact Or.inr ⟨List.mem_singleton.mp h, by simpa using hvisible⟩

theorem files_of_mem_placedEntries {set : FileSet} {e : Nat × FileEntry × Option StoredName}
    (h : e ∈ placedEntries set) : set.files[e.1]? = some e.2.1 := by
  rcases placedEntries_cases h with ⟨v, hv, rfl⟩ | ⟨rfl, -⟩
  · exact (shows_visibleFiles set).at_index v hv
  · exact files_boot set

theorem nodup_placedEntries (set : FileSet) : ((placedEntries set).map Prod.fst).Nodup := by
  have hshown : ((visibleFiles set).1.map Visible.index).Nodup :=
    (shows_visibleFiles set).nodup_index
  rw [placedEntries, List.map_append, List.map_map]
  split
  · rw [List.map_nil, List.append_nil]
    exact hshown
  · rename_i hvisible
    refine List.nodup_append.mpr ⟨hshown, List.nodup_singleton _, ?_⟩
    intro i hi j hj
    obtain ⟨v, hv, rfl⟩ := List.mem_map.mp hi
    rw [List.map_singleton, List.mem_singleton] at hj
    rw [hj]
    intro hindex
    exact hvisible (List.any_eq_true.mpr ⟨v, hv, beq_iff_eq.mpr hindex⟩)

/-- The first cluster of the file with the given position in its set. -/
def Arrangement.firstCluster (a : Arrangement) (index : Nat) : UInt32 :=
  ((a.placements.find? (·.index == index)).map Placement.first).getD 0

namespace Arranged

variable {set : FileSet} {a : Arrangement}

theorem index_nodup (arranged : Arranged set a) : (a.placements.map Placement.index).Nodup := by
  have hnodup := nodup_placedEntries set
  rwa [← arranged.placed, List.map_map] at hnodup

theorem firstCluster_of_mem (arranged : Arranged set a) {p : Placement} (hp : p ∈ a.placements) :
    a.firstCluster p.index = p.first := by
  have hex : (a.placements.find? (·.index == p.index)).isSome :=
    List.find?_isSome.mpr ⟨p, hp, beq_self_eq_true _⟩
  obtain ⟨q, hq⟩ := Option.isSome_iff_exists.mp hex
  have hindex : (q.index == p.index) = true :=
    List.find?_some (p := fun q : Placement => q.index == p.index) hq
  have heq : q = p := List.inj_on_of_nodup_map arranged.index_nodup
    (List.mem_of_find?_eq_some hq) hp (eq_of_beq hindex)
  rw [Arrangement.firstCluster, hq, heq]
  rfl

theorem firstCluster_boot (arranged : Arranged set a) :
    a.firstCluster set.boot = a.bootCluster := by
  obtain ⟨p, hp, hindex, hfirst⟩ := arranged.boot
  rw [← hindex, arranged.firstCluster_of_mem hp, hfirst]

/-- An empty file has no cluster, and any other one stands behind the two directories. -/
theorem first_cases (arranged : Arranged set a) {p : Placement} (hp : p ∈ a.placements) :
    p.file.length = 0 ∧ p.first = 0 ∨
      p.file.length ≠ 0 ∧ a.rootClusters.toNat + 3 ≤ p.first.toNat := by
  obtain ⟨cluster, hle, -, hstands⟩ := arranged.stand.exists_standsAt hp
  have hfirst := hstands.first
  by_cases hempty : p.file.length = 0
  · rw [if_pos hempty] at hfirst
    exact Or.inl ⟨hempty, UInt32.toNat_inj.mp hfirst⟩
  · rw [if_neg hempty] at hfirst
    exact Or.inr ⟨hempty, by omega⟩

theorem mem_chains_of_nonempty (arranged : Arranged set a) {p : Placement} (hp : p ∈ a.placements)
    (hlength : p.file.length ≠ 0) : { first := p.first, count := p.count : Chain } ∈ a.chains := by
  obtain ⟨_, -, -, hstands⟩ := arranged.stand.exists_standsAt hp
  exact List.mem_cons_of_mem _ (List.mem_cons_of_mem _
    (List.mem_filterMap.mpr ⟨p, hp, hstands.chain?_of_nonempty hlength⟩))

/-- Files that share their first cluster are empty or one and the same. -/
theorem first_injective (arranged : Arranged set a) {p q : Placement} (hp : p ∈ a.placements)
    (hq : q ∈ a.placements) (hfirst : p.first = q.first) : p.first = 0 ∨ p = q := by
  have hordered : a.placements.Pairwise fun p q => p.first = q.first → p.first = 0 := by
    refine arranged.stand.pairwise_first.imp_of_mem fun {p q} hp hq hlt heq => ?_
    rcases arranged.first_cases hp with ⟨-, hzero⟩ | ⟨hpne, -⟩
    · exact hzero
    · rcases arranged.first_cases hq with ⟨-, hzero⟩ | ⟨hqne, -⟩
      · exact heq.trans hzero
      · have := hlt hpne hqne
        rw [heq] at this
        exact absurd this (Nat.lt_irrefl _)
  have hsymmetric : Std.Symm fun p q : Placement => p.first = q.first → p.first = 0 :=
    ⟨fun p q h heq => heq.trans (h heq.symm)⟩
  by_cases hne : p = q
  · exact Or.inr hne
  · exact Or.inl (hordered.forall hp hq hne hfirst)

/-- Every visible file, and the boot target, has its place. -/
theorem exists_placement (arranged : Arranged set a) {i : Nat} {file : FileEntry}
    (hfile : set.files[i]? = some file)
    (hplaced : i = set.boot ∨ ∃ v ∈ (visibleFiles set).1, v.index = i) :
    ∃ p ∈ a.placements, p.index = i ∧ p.file = file := by
  have hmem : ∃ p ∈ a.placements, p.index = i := by
    rcases hplaced with rfl | ⟨v, hv, rfl⟩
    · obtain ⟨p, hp, hindex, -⟩ := arranged.boot
      exact ⟨p, hp, hindex⟩
    · have hentry : (v.index, v.file, some v.stored) ∈ placedEntries set :=
        List.mem_append_left _ (List.mem_map_of_mem hv)
      rw [← arranged.placed] at hentry
      obtain ⟨p, hp, heq⟩ := List.mem_map.mp hentry
      exact ⟨p, hp, congrArg Prod.fst heq⟩
  obtain ⟨p, hp, rfl⟩ := hmem
  have hentry : p.entry ∈ placedEntries set := by
    rw [← arranged.placed]
    exact List.mem_map_of_mem hp
  have hat := files_of_mem_placedEntries hentry
  rw [Placement.entry, hfile] at hat
  exact ⟨p, hp, rfl, (Option.some.inj hat).symm⟩

end Arranged

end BootVolume.Image
