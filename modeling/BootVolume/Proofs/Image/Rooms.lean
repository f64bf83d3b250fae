import BootVolume.Proofs.Image.SparseRead

/-!
# The room of each region

Behind each region of a built disk the bytes up to the next reserved place read
as zero: `Room` says that no other region reaches into that stretch.  A read of
a whole room is then a read of its one region, filled up with zeros.
-/

namespace BootVolume.Image

open Fat Files

variable {σ : Type}

/-- A region with the room up to `stop` to itself. -/
structure Room (regions : List Region) (r : Region) (stop : Nat) : Prop where
  mem : r ∈ regions
  alone : ∀ s ∈ regions, s = r ∨ s.stop ≤ r.start ∨ stop ≤ s.start

namespace Room

variable {regions : List Region} {r : Region} {stop : Nat} {content : FileEntry → Bytes}
  {table : Table}

theorem imageByte_eq (room : Room regions r stop) (apart : Apart regions) {position : Nat}
    (hlow : r.start ≤ position) (hhigh : position < stop)
    (hrest : r.stop ≤ position → r.content.byteAt content table (position - r.start) = 0) :
    imageByte content table regions position =
      r.content.byteAt content table (position - r.start) := by
  by_cases hhas : r.Has position
  · exact imageByte_of_has apart room.mem hhas
  · have hbehind : r.stop ≤ position := by
      unfold Region.Has at hhas
      omega
    rw [hrest hbehind]
    refine imageByte_of_not_has fun s hs hshas => ?_
    unfold Region.Has at hhas hshas
    rcases room.alone s hs with rfl | hbefore | hafter
    · exact hhas hshas
    · omega
    · omega

/-- Over the range from its start to the end of its room only the region itself is read. -/
theorem readPieces_eq (room : Room regions r stop) (apart : Apart regions) (hroom : r.stop ≤ stop)
    (storage : Storage σ) (table : Table) :
    readPieces storage table r.start stop regions =
      r.content.read storage table 0 r.length >>= fun data => pure [⟨0, data⟩] := by
  obtain ⟨before, after, hsplit⟩ := List.append_of_mem room.mem
  have hpos := apart.nonempty r room.mem
  have hordered := apart.ordered
  rw [hsplit, List.pairwise_append, List.pairwise_cons] at hordered
  obtain ⟨-, ⟨hafter, -⟩, hbefore⟩ := hordered
  have hstop : r.stop = r.start + r.length := rfl
  -- Neither the regions before nor those behind reach into the room.
  have hskipBefore : ∀ s ∈ before, ¬ s.Meets r.start stop := by
    intro s hs
    have hle := hbefore s hs r (List.mem_cons_self ..)
    unfold Region.Meets
    omega
  have hskipAfter : ∀ s ∈ after, ¬ s.Meets r.start stop := by
    intro s hs
    have hle := hafter s hs
    have hmem : s ∈ regions := by
      rw [hsplit]
      exact List.mem_append_right _ (List.mem_cons_of_mem _ hs)
    have hspos := apart.nonempty s hmem
    have hsstop : s.stop = s.start + s.length := rfl
    unfold Region.Meets
    rcases room.alone s hmem with rfl | h | h
    · omega
    · omega
    · omega
  have hmeets : r.Meets r.start stop := by
    unfold Region.Meets
    omega
  have hsegment : r.segment r.start stop = (0, r.length) := by
    rw [Region.segment, Prod.mk.injEq]
    omega
  rw [hsplit, readPieces_append, readPieces_skip storage table hskipBefore, pure_bind,
    readPieces_cons_of_meets storage table hmeets, readPieces_skip storage table hskipAfter,
    hsegment, Nat.max_self, Nat.sub_self]
  simp only [pure_bind, bind_pure, List.nil_append]

end Room

/-- A read of the whole room of a file brings the file, and zeros behind it. -/
theorem read_room_of_file {d : VirtualDisk} (apart : Apart d.regions) {r : Region}
    {file : FileEntry} (hfile : r.content = .file file) {size : Nat}
    (room : Room d.regions r (r.start + size)) (hsize : r.length ≤ size)
    (hrange : r.start + size ≤ d.byteLength) (storage : Storage σ) :
    d.read storage r.start size =
      file.read storage 0 r.length >>= fun data =>
        pure (data ++ Bytes.zeros (size - r.length)) := by
  rw [read_eq_flatRead apart storage hrange, VirtualDisk.flatRead,
    room.readPieces_eq apart (Nat.add_le_add_left hsize _), bind_assoc,
    hfile, Content.read]
  refine Action.ext_runOn fun m => ?_
  rcases hread : (file.read storage 0 r.length).runOn m with ⟨data | data, m'⟩
  · rw [Action.runOn_bind_error hread, Action.runOn_bind_error hread]
  · have hlength := FileEntry.length_of_read hread
    rw [Action.runOn_bind_ok hread, Action.runOn_bind_ok hread, pure_bind, Action.runOn_pure,
      Action.runOn_pure]
    congr 2
    refine List.ext_getElem (by simp [hlength, hsize]) fun i hi _ => ?_
    simp only [List.getElem_map, List.getElem_range, List.foldl_cons, List.foldl_nil, Piece.over,
      Piece.Covers, Nat.zero_le, true_and, Nat.zero_add, Nat.sub_zero]
    by_cases hinside : i < data.length
    · rw [if_pos hinside, List.getElem_append_left hinside, List.getD_eq_getElem _ _ hinside]
    · rw [if_neg hinside, List.getElem_append_right (Nat.not_lt.mp hinside)]
      simp [Bytes.zeros]

/-! ## Rooms on a built disk -/

theorem Room.of_split {regions before after : List Region} {r : Region} {stop : Nat}
    (apart : Apart regions) (hsplit : regions = before ++ r :: after)
    (hafter : ∀ s ∈ after, stop ≤ s.start) : Room regions r stop where
  mem := by
    rw [hsplit]
    exact List.mem_append_right _ (List.mem_cons_self ..)
  alone s hs := by
    have hordered := apart.ordered
    rw [hsplit, List.pairwise_append] at hordered
    rw [hsplit] at hs
    rcases List.mem_append.mp hs with hs | hs
    · exact Or.inr (Or.inl (hordered.2.2 s hs r (List.mem_cons_self ..)))
    · rcases List.mem_cons.mp hs with rfl | hs
      · exact Or.inl rfl
      · exact Or.inr (Or.inr (hafter s hs))

namespace Built

variable {set : FileSet} {d : VirtualDisk}

theorem apart (built : Built set d) : Apart d.regions := built.inOrder.apart

theorem next_le (built : Built set d) :
    d.arrangement.next.toNat ≤ d.geometry.clusters.toNat + 2 := by
  have := built.arranged.next
  have := built.clusters
  omega

/-- Directories and files stand behind the tables. -/
theorem clusterPlace_le_of_mem (built : Built set d) {s : Region}
    (hs : s ∈ directoryRegions d.arrangement set ++
      d.arrangement.placements.filterMap (fileRegion? d.geometry)) :
    clusterPlace d.geometry 2 ≤ s.start := by
  have hroom := built.arranged.firmwareCluster_lt
  have hnext := built.next_le
  have hdirectories := inOrder_directoryRegions built.exact built.arranged hnext
  have hfiles := inOrder_fileRegions built.exact built.arranged.stand (by omega) hnext
  exact ((hdirectories.append hfiles).bounds hs).1

/-- Each copy of the table has all its sectors to itself. -/
theorem room_table (built : Built set d) (copy : UInt32) (hcopy : copy.toNat < 2) :
    Room d.regions
      { start := sectorOffset (d.geometry.tableStart copy)
        length := d.arrangement.table.size
        content := .table }
      (sectorOffset (d.geometry.tableStart copy) +
        d.geometry.tableSectors.toNat * sectorSize) := by
  have hregions : d.regions = sectorRegions d.arrangement ++
      ({ start := sectorOffset (d.geometry.tableStart 0)
         length := d.arrangement.table.size
         content := .table } ::
        { start := sectorOffset (d.geometry.tableStart 1)
          length := d.arrangement.table.size
          content := .table } ::
        (directoryRegions d.arrangement set ++
          d.arrangement.placements.filterMap (fileRegion? d.geometry))) := by
    rw [built.regions]
    simp only [tableRegions, List.map_cons, List.map_nil, List.append_assoc, List.cons_append,
      List.nil_append]
    rfl
  have hzero : sectorOffset (d.geometry.tableStart 0) = 49152 := by
    rw [sectorOffset, built.exact.tableStart_toNat _ (by decide)]
    simp only [partitionStart, sectorSize, UInt32.reduceToNat]
    omega
  have hone : sectorOffset (d.geometry.tableStart 1) =
      49152 + d.geometry.tableSectors.toNat * sectorSize := by
    rw [sectorOffset, built.exact.tableStart_toNat _ (by decide)]
    simp only [partitionStart, sectorSize, UInt32.reduceToNat]
    omega
  have hdata : clusterPlace d.geometry 2 =
      49152 + 2 * (d.geometry.tableSectors.toNat * sectorSize) := by
    rw [clusterPlace, built.exact.dataStart_toNat]
    unfold partitionStart sectorSize
    omega
  obtain rfl | rfl : copy = 0 ∨ copy = 1 := by
    rw [← UInt32.toNat_inj, ← UInt32.toNat_inj]
    simp only [UInt32.reduceToNat]
    omega
  · refine Room.of_split built.apart hregions fun s hs => ?_
    rcases List.mem_cons.mp hs with rfl | hs
    · simp only
      omega
    · have := built.clusterPlace_le_of_mem hs
      omega
  · rw [List.append_cons] at hregions
    refine Room.of_split built.apart hregions fun s hs => ?_
    have := built.clusterPlace_le_of_mem hs
    omega

/-- A file that is not empty has its clusters to itself. -/
theorem room_file (built : Built set d) {p : Placement} (hp : p ∈ d.arrangement.placements)
    (hlength : p.file.length ≠ 0) :
    Room d.regions
      { start := clusterPlace d.geometry p.first.toNat
        length := p.file.length
        content := .file p.file }
      (clusterPlace d.geometry p.first.toNat + ceilDiv p.file.length clusterSize * clusterSize) := by
  obtain ⟨before, after, cluster, hsplit, hbefore, hstands, hafter⟩ := built.arranged.stand.split hp
  have hlow := hbefore.start_le_stop
  have hhigh := hafter.start_le_stop
  have hnext := built.next_le
  have hfirst := hstands.first
  rw [if_neg hlength] at hfirst
  have hregions := built.regions
  rw [hsplit, List.filterMap_append, List.filterMap_cons_some
    (fileRegion?_of_nonempty built.exact hstands hlength (by omega) (by omega)),
    ← List.append_assoc] at hregions
  rw [hfirst]
  refine Room.of_split built.apart hregions fun s hs => ?_
  have hbound := (inOrder_fileRegions built.exact hafter (by omega) hnext).bounds hs
  refine Nat.le_trans (Nat.le_of_eq ?_) hbound.1
  unfold clusterPlace clusterSize
  omega

end Built

end BootVolume.Image
