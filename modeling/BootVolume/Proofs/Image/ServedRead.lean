import BootVolume.Proofs.Image.FlatRead

/-!
# Reading a disk whose files keep their content

When every file in a range is unpatched and its source serves one content, the
disk has a byte at each position of the range, `imageByte`, and a read of the
range brings these bytes, or fails because some content ends too early.  So it
makes no difference whether a range is read at once or in consecutive parts
(`readInTurn`): both bring the bytes of the same positions.
-/

namespace BootVolume.Image

open Files

variable {σ : Type} {storage : Storage σ} {good : Machine σ → Prop}
  {content : FileEntry → Bytes} {table : Fat.Table} {regions : List Region} {start stop : Nat}

/-! ## The bytes of a disk -/

/-- The byte at a position of what stands in a region; bytes past the end read as zero. -/
def Content.byteAt (content : FileEntry → Bytes) (table : Fat.Table) (position : Nat) :
    Content → UInt8
  | .bytes data => data.getD position 0
  | .table => table.byteAt position
  | .file entry => (content entry).getD position 0

/-- Whether a region has the byte at a position of the disk. -/
def Region.Has (r : Region) (position : Nat) : Prop := r.start ≤ position ∧ position < r.stop

instance (r : Region) (position : Nat) : Decidable (r.Has position) :=
  inferInstanceAs (Decidable (_ ∧ _))

/-- The byte at a position of a disk whose files have the given contents: that of the
region over it, or zero between the regions. -/
def imageByte (content : FileEntry → Bytes) (table : Fat.Table) (regions : List Region)
    (position : Nat) : UInt8 :=
  match regions.find? fun r => decide (r.Has position) with
  | some r => r.content.byteAt content table (position - r.start)
  | none => 0

/-- The files in a range are unpatched, and their sources serve the given contents. -/
def ServedIn (storage : Storage σ) (good : Machine σ → Prop) (content : FileEntry → Bytes)
    (regions : List Region) (start stop : Nat) : Prop :=
  ∀ r ∈ regions, r.Meets start stop → ∀ file, r.content = .file file →
    file.patch = none ∧ Serves storage good file.source (content file)

/-- The contents of the files in a range reach as far as the range does. -/
def HeldIn (content : FileEntry → Bytes) (regions : List Region) (start stop : Nat) : Prop :=
  ∀ r ∈ regions, r.Meets start stop → ∀ file, r.content = .file file →
    (r.segment start stop).1 + (r.segment start stop).2 ≤ (content file).length

theorem ServedIn.tail {r : Region} (h : ServedIn storage good content (r :: regions) start stop) :
    ServedIn storage good content regions start stop :=
  fun s hs => h s (List.mem_cons_of_mem _ hs)

theorem heldIn_cons_iff {r : Region} :
    HeldIn content (r :: regions) start stop ↔
      (r.Meets start stop → ∀ file, r.content = .file file →
        (r.segment start stop).1 + (r.segment start stop).2 ≤ (content file).length) ∧
      HeldIn content regions start stop :=
  List.forall_mem_cons

theorem ServedIn.mono {start' stop' : Nat} (h : ServedIn storage good content regions start stop)
    (hstart : start ≤ start') (hstop : stop' ≤ stop) :
    ServedIn storage good content regions start' stop' := by
  intro r hr hmeets
  refine h r hr ?_
  unfold Region.Meets at hmeets ⊢
  omega

theorem segment_end {r : Region} (hmeets : r.Meets start stop) :
    (r.segment start stop).1 + (r.segment start stop).2 = min stop r.stop - r.start := by
  unfold Region.Meets at hmeets
  simp only [Region.segment]
  omega

theorem HeldIn.mono {start' stop' : Nat} (h : HeldIn content regions start stop)
    (hstart : start ≤ start') (hstop : stop' ≤ stop) : HeldIn content regions start' stop' := by
  intro r hr hmeets file hfile
  have hwider : r.Meets start stop := by
    unfold Region.Meets at hmeets ⊢
    omega
  have hheld := h r hr hwider file hfile
  rw [segment_end hwider] at hheld
  rw [segment_end hmeets]
  omega

/-- Contents as long as their regions reach through every range. -/
theorem heldIn_of_length_le (h : ∀ r ∈ regions, ∀ file, r.content = .file file →
    r.length ≤ (content file).length) : HeldIn content regions start stop := by
  intro r hr hmeets file hfile
  have hlength := h r hr file hfile
  rw [segment_end hmeets]
  unfold Region.stop
  omega

theorem Apart.tail {r : Region} (apart : Apart (r :: regions)) : Apart regions where
  nonempty s hs := apart.nonempty s (List.mem_cons_of_mem _ hs)
  ordered := (List.pairwise_cons.mp apart.ordered).2

theorem Apart.not_has {r : Region} (apart : Apart (r :: regions)) {position : Nat}
    (hr : r.Has position) : ∀ s ∈ regions, ¬ s.Has position := by
  intro s hs
  have hle := (List.pairwise_cons.mp apart.ordered).1 s hs
  unfold Region.Has at hr ⊢
  omega

/-- Only one region has a given byte. -/
theorem imageByte_of_has (apart : Apart regions) {r : Region} (hr : r ∈ regions) {position : Nat}
    (hhas : r.Has position) :
    imageByte content table regions position =
      r.content.byteAt content table (position - r.start) := by
  have hfind : regions.find? (fun s => decide (s.Has position)) = some r := by
    induction regions with
    | nil => cases hr
    | cons s rest ih =>
        rcases List.mem_cons.mp hr with rfl | hr
        · exact List.find?_cons_of_pos (by simpa using hhas)
        · rw [List.find?_cons_of_neg
            (by simpa using fun hs => apart.not_has hs r hr hhas)]
          exact ih apart.tail hr
  rw [imageByte, hfind]

theorem imageByte_of_not_has {position : Nat} (h : ∀ r ∈ regions, ¬ r.Has position) :
    imageByte content table regions position = 0 := by
  have hfind : regions.find? (fun s => decide (s.Has position)) = none :=
    List.find?_eq_none.mpr fun r hr => by simpa using h r hr
  rw [imageByte, hfind]

theorem imageByte_cons_of_not_has {r : Region} {position : Nat} (h : ¬ r.Has position) :
    imageByte content table (r :: regions) position = imageByte content table regions position := by
  rw [imageByte, List.find?_cons_of_neg (by simpa using h), imageByte]

/-! ## Pieces of served files -/

theorem Content.runOn_read_held (table : Fat.Table) {c : Content} {position length : Nat}
    (hserved : ∀ file, c = .file file →
      file.patch = none ∧ Serves storage good file.source (content file))
    (hheld : ∀ file, c = .file file → position + length ≤ (content file).length)
    {m : Machine σ} (hm : good m) :
    ∃ data m', (c.read storage table position length).runOn m = (.ok data, m') ∧ good m' ∧
      ∀ i < length, data.getD i 0 = c.byteAt content table (position + i) := by
  cases c with
  | bytes stored =>
      refine ⟨_, m, rfl, hm, fun i hi => ?_⟩
      simp only [List.getD_eq_getElem?_getD, Bytes.getElem?_slice, if_pos hi, Content.byteAt]
  | table =>
      refine ⟨_, m, rfl, hm, fun i hi => ?_⟩
      simp [Fat.Table.read, Content.byteAt, hi]
  | file file =>
      obtain ⟨hpatch, hserves⟩ := hserved file rfl
      obtain ⟨m', hread, hm'⟩ := hserves.readExact_inside (hheld file rfl) hm
      refine ⟨Bytes.slice (content file) position length, m', ?_, hm', fun i hi => ?_⟩
      · show (file.read storage position length).runOn m = _
        rw [FileEntry.read_unpatched hpatch]
        exact hread
      · simp only [List.getD_eq_getElem?_getD, Bytes.getElem?_slice, if_pos hi, Content.byteAt]

theorem Content.runOn_read_not_held (table : Fat.Table) {c : Content} {file : FileEntry}
    (hfile : c = .file file)
    (hserved : file.patch = none ∧ Serves storage good file.source (content file))
    {position length : Nat} (hlength : 0 < length)
    (hheld : ¬ position + length ≤ (content file).length) {m : Machine σ} (hm : good m) :
    ∃ cause m', (c.read storage table position length).runOn m = (.error cause, m') ∧
      good m' := by
  obtain ⟨cause, m', hread, hm'⟩ :=
    hserved.2.readExact_beyond (Nat.not_le.mp hheld) hlength hm
  refine ⟨cause, m', ?_, hm'⟩
  rw [hfile]
  show (file.read storage position length).runOn m = _
  rw [FileEntry.read_unpatched hserved.1]
  exact hread

theorem foldl_over_of_not_covers {pieces : List Piece} {i : Nat}
    (h : ∀ p ∈ pieces, ¬ p.Covers i) (below : UInt8) :
    pieces.foldl (Piece.over i) below = below := by
  induction pieces generalizing below with
  | nil => rfl
  | cons p rest ih =>
      rw [List.foldl_cons, Piece.over, if_neg (h p (List.mem_cons_self ..))]
      exact ih (fun q hq => h q (List.mem_cons_of_mem _ hq)) below

/-- Every piece shows bytes of its region. -/
theorem exists_region_of_covers {m m' : Machine σ} {pieces : List Piece}
    (h : (readPieces storage table start stop regions).runOn m = (.ok pieces, m'))
    {p : Piece} (hp : p ∈ pieces) {i : Nat} (hcovers : p.Covers i) :
    ∃ r ∈ regions, r.Has (start + i) := by
  obtain ⟨r, hr, hmeets, hplace, hlength⟩ := exists_region_of_piece h hp
  refine ⟨r, hr, ?_⟩
  unfold Piece.Covers at hcovers
  unfold Region.Has
  simp only [Region.segment] at hlength
  omega

section OnePiece

variable {r : Region} {data : Bytes} {i : Nat}

/-- The piece of a region shows the byte that the region has. -/
theorem over_of_has (hbytes : ∀ i < (r.segment start stop).2,
      data.getD i 0 = r.content.byteAt content table ((r.segment start stop).1 + i))
    (hi : start + i < stop) (hhas : r.Has (start + i)) :
    Piece.over i 0 ⟨max start r.start - start, data⟩ =
      r.content.byteAt content table (start + i - r.start) := by
  simp only [Region.segment] at hbytes
  unfold Region.Has at hhas
  have hbyte := hbytes (start + i - max start r.start) (by omega)
  rw [show start + i - r.start =
    max start r.start - r.start + (start + i - max start r.start) by omega, ← hbyte]
  unfold Piece.over
  split
  · congr 1
    simp only
    omega
  · -- The data may be shorter than the segment; what it lacks reads as zero.
    rename_i hcovers
    unfold Piece.Covers at hcovers
    simp only at hcovers
    rw [List.getD_eq_default _ _ (by omega)]

theorem over_of_not_has (hmeets : r.Meets start stop)
    (hlength : data.length ≤ (r.segment start stop).2) (hhas : ¬ r.Has (start + i))
    (below : UInt8) : Piece.over i below ⟨max start r.start - start, data⟩ = below := by
  simp only [Region.segment] at hlength
  rw [Piece.over, if_neg]
  unfold Piece.Covers
  unfold Region.Meets at hmeets
  unfold Region.Has at hhas
  simp only
  omega

end OnePiece

/-- The pieces of a range that all contents reach through show the bytes of the disk. -/
theorem runOn_readPieces_held (table : Fat.Table) (apart : Apart regions)
    (hserved : ServedIn storage good content regions start stop)
    (hheld : HeldIn content regions start stop) {m : Machine σ} (hm : good m) :
    ∃ pieces m', (readPieces storage table start stop regions).runOn m = (.ok pieces, m') ∧
      good m' ∧ ∀ i, start + i < stop →
        pieces.foldl (Piece.over i) 0 = imageByte content table regions (start + i) := by
  induction regions generalizing m with
  | nil => exact ⟨[], m, rfl, hm, fun i _ => rfl⟩
  | cons r rest ih =>
      obtain ⟨hown, hheld⟩ := heldIn_cons_iff.mp hheld
      by_cases hmeets : r.Meets start stop
      · obtain ⟨data, m₁, hdata, hm₁, hbytes⟩ :=
          Content.runOn_read_held table (hserved r (List.mem_cons_self ..) hmeets) (hown hmeets) hm
        obtain ⟨others, m₂, hothers, hm₂, hrest⟩ := ih apart.tail hserved.tail hheld hm₁
        have hlength := Content.length_of_read hdata
        refine ⟨⟨max start r.start - start, data⟩ :: others, m₂, ?_, hm₂, fun i hi => ?_⟩
        · rw [readPieces_cons_of_meets storage table hmeets, Action.runOn_bind_ok hdata,
            Action.runOn_bind_ok hothers, Action.runOn_pure]
        · rw [List.foldl_cons]
          by_cases hhas : r.Has (start + i)
          · -- No other region has this byte, so the piece of `r` is the last one over it.
            have hbehind : ∀ p ∈ others, ¬ p.Covers i := by
              intro p hp hcovers
              obtain ⟨s, hs, hother⟩ := exists_region_of_covers hothers hp hcovers
              exact apart.not_has hhas s hs hother
            rw [foldl_over_of_not_covers hbehind, over_of_has hbytes hi hhas,
              imageByte_of_has apart (List.mem_cons_self ..) hhas]
          · rw [over_of_not_has hmeets hlength hhas, hrest i hi, imageByte_cons_of_not_has hhas]
      · obtain ⟨others, m', hothers, hm', hrest⟩ := ih apart.tail hserved.tail hheld hm
        refine ⟨others, m', ?_, hm', fun i hi => ?_⟩
        · rwa [readPieces_cons_of_not_meets storage table hmeets]
        · rw [hrest i hi, imageByte_cons_of_not_has]
          unfold Region.Meets at hmeets
          unfold Region.Has
          omega

/-- If some content ends before the range does, its pieces cannot all be read. -/
theorem runOn_readPieces_not_held (table : Fat.Table)
    (hserved : ServedIn storage good content regions start stop)
    (hheld : ¬ HeldIn content regions start stop) {m : Machine σ} (hm : good m) :
    ∃ cause m', (readPieces storage table start stop regions).runOn m = (.error cause, m') ∧
      good m' := by
  induction regions generalizing m with
  | nil => exact absurd (fun r hr => by cases hr) hheld
  | cons r rest ih =>
      rw [heldIn_cons_iff] at hheld
      by_cases hown : r.Meets start stop → ∀ file, r.content = .file file →
          (r.segment start stop).1 + (r.segment start stop).2 ≤ (content file).length
      · have hrest : ¬ HeldIn content rest start stop := fun h => hheld ⟨hown, h⟩
        by_cases hmeets : r.Meets start stop
        · obtain ⟨data, m₁, hdata, hm₁, -⟩ := Content.runOn_read_held table
            (hserved r (List.mem_cons_self ..) hmeets) (hown hmeets) hm
          obtain ⟨cause, m₂, hothers, hm₂⟩ := ih hserved.tail hrest hm₁
          refine ⟨cause, m₂, ?_, hm₂⟩
          rw [readPieces_cons_of_meets storage table hmeets, Action.runOn_bind_ok hdata,
            Action.runOn_bind_error hothers]
        · rw [readPieces_cons_of_not_meets storage table hmeets]
          exact ih hserved.tail hrest hm
      · push Not at hown
        obtain ⟨hmeets, file, hfile, hshort⟩ := hown
        have hlength : 0 < (r.segment start stop).2 := by
          unfold Region.Meets at hmeets
          simp only [Region.segment]
          omega
        obtain ⟨cause, m₁, hread, hm₁⟩ := Content.runOn_read_not_held table hfile
          (hserved r (List.mem_cons_self ..) hmeets file hfile) hlength
          (Nat.not_le.mpr hshort) hm
        refine ⟨cause, m₁, ?_, hm₁⟩
        rw [readPieces_cons_of_meets storage table hmeets]
        exact Action.runOn_bind_error hread _

/-! ## Reads -/

/-- The bytes of a range of a disk whose files have the given contents. -/
def VirtualDisk.imageBytes (content : FileEntry → Bytes) (d : VirtualDisk) (offset count : Nat) :
    Bytes :=
  (List.range count).map fun i => imageByte content d.arrangement.table d.regions (offset + i)

theorem VirtualDisk.imageBytes_add (content : FileEntry → Bytes) (d : VirtualDisk)
    (offset first second : Nat) :
    d.imageBytes content offset (first + second) =
      d.imageBytes content offset first ++ d.imageBytes content (offset + first) second := by
  simp [imageBytes, List.range_add, Nat.add_assoc]

/-- The bytes of a region are those of what stands in it. -/
theorem imageBytes_of_mem {d : VirtualDisk} (apart : Apart d.regions) {r : Region}
    (hr : r ∈ d.regions) :
    d.imageBytes content r.start r.length =
      (List.range r.length).map (r.content.byteAt content d.arrangement.table) := by
  refine List.map_congr_left fun i hi => ?_
  have hi := List.mem_range.mp hi
  have hhas : r.Has (r.start + i) := ⟨Nat.le_add_right .., Nat.add_lt_add_left hi _⟩
  rw [imageByte_of_has apart hr hhas, Nat.add_sub_cancel_left]

section Reads

variable {d : VirtualDisk} {offset count : Nat}

theorem runOn_read_held (apart : Apart d.regions) (hrange : offset + count ≤ d.byteLength)
    (hserved : ServedIn storage good content d.regions offset (offset + count))
    (hheld : HeldIn content d.regions offset (offset + count)) {m : Machine σ} (hm : good m) :
    ∃ m', (d.read storage offset count).runOn m = (.ok (d.imageBytes content offset count), m') ∧
      good m' := by
  obtain ⟨pieces, m', hpieces, hm', hbytes⟩ :=
    runOn_readPieces_held d.arrangement.table apart hserved hheld hm
  refine ⟨m', ?_, hm'⟩
  rw [read_eq_flatRead apart storage hrange, VirtualDisk.flatRead, Action.runOn_bind_ok hpieces,
    Action.runOn_pure]
  congr 2
  refine List.map_congr_left fun i hi => hbytes i ?_
  have := List.mem_range.mp hi
  omega

theorem runOn_read_not_held (apart : Apart d.regions) (hrange : offset + count ≤ d.byteLength)
    (hserved : ServedIn storage good content d.regions offset (offset + count))
    (hheld : ¬ HeldIn content d.regions offset (offset + count)) {m : Machine σ} (hm : good m) :
    ∃ cause m', (d.read storage offset count).runOn m = (.error cause, m') ∧ good m' := by
  obtain ⟨cause, m', hpieces, hm'⟩ :=
    runOn_readPieces_not_held d.arrangement.table hserved hheld hm
  refine ⟨cause, m', ?_, hm'⟩
  rw [read_eq_flatRead apart storage hrange, VirtualDisk.flatRead,
    Action.runOn_bind_error hpieces]

/-- In a range without files nothing has to be served. -/
theorem servedIn_without_files {regions : List Region} {start stop : Nat}
    (hfiles : ∀ r ∈ regions, r.Meets start stop → ∀ file, r.content ≠ .file file)
    (storage : Storage σ) (good : Machine σ → Prop) :
    ServedIn storage good (fun _ => []) regions start stop ∧
      HeldIn (fun _ => []) regions start stop :=
  ⟨fun r hr hmeets file hfile => absurd hfile (hfiles r hr hmeets file),
    fun r hr hmeets file hfile => absurd hfile (hfiles r hr hmeets file)⟩

/-- A range without files is read without touching the machine. -/
theorem read_without_files (apart : Apart d.regions) (hrange : offset + count ≤ d.byteLength)
    (hfiles : ∀ r ∈ d.regions, r.Meets offset (offset + count) → ∀ file, r.content ≠ .file file)
    (storage : Storage σ) :
    d.read storage offset count = pure (d.imageBytes (fun _ => []) offset count) := by
  refine Action.ext_runOn fun m => ?_
  obtain ⟨hserved, hheld⟩ := servedIn_without_files hfiles storage (· = m)
  obtain ⟨m', hread, rfl⟩ := runOn_read_held apart hrange hserved hheld rfl
  exact hread

end Reads

/-! ## Reads in consecutive parts -/

/-- Consecutive parts of a range, given by their lengths, read one after the other. -/
def VirtualDisk.readInTurn (storage : Storage σ) (d : VirtualDisk) :
    (offset : Nat) → (counts : List Nat) → Action σ ReadError Bytes
  | _, [] => pure []
  | offset, count :: rest => do
      let head ← d.read storage offset count
      let tail ← readInTurn storage d (offset + count) rest
      return head ++ tail

theorem heldIn_add_iff {first second : Nat} :
    HeldIn content regions start (start + (first + second)) ↔
      HeldIn content regions start (start + first) ∧
        HeldIn content regions (start + first) (start + (first + second)) := by
  constructor
  · intro h
    exact ⟨h.mono (Nat.le_refl _) (by omega), h.mono (by omega) (Nat.le_refl _)⟩
  · rintro ⟨hfirst, hsecond⟩ r hr hmeets file hfile
    rw [segment_end hmeets]
    -- The part of the region that reaches furthest lies in the second range or ends the first.
    by_cases hlate : r.Meets (start + first) (start + (first + second))
    · have hpart := hsecond r hr hlate file hfile
      rwa [segment_end hlate] at hpart
    · unfold Region.Meets at hmeets hlate
      have hearly : r.Meets start (start + first) := by
        unfold Region.Meets
        omega
      have hpart := hfirst r hr hearly file hfile
      rw [segment_end hearly] at hpart
      omega

section Parts

variable {d : VirtualDisk} {counts : List Nat} {offset : Nat}

theorem runOn_readInTurn_held (apart : Apart d.regions)
    (hrange : offset + counts.sum ≤ d.byteLength)
    (hserved : ServedIn storage good content d.regions offset (offset + counts.sum))
    (hheld : HeldIn content d.regions offset (offset + counts.sum)) {m : Machine σ}
    (hm : good m) :
    ∃ m', (d.readInTurn storage offset counts).runOn m =
      (.ok (d.imageBytes content offset counts.sum), m') ∧ good m' := by
  induction counts generalizing offset m with
  | nil => exact ⟨m, rfl, hm⟩
  | cons count rest ih =>
      rw [List.sum_cons] at hrange hserved hheld ⊢
      obtain ⟨hfirst, hsecond⟩ := heldIn_add_iff.mp hheld
      rw [← Nat.add_assoc] at hrange hserved hsecond
      obtain ⟨m₁, hhead, hm₁⟩ := runOn_read_held apart (by omega)
        (hserved.mono (Nat.le_refl _) (by omega)) hfirst hm
      obtain ⟨m₂, htail, hm₂⟩ := ih hrange
        (hserved.mono (by omega) (Nat.le_refl _)) hsecond hm₁
      refine ⟨m₂, ?_, hm₂⟩
      rw [VirtualDisk.readInTurn, Action.runOn_bind_ok hhead, Action.runOn_bind_ok htail,
        Action.runOn_pure, VirtualDisk.imageBytes_add]

theorem runOn_readInTurn_not_held (apart : Apart d.regions)
    (hrange : offset + counts.sum ≤ d.byteLength)
    (hserved : ServedIn storage good content d.regions offset (offset + counts.sum))
    (hheld : ¬ HeldIn content d.regions offset (offset + counts.sum)) {m : Machine σ}
    (hm : good m) :
    ∃ cause m', (d.readInTurn storage offset counts).runOn m = (.error cause, m') ∧ good m' := by
  induction counts generalizing offset m with
  | nil =>
      -- An empty range meets no region.
      refine absurd (fun r hr hmeets => ?_) hheld
      unfold Region.Meets at hmeets
      simp only [List.sum_nil] at hmeets
      omega
  | cons count rest ih =>
      rw [List.sum_cons] at hrange hserved hheld
      rw [heldIn_add_iff, ← Nat.add_assoc] at hheld
      rw [← Nat.add_assoc] at hrange hserved
      have hhead : ServedIn storage good content d.regions offset (offset + count) :=
        hserved.mono (Nat.le_refl _) (by omega)
      by_cases hfirst : HeldIn content d.regions offset (offset + count)
      · obtain ⟨m₁, hread, hm₁⟩ := runOn_read_held apart (by omega) hhead hfirst hm
        obtain ⟨cause, m₂, htail, hm₂⟩ := ih hrange
          (hserved.mono (by omega) (Nat.le_refl _)) (fun hsecond => hheld ⟨hfirst, hsecond⟩) hm₁
        refine ⟨cause, m₂, ?_, hm₂⟩
        rw [VirtualDisk.readInTurn, Action.runOn_bind_ok hread, Action.runOn_bind_error htail]
      · obtain ⟨cause, m₁, hread, hm₁⟩ := runOn_read_not_held apart (by omega) hhead hfirst hm
        refine ⟨cause, m₁, ?_, hm₁⟩
        rw [VirtualDisk.readInTurn, Action.runOn_bind_error hread]

/-- Read at once or in consecutive parts, a range of served files brings the same bytes, or
none in both ways. -/
theorem readInTurn_ok_iff (apart : Apart d.regions)
    (hrange : offset + counts.sum ≤ d.byteLength)
    (hserved : ServedIn storage good content d.regions offset (offset + counts.sum))
    {m : Machine σ} (hm : good m) (data : Bytes) :
    (∃ m', (d.readInTurn storage offset counts).runOn m = (.ok data, m')) ↔
      ∃ m', (d.read storage offset counts.sum).runOn m = (.ok data, m') := by
  by_cases hheld : HeldIn content d.regions offset (offset + counts.sum)
  · obtain ⟨m₁, hparts, -⟩ := runOn_readInTurn_held apart hrange hserved hheld hm
    obtain ⟨m₂, hwhole, -⟩ := runOn_read_held apart hrange hserved hheld hm
    simp [hparts, hwhole]
  · obtain ⟨cause₁, m₁, hparts, -⟩ := runOn_readInTurn_not_held apart hrange hserved hheld hm
    obtain ⟨cause₂, m₂, hwhole, -⟩ := runOn_read_not_held apart hrange hserved hheld hm
    simp [hparts, hwhole]

/-- Parts of a range without files are read without touching the machine. -/
theorem readInTurn_without_files (apart : Apart d.regions)
    (hrange : offset + counts.sum ≤ d.byteLength)
    (hfiles : ∀ r ∈ d.regions, r.Meets offset (offset + counts.sum) →
      ∀ file, r.content ≠ .file file)
    (storage : Storage σ) :
    d.readInTurn storage offset counts =
      pure (d.imageBytes (fun _ => []) offset counts.sum) := by
  refine Action.ext_runOn fun m => ?_
  obtain ⟨hserved, hheld⟩ := servedIn_without_files hfiles storage (· = m)
  obtain ⟨m', hread, rfl⟩ := runOn_readInTurn_held apart hrange hserved hheld rfl
  exact hread

end Parts

end BootVolume.Image
