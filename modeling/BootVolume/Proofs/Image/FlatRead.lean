import BootVolume.Image.Disk
import BootVolume.Proofs.Files.Entry

/-!
# Reading a disk region by region

`VirtualDisk.read` finds the regions that a range touches by search and stops at
the first one behind it.  The reading that needs no order at all is
`VirtualDisk.flatRead`: it looks at every region, reads the part of it that lies
in the range, and copies these parts over zeros, byte by byte.

The two agree on a list of regions that stand `Apart`.  The argument has three
steps: the search splits the list where the regions begin to reach into the
range (`splitPoint_append`), the regions left out contribute nothing
(`overlay_touchedRegions`), and splicing pieces into a buffer is the same as
asking each byte for the last piece over it (`getD_splices`).

Inside the disk a reading fails just if the source of a file in the range does,
at the turn of this file (`runOn_read_eq_error_iff`).
-/

namespace BootVolume.Image

open Files

variable {σ : Type}

/-- Regions in the order of their starts, none empty and no two sharing a byte. -/
structure Apart (regions : List Region) : Prop where
  nonempty : ∀ r ∈ regions, 0 < r.length
  ordered : regions.Pairwise fun r s => r.stop ≤ s.start

/-! ## Flat reading -/

/-- Bytes with their place in the answer to a request. -/
structure Piece where
  place : Nat
  data : Bytes

/-- Whether a piece has a byte for the given position of the answer. -/
def Piece.Covers (p : Piece) (i : Nat) : Prop := p.place ≤ i ∧ i < p.place + p.data.length

instance (p : Piece) (i : Nat) : Decidable (p.Covers i) :=
  inferInstanceAs (Decidable (_ ∧ _))

/-- The byte at a position of the answer after one more piece is copied over it. -/
def Piece.over (i : Nat) (below : UInt8) (p : Piece) : UInt8 :=
  if p.Covers i then p.data.getD (i - p.place) 0 else below

/-- Whether a region has a byte in the range from `start` to `stop`. -/
def Region.Meets (r : Region) (start stop : Nat) : Prop := max start r.start < min stop r.stop

instance (r : Region) (start stop : Nat) : Decidable (r.Meets start stop) :=
  inferInstanceAs (Decidable (_ < _))

/-- The part of a region that lies in the range from `start` to `stop`: its position in
the region and its length. -/
def Region.segment (r : Region) (start stop : Nat) : Nat × Nat :=
  (max start r.start - r.start, min stop r.stop - max start r.start)

/-- The parts of all regions that lie in a range, read one after the other. -/
def readPieces (storage : Storage σ) (table : Fat.Table) (start stop : Nat) :
    List Region → Action σ ReadError (List Piece)
  | [] => pure []
  | r :: rest =>
      if r.Meets start stop then do
        let (position, length) := r.segment start stop
        let data ← r.content.read storage table position length
        let others ← readPieces storage table start stop rest
        return ⟨max start r.start - start, data⟩ :: others
      else readPieces storage table start stop rest

section Pieces

variable (storage : Storage σ) (table : Fat.Table) {start stop : Nat}

theorem readPieces_cons_of_meets {r : Region} (hmeets : r.Meets start stop)
    (rest : List Region) :
    readPieces storage table start stop (r :: rest) =
      r.content.read storage table (r.segment start stop).1 (r.segment start stop).2 >>= fun data =>
        readPieces storage table start stop rest >>= fun others =>
          pure (⟨max start r.start - start, data⟩ :: others) := by
  rw [readPieces, if_pos hmeets]

theorem readPieces_cons_of_not_meets {r : Region} (hmeets : ¬ r.Meets start stop)
    (rest : List Region) :
    readPieces storage table start stop (r :: rest) =
      readPieces storage table start stop rest := by
  rw [readPieces, if_neg hmeets]

theorem readPieces_skip {regions : List Region} (hskip : ∀ r ∈ regions, ¬ r.Meets start stop) :
    readPieces storage table start stop regions = pure [] := by
  induction regions with
  | nil => rfl
  | cons r rest ih =>
      rw [readPieces_cons_of_not_meets storage table (hskip r (List.mem_cons_self ..))]
      exact ih fun s hs => hskip s (List.mem_cons_of_mem _ hs)

theorem readPieces_append (start stop : Nat) (first second : List Region) :
    readPieces storage table start stop (first ++ second) =
      readPieces storage table start stop first >>= fun pieces =>
        readPieces storage table start stop second >>= fun others => pure (pieces ++ others) := by
  induction first with
  | nil => simp only [List.nil_append, readPieces, pure_bind, bind_pure]
  | cons r rest ih =>
      simp only [List.cons_append, readPieces]
      split
      · simp only [ih, bind_assoc, pure_bind, List.cons_append]
      · exact ih

end Pieces

/-- The `count` bytes from `offset`, each the byte of the last region over it or zero. -/
def VirtualDisk.flatRead (storage : Storage σ) (d : VirtualDisk) (offset count : Nat) :
    Action σ ReadError Bytes := do
  let pieces ← readPieces storage d.arrangement.table offset (offset + count) d.regions
  return (List.range count).map fun i => pieces.foldl (Piece.over i) 0

/-! ## Searching -/

theorem splitPoint_append {α : Type} {p : α → Bool} {before after : List α}
    (hbefore : ∀ x ∈ before, p x = true) (hafter : ∀ x ∈ after, p x = false)
    {base size : Nat} (hbase : base ≤ before.length) (hreach : before.length ≤ base + size)
    (hend : base + size ≤ (before ++ after).length) :
    splitPoint p (before ++ after) base size = before.length := by
  -- The place sought stays between `base` and `base + size` while that stretch is halved.
  have hbelow : ∀ {i}, i < before.length → ((before ++ after)[i]?).any p = true := by
    intro i hi
    rw [List.getElem?_append_left hi, List.getElem?_eq_getElem hi]
    exact hbefore _ (List.getElem_mem hi)
  have habove : ∀ {i}, before.length ≤ i → ((before ++ after)[i]?).any p = false := by
    intro i hi
    rw [List.getElem?_append_right hi]
    cases hget : after[i - before.length]? with
    | none => rfl
    | some x => exact hafter x (List.mem_of_getElem? hget)
  induction size using Nat.strongRecOn generalizing base with
  | ind size ih =>
      unfold splitPoint
      by_cases hsize : 1 < size
      · simp only [if_pos hsize]
        by_cases hmiddle : base + size / 2 < before.length
        · rw [if_pos (hbelow hmiddle)]
          exact ih _ (by omega) (by omega) (by omega) (by omega)
        · rw [if_neg (by rw [habove (Nat.not_lt.mp hmiddle)]; decide)]
          exact ih _ (by omega) hbase (by omega) (by omega)
      · rw [if_neg hsize]
        by_cases hlast : base < before.length
        · rw [if_pos (hbelow hlast)]
          omega
        · rw [if_neg (by rw [habove (Nat.not_lt.mp hlast)]; decide)]
          omega

/-! ## Regions outside of the range -/

theorem overlay_skip (storage : Storage σ) (table : Fat.Table) {start stop : Nat}
    {regions : List Region} (hskip : ∀ r ∈ regions, ¬ r.Meets start stop) (buffer : Bytes) :
    overlay storage table start stop buffer regions = pure buffer := by
  induction regions with
  | nil => rfl
  | cons r rest ih =>
      have hr : ¬ max start r.start < min stop r.stop := hskip r (List.mem_cons_self ..)
      simp only [overlay, if_neg hr]
      exact ih fun s hs => hskip s (List.mem_cons_of_mem _ hs)

theorem overlay_append (storage : Storage σ) (table : Fat.Table) (start stop : Nat)
    (buffer : Bytes) (first second : List Region) :
    overlay storage table start stop buffer (first ++ second) =
      overlay storage table start stop buffer first >>= fun filled =>
        overlay storage table start stop filled second := by
  induction first generalizing buffer with
  | nil => exact (pure_bind _ _).symm
  | cons r rest ih =>
      simp only [List.cons_append, overlay]
      split
      · simp only [ih, bind_assoc]
      · exact ih buffer

theorem dropWhile_eq_false {α : Type} {p : α → Bool} {xs : List α}
    (h : xs.Pairwise fun x y => p y = true → p x = true) :
    ∀ x ∈ xs.dropWhile p, p x = false := by
  induction xs with
  | nil => simp
  | cons x rest ih =>
      rw [List.pairwise_cons] at h
      by_cases hx : p x = true
      · rw [List.dropWhile_cons_of_pos hx]
        exact ih h.2
      · rw [List.dropWhile_cons_of_neg hx]
        intro y hy
        rcases List.mem_cons.mp hy with rfl | hy
        · simpa using hx
        · exact Bool.eq_false_iff.mpr fun htrue => hx (h.1 y hy htrue)

theorem Region.start_le_stop (r : Region) : r.start ≤ r.stop := Nat.le_add_right ..

/-- The search finds the regions that end at or before a bound. -/
theorem Apart.splitPoint_eq {regions : List Region} (apart : Apart regions) (bound : Nat) :
    splitPoint (fun r => decide (r.stop ≤ bound)) regions 0 regions.length =
      (regions.takeWhile fun r => decide (r.stop ≤ bound)).length := by
  have hsplit := (List.takeWhile_append_dropWhile
    (p := fun r : Region => decide (r.stop ≤ bound)) (l := regions)).symm
  have hafter := dropWhile_eq_false (p := fun r : Region => decide (r.stop ≤ bound)) <|
    apart.ordered.imp fun {r s} hle => by
      have := s.start_le_stop
      simp only [decide_eq_true_eq]
      omega
  conv_lhs => rw [hsplit]
  refine splitPoint_append (fun r hr => ?_) hafter (Nat.zero_le _)
    (by rw [List.length_append]; omega) (by omega)
  exact List.mem_takeWhile_imp (p := fun r : Region => decide (r.stop ≤ bound)) hr

theorem overlay_touchedRegions (storage : Storage σ) (table : Fat.Table)
    {regions : List Region} (apart : Apart regions) (start stop : Nat) (buffer : Bytes) :
    overlay storage table start stop buffer (touchedRegions regions start stop) =
      overlay storage table start stop buffer regions := by
  -- The regions before the range, those touched, and those behind it.
  set before := regions.takeWhile fun r => decide (r.stop ≤ start) with hbefore
  set others := regions.dropWhile fun r => decide (r.stop ≤ start) with hothers
  have hsplit : regions = before ++ others := (List.takeWhile_append_dropWhile ..).symm
  have htouched : touchedRegions regions start stop =
      others.takeWhile fun r => decide (r.start < stop) := by
    simp only [touchedRegions, apart.splitPoint_eq, ← hbefore]
    congr 1
    conv_lhs => rw [hsplit]
    exact List.drop_left
  have hordered : others.Pairwise fun r s => r.stop ≤ s.start :=
    apart.ordered.sublist (List.dropWhile_sublist _)
  have hbehind := dropWhile_eq_false (p := fun r : Region => decide (r.start < stop)) <|
    hordered.imp fun {r s} hle => by
      have := r.start_le_stop
      simp only [decide_eq_true_eq]
      omega
  have hskipBefore : ∀ r ∈ before, ¬ r.Meets start stop := by
    intro r hr
    have hle := List.mem_takeWhile_imp (p := fun r : Region => decide (r.stop ≤ start)) hr
    simp only [decide_eq_true_eq] at hle
    unfold Region.Meets
    omega
  have hskipBehind : ∀ r ∈ others.dropWhile fun r => decide (r.start < stop),
      ¬ r.Meets start stop := by
    intro r hr
    have hle := hbehind r hr
    simp only [decide_eq_false_iff_not] at hle
    unfold Region.Meets
    omega
  calc overlay storage table start stop buffer (touchedRegions regions start stop)
      = overlay storage table start stop buffer
          (others.takeWhile fun r => decide (r.start < stop)) := by rw [htouched]
    _ = overlay storage table start stop buffer
          (others.takeWhile (fun r => decide (r.start < stop)) ++
            others.dropWhile fun r => decide (r.start < stop)) := by
        rw [overlay_append]
        simp only [overlay_skip storage table hskipBehind, bind_pure]
    _ = overlay storage table start stop buffer others := by
        rw [List.takeWhile_append_dropWhile]
    _ = overlay storage table start stop buffer regions := by
        conv_rhs => rw [hsplit, overlay_append, overlay_skip storage table hskipBefore]
        rw [pure_bind]

/-! ## Splicing pieces -/

/-- The buffer after a piece is written over it. -/
def Piece.splice (buffer : Bytes) (p : Piece) : Bytes := Bytes.splice buffer p.place p.data

theorem overlay_eq_readPieces (storage : Storage σ) (table : Fat.Table) (start stop : Nat)
    (regions : List Region) (buffer : Bytes) :
    overlay storage table start stop buffer regions =
      readPieces storage table start stop regions >>= fun pieces =>
        pure (pieces.foldl Piece.splice buffer) := by
  induction regions generalizing buffer with
  | nil => exact (pure_bind _ _).symm
  | cons r rest ih =>
      by_cases hmeets : r.Meets start stop
      · have hlt : max start r.start < min stop r.stop := hmeets
        rw [readPieces_cons_of_meets storage table hmeets]
        simp only [overlay, if_pos hlt, Region.segment, bind_assoc, pure_bind, List.foldl_cons]
        congr 1
        funext data
        exact ih _
      · have hlt : ¬ max start r.start < min stop r.stop := hmeets
        rw [readPieces_cons_of_not_meets storage table hmeets, overlay, if_neg hlt]
        exact ih buffer

theorem Content.length_of_read {content : Content} {storage : Storage σ} {table : Fat.Table}
    {position length : Nat} {m m' : Machine σ} {data : Bytes}
    (h : (content.read storage table position length).runOn m = (.ok data, m')) :
    data.length ≤ length := by
  cases content with
  | bytes stored =>
      cases h
      rw [Bytes.length_slice]
      omega
  | table =>
      cases h
      exact le_of_eq (Fat.Table.length_read ..)
  | file entry => exact le_of_eq (FileEntry.length_of_read h)

/-- Every piece is read from a region that meets the range, and holds no more than its segment. -/
theorem exists_region_of_piece {storage : Storage σ} {table : Fat.Table} {start stop : Nat}
    {regions : List Region} {m m' : Machine σ} {pieces : List Piece}
    (h : (readPieces storage table start stop regions).runOn m = (.ok pieces, m'))
    {p : Piece} (hp : p ∈ pieces) :
    ∃ r ∈ regions, r.Meets start stop ∧ p.place = max start r.start - start ∧
      p.data.length ≤ (r.segment start stop).2 := by
  induction regions generalizing m pieces with
  | nil =>
      cases h
      cases hp
  | cons r rest ih =>
      have hothers : ∀ {m : Machine σ} {others : List Piece},
          (readPieces storage table start stop rest).runOn m = (.ok others, m') → p ∈ others →
            ∃ s ∈ r :: rest, s.Meets start stop ∧ p.place = max start s.start - start ∧
              p.data.length ≤ (s.segment start stop).2 := by
        intro m others hrest hp
        obtain ⟨s, hs, hpiece⟩ := ih hrest hp
        exact ⟨s, List.mem_cons_of_mem _ hs, hpiece⟩
      by_cases hmeets : r.Meets start stop
      · rw [readPieces_cons_of_meets storage table hmeets] at h
        obtain ⟨data, m₁, hdata, h⟩ := Action.runOn_bind_eq_ok h
        obtain ⟨others, m₂, hrest, hpure⟩ := Action.runOn_bind_eq_ok h
        cases hpure
        rcases List.mem_cons.mp hp with rfl | hp
        · exact ⟨r, List.mem_cons_self .., hmeets, rfl, Content.length_of_read hdata⟩
        · exact hothers hrest hp
      · rw [readPieces_cons_of_not_meets storage table hmeets] at h
        exact hothers h hp

/-- Pieces lie inside the answer. -/
theorem fits_of_readPieces {storage : Storage σ} {table : Fat.Table} {start stop : Nat}
    {regions : List Region} {m m' : Machine σ} {pieces : List Piece}
    (h : (readPieces storage table start stop regions).runOn m = (.ok pieces, m')) :
    ∀ p ∈ pieces, p.place + p.data.length ≤ stop - start := by
  intro p hp
  obtain ⟨r, -, hmeets, hplace, hlength⟩ := exists_region_of_piece h hp
  unfold Region.Meets at hmeets
  simp only [Region.segment] at hlength
  omega

theorem length_splices {size : Nat} {pieces : List Piece}
    (hfits : ∀ p ∈ pieces, p.place + p.data.length ≤ size) {buffer : Bytes}
    (hsize : buffer.length = size) : (pieces.foldl Piece.splice buffer).length = size := by
  induction pieces generalizing buffer with
  | nil => exact hsize
  | cons p rest ih =>
      have hp := hfits p (List.mem_cons_self ..)
      refine ih (fun q hq => hfits q (List.mem_cons_of_mem _ hq)) ?_
      rw [Piece.splice, Bytes.length_splice _ _ _ (by omega), hsize]

theorem getD_splices {size : Nat} {pieces : List Piece}
    (hfits : ∀ p ∈ pieces, p.place + p.data.length ≤ size) {buffer : Bytes}
    (hsize : buffer.length = size) (i : Nat) :
    (pieces.foldl Piece.splice buffer).getD i 0 = pieces.foldl (Piece.over i) (buffer.getD i 0) := by
  induction pieces generalizing buffer with
  | nil => rfl
  | cons p rest ih =>
      have hp := hfits p (List.mem_cons_self ..)
      have hlength : (Piece.splice buffer p).length = size := by
        rw [Piece.splice, Bytes.length_splice _ _ _ (by omega), hsize]
      rw [List.foldl_cons, ih (fun q hq => hfits q (List.mem_cons_of_mem _ hq)) hlength,
        List.foldl_cons]
      congr 1
      exact Bytes.getD_splice (by omega) i

theorem splices_zeros {size : Nat} {pieces : List Piece}
    (hfits : ∀ p ∈ pieces, p.place + p.data.length ≤ size) :
    pieces.foldl Piece.splice (Bytes.zeros size) =
      (List.range size).map fun i => pieces.foldl (Piece.over i) 0 := by
  have hlength := length_splices hfits (Bytes.length_zeros size)
  refine List.ext_getElem (by simp [hlength]) fun i hi _ => ?_
  have hzero : (Bytes.zeros size).getD i 0 = 0 := by
    rw [List.getD_eq_getElem?_getD, Bytes.getElem?_zeros]
    split <;> rfl
  have hbyte := getD_splices hfits (Bytes.length_zeros size) i
  rw [List.getD_eq_getElem _ _ hi, hzero] at hbyte
  simpa using hbyte

/-! ## The two readings -/

/-- Inside the disk the sparse reading is the flat one. -/
theorem read_eq_flatRead {d : VirtualDisk} (apart : Apart d.regions) (storage : Storage σ)
    {offset count : Nat} (hrange : offset + count ≤ d.byteLength) :
    d.read storage offset count = d.flatRead storage offset count := by
  have hread : d.read storage offset count =
      readPieces storage d.arrangement.table offset (offset + count) d.regions >>= fun pieces =>
        pure (pieces.foldl Piece.splice (Bytes.zeros count)) := by
    simp only [VirtualDisk.read, if_neg (Nat.not_lt.mpr hrange)]
    rw [overlay_touchedRegions storage _ apart, overlay_eq_readPieces]
  rw [hread]
  refine Action.ext_runOn fun m => ?_
  unfold VirtualDisk.flatRead
  simp only [Action.runOn_bind]
  rcases hpieces : (readPieces storage d.arrangement.table offset (offset + count)
      d.regions).runOn m with ⟨pieces | pieces, m'⟩
  · rfl
  · have hfits := fits_of_readPieces hpieces
    rw [Nat.add_sub_cancel_left] at hfits
    simp only [splices_zeros hfits]

/-- A request that reaches past the end of the disk is refused. -/
theorem read_outOfRange {d : VirtualDisk} (storage : Storage σ) {offset count : Nat}
    (hrange : d.byteLength < offset + count) :
    d.read storage offset count = throw (.outOfRange offset count) := by
  simp only [VirtualDisk.read, if_pos hrange]

/-! ## Fewer regions -/

/-- The disk without the regions that end at or before a position. -/
def VirtualDisk.behind (d : VirtualDisk) (position : Nat) : VirtualDisk :=
  { d with regions := d.regions.filter fun r => decide (position < r.stop) }

theorem readPieces_filter (storage : Storage σ) (table : Fat.Table) {start stop : Nat}
    {keep : Region → Bool} {regions : List Region}
    (hskip : ∀ r ∈ regions, keep r = false → ¬ r.Meets start stop) :
    readPieces storage table start stop (regions.filter keep) =
      readPieces storage table start stop regions := by
  induction regions with
  | nil => rfl
  | cons r rest ih =>
      have ih := ih fun s hs => hskip s (List.mem_cons_of_mem _ hs)
      cases hkeep : keep r with
      | true =>
          rw [List.filter_cons_of_pos hkeep]
          simp only [readPieces, ih]
      | false =>
          rw [List.filter_cons_of_neg (by rw [hkeep]; decide), ih,
            readPieces_cons_of_not_meets storage table (hskip r (List.mem_cons_self ..) hkeep)]

/-- What stands before a range makes no difference to a read of it. -/
theorem read_behind {d : VirtualDisk} (apart : Apart d.regions) (storage : Storage σ)
    {position offset : Nat} (hposition : position ≤ offset) (count : Nat) :
    (d.behind position).read storage offset count = d.read storage offset count := by
  have hapart : Apart (d.behind position).regions :=
    ⟨fun r hr => apart.nonempty r (List.mem_of_mem_filter hr), apart.ordered.filter _⟩
  by_cases hrange : offset + count ≤ d.byteLength
  · rw [read_eq_flatRead apart storage hrange, read_eq_flatRead hapart storage hrange]
    unfold VirtualDisk.flatRead VirtualDisk.behind
    rw [readPieces_filter]
    intro r hr hbefore
    have hstop : ¬ position < r.stop := of_decide_eq_false hbefore
    unfold Region.Meets
    omega
  · have hbeyond := Nat.not_le.mp hrange
    rw [read_outOfRange storage hbeyond]
    exact read_outOfRange storage hbeyond

/-! ## Failures -/

/-- What is kept in memory can always be read. -/
theorem Content.exists_file_of_read_error {content : Content} {storage : Storage σ}
    {table : Fat.Table} {position length : Nat} {m m' : Machine σ} {cause : ReadError}
    (h : (content.read storage table position length).runOn m = (.error cause, m')) :
    ∃ file, content = .file file ∧
      (file.source.readExact storage position length).runOn m = (.error cause, m') := by
  cases content with
  | bytes data => cases h
  | table => cases h
  | file file => exact ⟨file, rfl, FileEntry.runOn_read_eq_error_iff.mp h⟩

/-- The source of a file in the range fails when it is the turn of this file: the parts of the
regions before it have been read. -/
def FailsInTurn (storage : Storage σ) (table : Fat.Table) (start stop : Nat)
    (regions : List Region) (m : Machine σ) (cause : ReadError) (m' : Machine σ) : Prop :=
  ∃ before r after file pieces m₁, regions = before ++ r :: after ∧ r.content = .file file ∧
    r.Meets start stop ∧
    (readPieces storage table start stop before).runOn m = (.ok pieces, m₁) ∧
    (file.source.readExact storage (r.segment start stop).1 (r.segment start stop).2).runOn m₁ =
      (.error cause, m')

/-- Reading the parts of regions fails just if a source does when it is its turn. -/
theorem runOn_readPieces_eq_error_iff {storage : Storage σ} {table : Fat.Table}
    {start stop : Nat} {regions : List Region} {m m' : Machine σ} {cause : ReadError} :
    (readPieces storage table start stop regions).runOn m = (.error cause, m') ↔
      FailsInTurn storage table start stop regions m cause m' := by
  constructor
  · intro h
    induction regions generalizing m with
    | nil => cases h
    | cons r rest ih =>
        by_cases hmeets : r.Meets start stop
        · rw [readPieces_cons_of_meets storage table hmeets] at h
          rcases Action.runOn_bind_eq_error h with hread | ⟨data, m₁, hread, hothers⟩
          · -- This region is the one to blame; otherwise it has been read before the one that is.
            obtain ⟨file, hfile, hsource⟩ := Content.exists_file_of_read_error hread
            exact ⟨[], r, rest, file, [], m, rfl, hfile, hmeets, rfl, hsource⟩
          · rcases Action.runOn_bind_eq_error hothers with hrest | ⟨others, m₂, -, hpure⟩
            · obtain ⟨before, s, after, file, pieces, m₂, rfl, hfile, hs, hbefore, hsource⟩ :=
                ih hrest
              refine ⟨r :: before, s, after, file, ⟨max start r.start - start, data⟩ :: pieces, m₂,
                rfl, hfile, hs, ?_, hsource⟩
              rw [readPieces_cons_of_meets storage table hmeets, Action.runOn_bind_ok hread,
                Action.runOn_bind_ok hbefore, Action.runOn_pure]
            · cases hpure
        · rw [readPieces_cons_of_not_meets storage table hmeets] at h
          obtain ⟨before, s, after, file, pieces, m₂, rfl, hfile, hs, hbefore, hsource⟩ := ih h
          refine ⟨r :: before, s, after, file, pieces, m₂, rfl, hfile, hs, ?_, hsource⟩
          rwa [readPieces_cons_of_not_meets storage table hmeets]
  · rintro ⟨before, r, after, file, pieces, m₁, rfl, hfile, hmeets, hbefore, hsource⟩
    have hread : (r.content.read storage table (r.segment start stop).1
        (r.segment start stop).2).runOn m₁ = (.error cause, m') := by
      rw [hfile]
      exact FileEntry.runOn_read_eq_error_iff.mpr hsource
    rw [readPieces_append, Action.runOn_bind_ok hbefore,
      readPieces_cons_of_meets storage table hmeets]
    exact Action.runOn_bind_error (Action.runOn_bind_error hread _) _

/-- A failure to read pieces is the failure to read a file. -/
theorem exists_file_of_readPieces_error {storage : Storage σ} {table : Fat.Table}
    {start stop : Nat} {regions : List Region} {m m' : Machine σ} {cause : ReadError}
    (h : (readPieces storage table start stop regions).runOn m = (.error cause, m')) :
    ∃ r ∈ regions, ∃ file, r.content = .file file ∧ r.Meets start stop ∧ ∃ m₁,
      (file.read storage (r.segment start stop).1 (r.segment start stop).2).runOn m₁ =
        (.error cause, m') := by
  obtain ⟨before, r, after, file, -, m₁, rfl, hfile, hmeets, -, hsource⟩ :=
    runOn_readPieces_eq_error_iff.mp h
  exact ⟨r, List.mem_append_right _ (List.mem_cons_self ..), file, hfile, hmeets, m₁,
    FileEntry.runOn_read_eq_error_iff.mpr hsource⟩

/-- Inside the disk a read fails just if a source does when it is its turn. -/
theorem runOn_read_eq_error_iff {d : VirtualDisk} (apart : Apart d.regions) {storage : Storage σ}
    {offset count : Nat} (hrange : offset + count ≤ d.byteLength) {m m' : Machine σ}
    {cause : ReadError} :
    (d.read storage offset count).runOn m = (.error cause, m') ↔
      FailsInTurn storage d.arrangement.table offset (offset + count) d.regions m cause m' := by
  rw [read_eq_flatRead apart storage hrange, ← runOn_readPieces_eq_error_iff]
  unfold VirtualDisk.flatRead
  constructor
  · intro h
    rcases Action.runOn_bind_eq_error h with hpieces | ⟨pieces, m₁, -, hpure⟩
    · exact hpieces
    · cases hpure
  · exact fun hpieces => Action.runOn_bind_error hpieces _

end BootVolume.Image
