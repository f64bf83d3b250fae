import BootVolume.Proofs.Newc.Header
import BootVolume.Proofs.Text.Utf8

/-!
# What a reader finds

`Record.Begins` says that a record stands at the start of some bytes: it is what
`takeRecord` checks.  A record that begins bytes still does so when more bytes
follow (`Record.Begins.append`).  The records of a stream follow from two steps:
zeros are skipped (`recordsFrom_zeros`), and a record that begins the bytes is
found and passed over (`recordsFrom_of_begins`).  Read backwards, they say that
each record stands at its offset (`begins_of_mem`).
-/

namespace BootVolume.Newc

variable {data rest : Bytes} {offset : Nat}

namespace Record

/-- The length that a record takes up with both paddings. -/
def span (r : Record) : Nat :=
  recordStart r.header.namesize.toNat + align4 r.header.filesize.toNat

/-- The record stands at the start of `data`. -/
structure Begins (r : Record) (data : Bytes) : Prop where
  header : Header.parse data r.offset = .ok r.header
  name_fits : headerLength + r.header.namesize.toNat ≤ data.length
  name : Text.ofUtf8? (stripNuls (Bytes.slice data headerLength r.header.namesize.toNat)) =
    some r.name
  data_fits : r.header.filesize.toNat = 0 ∨
    recordStart r.header.namesize.toNat + r.header.filesize.toNat ≤ data.length
  data_eq : r.data =
    Bytes.slice data (recordStart r.header.namesize.toNat) r.header.filesize.toNat

/-- The record in another place. -/
def moveTo (r : Record) (offset : Nat) : Record := { r with offset }

theorem span_mod (r : Record) : r.span % 4 = 0 := by
  unfold span recordStart align4
  omega

theorem span_pos (r : Record) : 0 < r.span := by
  unfold span recordStart align4 headerLength
  omega

namespace Begins

variable {r : Record}

/-- The last bytes of a record may only be missing up to a multiple of four. -/
theorem span_le (begins : r.Begins data) : r.span ≤ align4 data.length := by
  have hname := begins.name_fits
  have hdata := begins.data_fits
  unfold span
  unfold recordStart align4 at *
  omega

/-- Neither bytes behind the record nor its place make a difference. -/
theorem append (begins : r.Begins data) (rest : Bytes) (offset : Nat) :
    (r.moveTo offset).Begins (data ++ rest) where
  header := Header.parse_append begins.header rest offset
  name_fits := by
    rw [List.length_append]
    exact Nat.le_trans begins.name_fits (Nat.le_add_right ..)
  name := by
    show Text.ofUtf8? (stripNuls
      (Bytes.slice (data ++ rest) headerLength r.header.namesize.toNat)) = some r.name
    rw [Bytes.slice_append_left begins.name_fits, begins.name]
  data_fits := by
    rw [List.length_append]
    exact begins.data_fits.imp_right fun h => Nat.le_trans h (Nat.le_add_right ..)
  data_eq := by
    refine begins.data_eq.trans ?_
    rcases begins.data_fits with hzero | hfits
    · show _ = Bytes.slice (data ++ rest) _ r.header.filesize.toNat
      rw [hzero, Bytes.slice_zero_count, Bytes.slice_zero_count]
    · exact (Bytes.slice_append_left hfits rest).symm

/-- A record begins with a digit. -/
theorem exists_cons (begins : r.Begins data) : ∃ b rest, data = b :: rest ∧ (b == 0) = false := by
  obtain ⟨-, hmagic, -⟩ := Header.parse_eq_ok_iff.mp begins.header
  cases data with
  | nil => cases hmagic
  | cons b rest =>
      refine ⟨b, rest, rfl, ?_⟩
      have hb : b = 48 := (List.cons.inj hmagic).1
      rw [hb]
      rfl

end Begins

end Record

/-- The checks of a record in their order: its header, the reach of its name, the text of its
name, the reach of its content. -/
theorem takeRecord_eq (data : Bytes) (offset : Nat) :
    takeRecord data offset =
      match Header.parse data offset with
      | .error cause => .error cause
      | .ok header =>
          let nameLength := header.namesize.toNat
          let size := header.filesize.toNat
          if data.length < headerLength + nameLength then .error (.truncated offset)
          else
            match Text.ofUtf8? (stripNuls (Bytes.slice data headerLength nameLength)) with
            | none => .error (.badName offset)
            | some name =>
                if size ≠ 0 ∧ data.length < recordStart nameLength + size then
                  .error (.truncated offset)
                else
                  let content := Bytes.slice data (recordStart nameLength) size
                  let record : Record := { header, name, data := content, offset }
                  .ok ⟨record, record.span, record.span_pos⟩ := by
  unfold takeRecord
  cases Header.parse data offset with
  | error cause => rfl
  | ok header =>
      rw [ok_bind]
      by_cases hname : data.length < headerLength + header.namesize.toNat
      · simp only [if_pos hname]
        rfl
      · simp only [if_neg hname]
        cases Text.ofUtf8?
            (stripNuls (Bytes.slice data headerLength header.namesize.toNat)) with
        | none => rfl
        | some name =>
            by_cases hdata : header.filesize.toNat ≠ 0 ∧
                data.length < recordStart header.namesize.toNat + header.filesize.toNat
            · simp only [if_pos hdata]
              rfl
            · simp only [if_neg hdata]
              rfl

theorem takeRecord_eq_ok_iff {taken : Taken} :
    takeRecord data offset = .ok taken ↔
      taken.record.offset = offset ∧ taken.record.Begins data ∧
        taken.length = taken.record.span := by
  rw [takeRecord_eq]
  constructor
  · intro h
    split at h
    · cases h
    rename_i header hheader
    dsimp only at h
    split at h
    · cases h
    rename_i hname
    split at h
    · cases h
    rename_i name hutf8
    split at h
    · cases h
    rename_i hdata
    cases h
    refine ⟨rfl, ⟨hheader, Nat.not_lt.mp hname, hutf8, ?_, rfl⟩, rfl⟩
    simp only
    omega
  · rintro ⟨rfl, begins, hlength⟩
    have hdata : ¬ (taken.record.header.filesize.toNat ≠ 0 ∧
        data.length < recordStart taken.record.header.namesize.toNat +
          taken.record.header.filesize.toNat) := by
      have := begins.data_fits
      omega
    have hname := Nat.not_lt.mpr begins.name_fits
    rw [begins.header]
    simp only [if_neg hname, begins.name, if_neg hdata, ← begins.data_eq]
    rcases taken with ⟨record, length, hpos⟩
    simp only at hlength
    subst hlength
    rfl

/-! ## Streams -/

theorem recordsFrom_eq (offset : Nat) (data : Bytes) :
    recordsFrom offset data =
      match data.dropWhile (· == 0) with
      | [] => []
      | b :: rest =>
          match takeRecord (b :: rest) (offset + (data.length - (b :: rest).length)) with
          | .error cause => [.error cause]
          | .ok taken =>
              .ok taken.record ::
                recordsFrom (offset + (data.length - (b :: rest).length) + taken.length)
                  ((b :: rest).drop taken.length) := by
  rw [recordsFrom]
  split
  · rename_i h
    simp only [h]
  · rename_i b rest h
    generalize data.dropWhile (· == 0) = dropped at h ⊢
    subst h
    rfl

theorem recordsFrom_nil (offset : Nat) : recordsFrom offset [] = [] := by
  rw [recordsFrom_eq]
  rfl

/-- Zeros before a record are skipped. -/
theorem recordsFrom_zeros (offset count : Nat) (data : Bytes) :
    recordsFrom offset (Bytes.zeros count ++ data) = recordsFrom (offset + count) data := by
  have hzeros : ∀ b ∈ Bytes.zeros count, (b == 0) = true := by
    intro b hb
    rw [List.eq_of_mem_replicate hb]
    rfl
  rw [recordsFrom_eq, recordsFrom_eq (offset + count), List.dropWhile_append_of_pos hzeros]
  cases hdrop : data.dropWhile (· == 0) with
  | nil => rfl
  | cons b rest =>
      have hle : (b :: rest).length ≤ data.length := by
        rw [← hdrop]
        exact (List.dropWhile_sublist _).length_le
      have hstart : offset + ((Bytes.zeros count ++ data).length - (b :: rest).length) =
          offset + count + (data.length - (b :: rest).length) := by
        rw [List.length_append, Bytes.length_zeros]
        omega
      simp only [hstart]

theorem recordsFrom_of_begins {r : Record} (begins : r.Begins data) (hoffset : r.offset = offset) :
    recordsFrom offset data = .ok r :: recordsFrom (offset + r.span) (data.drop r.span) := by
  obtain ⟨b, rest, rfl, hb⟩ := begins.exists_cons
  have hpos : 0 < r.span := r.span_pos
  have htake : takeRecord (b :: rest) offset = .ok ⟨r, r.span, hpos⟩ :=
    takeRecord_eq_ok_iff.mpr ⟨hoffset, begins, rfl⟩
  rw [recordsFrom_eq, List.dropWhile_cons_of_neg (by rw [hb]; decide)]
  simp only [Nat.sub_self, Nat.add_zero, htake]

theorem exists_zeros_append (data : Bytes) :
    ∃ count, data = Bytes.zeros count ++ data.dropWhile (· == 0) := by
  refine ⟨(data.takeWhile (· == 0)).length, ?_⟩
  have hzeros : data.takeWhile (· == 0) = Bytes.zeros (data.takeWhile (· == 0)).length :=
    List.eq_replicate_of_mem fun b hb => eq_of_beq (List.mem_takeWhile_imp (p := (· == 0)) hb)
  rw [← hzeros, List.takeWhile_append_dropWhile]

/-- Without a record there are only zeros. -/
theorem eq_zeros_of_recordsFrom (h : recordsFrom offset data = []) :
    data = Bytes.zeros data.length := by
  obtain ⟨count, hcount⟩ := exists_zeros_append data
  rw [recordsFrom_eq] at h
  cases hdrop : data.dropWhile (· == 0) with
  | nil =>
      rw [hdrop, List.append_nil] at hcount
      rw [hcount, Bytes.length_zeros]
  | cons b rest =>
      simp only [hdrop] at h
      split at h <;> cases h

/-- The first record stands behind zeros, and the others behind it. -/
theorem begins_of_recordsFrom {r : Record} {others : List (Except ArchiveError Record)}
    (h : recordsFrom offset data = .ok r :: others) :
    ∃ count body, data = Bytes.zeros count ++ body ∧ r.offset = offset + count ∧
      r.Begins body ∧ recordsFrom (r.offset + r.span) (body.drop r.span) = others := by
  obtain ⟨count, hcount⟩ := exists_zeros_append data
  rw [recordsFrom_eq] at h
  cases hdrop : data.dropWhile (· == 0) with
  | nil =>
      simp only [hdrop] at h
      cases h
  | cons b rest =>
      rw [hdrop] at hcount
      have hstart : data.length - (b :: rest).length = count := by
        have := congrArg List.length hcount
        rw [List.length_append, Bytes.length_zeros] at this
        omega
      simp only [hdrop, hstart] at h
      cases htake : takeRecord (b :: rest) (offset + count) with
      | error cause =>
          simp only [htake] at h
          cases h
      | ok taken =>
          simp only [htake] at h
          obtain ⟨hoffset, begins, hlength⟩ := takeRecord_eq_ok_iff.mp htake
          cases h
          exact ⟨count, b :: rest, hcount, hoffset, begins, by rw [hoffset, hlength]⟩

/-- Each record stands at its offset. -/
theorem begins_of_mem {rs : List Record} {data : Bytes} {offset : Nat}
    (h : recordsFrom offset data = rs.map .ok) {r : Record} (hr : r ∈ rs) :
    ∃ skipped, r.offset = offset + skipped ∧ r.Begins (data.drop skipped) := by
  induction rs generalizing offset data with
  | nil => cases hr
  | cons first rs ih =>
      obtain ⟨count, body, rfl, hoffset, begins, hothers⟩ := begins_of_recordsFrom h
      have hbody : (Bytes.zeros count ++ body).drop count = body :=
        List.drop_left' (Bytes.length_zeros _)
      rcases List.mem_cons.mp hr with rfl | hr
      · exact ⟨count, hoffset, hbody.symm ▸ begins⟩
      · obtain ⟨skipped, hplace, hbegins⟩ := ih hothers hr
        refine ⟨count + (first.span + skipped), by omega, ?_⟩
        rw [← List.drop_drop, hbody, ← List.drop_drop]
        exact hbegins

/-- Where the content of a record starts. -/
def Record.contentOffset (r : Record) : Nat := r.offset + recordStart r.header.namesize.toNat

/-- The content of a record stands behind its name. -/
theorem data_of_mem {rs : List Record} {data : Bytes} (h : records data = rs.map .ok)
    {r : Record} (hr : r ∈ rs) :
    r.data = Bytes.slice data r.contentOffset r.header.filesize.toNat := by
  obtain ⟨skipped, hplace, begins⟩ := begins_of_mem h hr
  rw [begins.data_eq, Bytes.slice_drop, Record.contentOffset, hplace, Nat.zero_add]

/-! ## Archives inside an archive -/

/-- Zeros that fill up to a multiple of four, and whatever follows them; or nothing. -/
def Fills (position : Nat) (tail : Bytes) : Prop :=
  tail = [] ∨ ∃ rest, tail = Bytes.zeros (padding position) ++ rest

/-- Behind zeros the reader goes on at the next multiple of four. -/
theorem recordsFrom_of_fills {position : Nat} {tail : Bytes} (hfills : Fills position tail) :
    recordsFrom position tail = recordsFrom (align4 position) (tail.drop (padding position)) := by
  rcases hfills with rfl | ⟨rest, rfl⟩
  · rw [List.drop_nil, recordsFrom_nil, recordsFrom_nil]
  · rw [recordsFrom_zeros, add_padding, List.drop_left' (Bytes.length_zeros _)]

/-- An archive that is read to its end without an error, each record at a multiple of four,
is read the same at another multiple of four, and the reader goes on behind it. -/
theorem recordsFrom_in_place {rs : List Record} (h : recordsFrom offset data = rs.map .ok)
    (haligned : ∀ r ∈ rs, r.offset % 4 = 0) {shift : Nat} (hshift : shift % 4 = 0) {tail : Bytes}
    (hfills : Fills (shift + offset + data.length) tail) :
    recordsFrom (shift + offset) (data ++ tail) =
      (rs.map fun r => .ok (r.moveTo (shift + r.offset))) ++
        recordsFrom (align4 (shift + offset + data.length))
          (tail.drop (padding (shift + offset + data.length))) := by
  induction rs generalizing offset data with
  | nil =>
      rw [eq_zeros_of_recordsFrom h, recordsFrom_zeros, Bytes.length_zeros,
        recordsFrom_of_fills hfills]
      rfl
  | cons r rs ih =>
      obtain ⟨count, body, rfl, hoffset, begins, hothers⟩ := begins_of_recordsFrom h
      have hplace : shift + offset + count = shift + r.offset := by omega
      have hlength : (Bytes.zeros count ++ body).length = count + body.length := by
        rw [List.length_append, Bytes.length_zeros]
      have hfound : recordsFrom (shift + r.offset) (body ++ tail) =
          .ok (r.moveTo (shift + r.offset)) ::
            recordsFrom (shift + r.offset + r.span) ((body ++ tail).drop r.span) :=
        recordsFrom_of_begins (begins.append tail (shift + r.offset)) rfl
      rw [List.append_assoc, recordsFrom_zeros, hplace, hfound, List.map_cons, List.cons_append]
      congr 1
      by_cases hinside : r.span ≤ body.length
      · -- The padding of the record is there: go on with the bytes behind it.
        have hstop : shift + (r.offset + r.span) + (body.drop r.span).length =
            shift + offset + (Bytes.zeros count ++ body).length := by
          rw [hlength, List.length_drop]
          omega
        rw [List.drop_append_of_le_length hinside, Nat.add_assoc, ← hstop]
        rw [← hstop] at hfills
        exact ih hothers (fun r' hr' => haligned r' (List.mem_cons_of_mem _ hr')) hfills
      · -- The padding is missing, so this is the last record and it reaches to the next
        -- multiple of four.
        have hle := begins.span_le
        have hmod := r.span_mod
        have hfirst := haligned r (List.mem_cons_self ..)
        rw [List.drop_of_length_le (by omega), recordsFrom_nil] at hothers
        obtain rfl : rs = [] := List.map_eq_nil_iff.mp hothers.symm
        have hspan : r.span = body.length + padding (shift + offset + (count + body.length)) := by
          unfold align4 at hle
          unfold padding align4
          omega
        have hreach : shift + r.offset + r.span =
            align4 (shift + offset + (count + body.length)) := by
          rw [hspan, ← add_padding]
          omega
        rw [hreach, hspan, hlength, List.drop_append, List.drop_of_length_le (Nat.le_add_right ..),
          List.nil_append, Nat.add_sub_cancel_left]
        rfl

end BootVolume.Newc
