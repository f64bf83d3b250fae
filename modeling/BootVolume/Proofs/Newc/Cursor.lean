import BootVolume.Proofs.Newc.Codec

/-!
# Reading with a cursor

`records` works on what is left of an archive, and a slice of it that runs over
the end is just shorter.  The reader of this file goes over the whole archive
with a `Cursor`, a position that never leaves it, and takes its bytes with `cut`,
which gets stuck where they are not all there.  It answers one request for a
record at a time (`Cursor.next`).

`Cursor.iterates_records` says that this reader never gets stuck, that it comes
to an end, and that its answers up to there are the `records`: a step does what
`takeRecord` does on the rest of the archive (`nextRecord_eq`).
-/

namespace BootVolume.Newc

/-- A computation that ends in a value or in a fault of the archive, or that gets stuck where
it needs bytes that are not there. -/
abbrev Guarded := ExceptT ArchiveError Option

namespace Guarded

/-- The computation that ends in a known way. -/
def ends {α : Type} (outcome : Except ArchiveError α) : Guarded α := ExceptT.mk (some outcome)

end Guarded

/-- The `count` bytes from `offset`, all of which must be there. -/
def cut (data : Bytes) (offset count : Nat) : Guarded Bytes :=
  if offset + count ≤ data.length then Guarded.ends (.ok (Bytes.slice data offset count))
  else ExceptT.mk none

namespace Header

/-- Whether `data` begin with another magic; data too short to hold it do not. -/
def otherMagicCut (data : Bytes) : Guarded Bool :=
  if 6 ≤ data.length then do
    let start ← cut data 0 6
    return decide (start ≠ magic)
  else return false

/-- The value of one field, its digits cut out. -/
def parseFieldCut (data : Bytes) (offset : Nat) (f : Field) : Guarded UInt32 := do
  let digits ← cut data (6 + 8 * f.position) 8
  match Text.ofHex? digits with
  | some n => return UInt32.ofNat n
  | none => throw (.badField offset f)

/-- The header at the start of `data`, every part of it cut out. -/
def parseCut (data : Bytes) (offset : Nat) : Guarded Header := do
  if ← otherMagicCut data then throw (.badMagic offset)
  else if data.length < headerLength then throw (.truncated offset)
  else
    let values ← Field.all.mapM (parseFieldCut data offset)
    return ofValues fun f => values.getD f.position 0

end Header

/-- The first position from `position` on that does not hold a zero byte. -/
def skipZeros (data : Bytes) (position : Nat) : Nat :=
  position + ((data.drop position).takeWhile (· == 0)).length

/-- The content of the record at `offset`; an empty content is not looked for. -/
def contentCut (data : Bytes) (offset : Nat) (header : Header) : Guarded Bytes :=
  let start := offset + recordStart header.namesize.toNat
  let size := header.filesize.toNat
  if size = 0 then return []
  else if data.length < start + size then throw (.truncated offset)
  else cut data start size

/-- The record at `offset`, and the position behind its padding or at the end of the archive. -/
def recordCut (data : Bytes) (offset : Nat) : Guarded (Record × Nat) := do
  let rest ← cut data offset (data.length - offset)
  let header ← Header.parseCut rest offset
  let nameStart := offset + headerLength
  let nameLength := header.namesize.toNat
  if data.length < nameStart + nameLength then throw (.truncated offset)
  else
    let raw ← cut data nameStart nameLength
    match Text.ofUtf8? (stripNuls raw) with
    | none => throw (.badName offset)
    | some name =>
        let content ← contentCut data offset header
        let stop := offset + recordStart nameLength + align4 header.filesize.toNat
        return ({ header, name, data := content, offset }, min stop data.length)

/-- The next record from `position` on, if there is one, and the position behind it. -/
def nextRecord (data : Bytes) (position : Nat) : Guarded (Option (Record × Nat)) :=
  let offset := skipZeros data position
  if data.length ≤ offset then return none
  else some <$> recordCut data offset

/-- A reader of an archive. -/
structure Cursor where
  /-- Where the reader goes on. -/
  position : Nat
  /-- Whether it has met a fault. -/
  failed : Bool

namespace Cursor

/-- A reader at the start. -/
def start : Cursor := ⟨0, false⟩

/-- One request: the record or the fault that comes next, if any, and the reader afterwards;
nothing if the request gets stuck. -/
def next (data : Bytes) (c : Cursor) : Option (Option (Except ArchiveError Record) × Cursor) :=
  if c.failed then some (none, c)
  else
    (nextRecord data c.position).run.map fun outcome =>
      match outcome with
      | .ok none => (none, c)
      | .ok (some (record, position)) => (some (.ok record), { c with position })
      | .error cause => (some (.error cause), { c with failed := true })

/-- The reader answers requests with the given items, one after the other, and then says that
there are no more. -/
inductive Iterates (data : Bytes) : Cursor → List (Except ArchiveError Record) → Prop
  | stop {c c' : Cursor} (h : c.next data = some (none, c')) : Iterates data c []
  | item {c c' : Cursor} {item : Except ArchiveError Record}
      {items : List (Except ArchiveError Record)} (h : c.next data = some (some item, c'))
      (rest : Iterates data c' items) : Iterates data c (item :: items)

end Cursor

/-! ## Cutting -/

namespace Guarded

variable {α β : Type}

theorem ends_bind_ok (a : α) (f : α → Guarded β) : (ends (.ok a) >>= f) = f a := rfl

theorem ends_bind_error (e : ArchiveError) (f : α → Guarded β) :
    (ends (.error e) >>= f) = ends (.error e) := rfl

theorem ends_mapM (f : α → Except ArchiveError β) (xs : List α) :
    (xs.mapM fun x => ends (f x)) = ends (xs.mapM f) := by
  induction xs with
  | nil => rfl
  | cons x rest ih =>
      rw [List.mapM_cons, List.mapM_cons, ih]
      cases f x with
      | error e => rfl
      | ok b =>
          cases rest.mapM f with
          | error e => rfl
          | ok bs => rfl

end Guarded

open Guarded (ends ends_bind_ok ends_bind_error ends_mapM)

theorem cut_eq {data : Bytes} {offset count : Nat} (h : offset + count ≤ data.length) :
    cut data offset count = ends (.ok (Bytes.slice data offset count)) := if_pos h

namespace Header

theorem otherMagicCut_eq (data : Bytes) :
    otherMagicCut data = ends (.ok (decide (6 ≤ data.length ∧ data.take 6 ≠ magic))) := by
  unfold otherMagicCut
  by_cases hsix : 6 ≤ data.length
  · rw [if_pos hsix, cut_eq (by omega), ends_bind_ok]
    simp only [hsix, true_and]
    rfl
  · rw [if_neg hsix, decide_eq_false fun h => hsix h.1]
    rfl

theorem parseFieldCut_eq {data : Bytes} (hlong : headerLength ≤ data.length) (offset : Nat)
    (f : Field) : parseFieldCut data offset f = ends (parseField data offset f) := by
  have hlength : 110 ≤ data.length := hlong
  have hposition := f.position_lt
  unfold parseFieldCut parseField
  rw [cut_eq (by omega), ends_bind_ok]
  cases Text.ofHex? (Bytes.slice data (6 + 8 * f.position) 8) <;> rfl

/-- The cuts of a header never run over the end. -/
theorem parseCut_eq (data : Bytes) (offset : Nat) :
    parseCut data offset = ends (parse data offset) := by
  unfold parseCut
  rw [otherMagicCut_eq, ends_bind_ok]
  by_cases hother : 6 ≤ data.length ∧ data.take 6 ≠ magic
  · rw [if_pos (decide_eq_true hother), parse_of_otherMagic hother]
    rfl
  · rw [if_neg (by simpa using hother)]
    by_cases hshort : data.length < headerLength
    · rw [if_pos hshort, parse_of_short hother hshort]
      rfl
    · have hlong := Nat.not_lt.mp hshort
      have hmagic := magic_of_long hother hlong
      rw [if_neg hshort, funext (parseFieldCut_eq hlong offset), ends_mapM,
        parse_eq_mapM hmagic hlong]
      cases Field.all.mapM (parseField data offset) <;> rfl

end Header

theorem contentCut_eq {data : Bytes} {offset : Nat} (hoffset : offset ≤ data.length)
    (header : Header) :
    contentCut data offset header = ends (
      if header.filesize.toNat ≠ 0 ∧ (data.drop offset).length <
          recordStart header.namesize.toNat + header.filesize.toNat then .error (.truncated offset)
      else .ok (Bytes.slice (data.drop offset) (recordStart header.namesize.toNat)
        header.filesize.toNat)) := by
  unfold contentCut
  rw [List.length_drop, Bytes.slice_drop]
  by_cases hempty : header.filesize.toNat = 0
  · simp only [hempty, if_pos, ne_eq, not_true_eq_false, false_and, if_false,
      Bytes.slice_zero_count]
    rfl
  · by_cases hshort : data.length <
        offset + recordStart header.namesize.toNat + header.filesize.toNat
    · rw [if_neg hempty, if_pos hshort, if_pos ⟨hempty, by omega⟩]
      rfl
    · rw [if_neg hempty, if_neg hshort, if_neg (by omega), cut_eq (by omega)]

/-- Where a record may start, it is taken from the whole archive as it is from the rest. -/
theorem recordCut_eq {data : Bytes} {offset : Nat} (hoffset : offset ≤ data.length) :
    recordCut data offset =
      ends ((takeRecord (data.drop offset) offset).map fun taken =>
        (taken.record, min (offset + taken.length) data.length)) := by
  have hlength : (data.drop offset).length = data.length - offset := List.length_drop
  have hrest : Bytes.slice data offset (data.length - offset) = data.drop offset := by
    rw [← hlength]
    exact List.take_length
  unfold recordCut
  rw [cut_eq (by omega), ends_bind_ok, hrest, Header.parseCut_eq, takeRecord_eq]
  cases Header.parse (data.drop offset) offset with
  | error cause => rfl
  | ok header =>
      rw [ends_bind_ok]
      by_cases hname : data.length < offset + headerLength + header.namesize.toNat
      · have hname' : (data.drop offset).length < headerLength + header.namesize.toNat := by omega
        simp only [if_pos hname, if_pos hname']
        rfl
      · have hname' : ¬ (data.drop offset).length < headerLength + header.namesize.toNat := by
          omega
        simp only [if_neg hname, if_neg hname', cut_eq (Nat.not_lt.mp hname), ends_bind_ok,
          Bytes.slice_drop, contentCut_eq hoffset]
        cases Text.ofUtf8? (stripNuls (Bytes.slice data (offset + headerLength)
          header.namesize.toNat)) with
        | none => rfl
        | some name =>
            by_cases hdata : header.filesize.toNat ≠ 0 ∧ (data.drop offset).length <
                recordStart header.namesize.toNat + header.filesize.toNat
            · simp only [if_pos hdata]
              rfl
            · simp only [if_neg hdata, ends_bind_ok, Nat.add_assoc]
              rfl

theorem drop_skipZeros (data : Bytes) (position : Nat) :
    data.drop (skipZeros data position) = (data.drop position).dropWhile (· == 0) := by
  rw [skipZeros, ← List.drop_drop]
  conv_lhs =>
    arg 2
    rw [← List.takeWhile_append_dropWhile (p := (· == 0)) (l := data.drop position)]
  exact List.drop_left

/-- The records of the rest of an archive, from any position on: after zeros there is either
nothing, or a fault, or a record with what follows its padding. -/
theorem recordsFrom_induction {data : Bytes}
    {motive : Nat → List (Except ArchiveError Record) → Prop}
    (zeros : ∀ position, data.length ≤ skipZeros data position → motive position [])
    (fault : ∀ position cause, skipZeros data position < data.length →
      takeRecord (data.drop (skipZeros data position)) (skipZeros data position) = .error cause →
      motive position [.error cause])
    (record : ∀ position taken items, skipZeros data position < data.length →
      takeRecord (data.drop (skipZeros data position)) (skipZeros data position) = .ok taken →
      motive (skipZeros data position + taken.length) items →
      motive position (.ok taken.record :: items)) (position : Nat) :
    motive position (recordsFrom position (data.drop position)) := by
  induction hrest : data.length - position using Nat.strongRecOn generalizing position with
  | ind size ih =>
      have hlow : position ≤ skipZeros data position := Nat.le_add_right ..
      rw [recordsFrom_eq, ← drop_skipZeros]
      cases hdrop : data.drop (skipZeros data position) with
      | nil => exact zeros position (List.drop_eq_nil_iff.mp hdrop)
      | cons b rest =>
          have hinside : skipZeros data position < data.length := by
            by_contra hend
            rw [List.drop_of_length_le (Nat.not_lt.mp hend)] at hdrop
            cases hdrop
          have hstart : position + ((data.drop position).length -
              (data.drop (skipZeros data position)).length) = skipZeros data position := by
            rw [List.length_drop, List.length_drop]
            omega
          simp only
          rw [← hdrop, hstart]
          cases htake : takeRecord (data.drop (skipZeros data position))
              (skipZeros data position) with
          | error cause => exact fault position cause hinside htake
          | ok taken =>
              have hpos := taken.length_pos
              simp only
              rw [List.drop_drop]
              exact record position taken _ hinside htake (ih _ (by omega) _ rfl)

namespace Cursor

variable {data : Bytes} {position : Nat}

theorem next_of_zeros (hzeros : data.length ≤ skipZeros data position) :
    next data ⟨position, false⟩ = some (none, ⟨position, false⟩) := by
  unfold next nextRecord
  simp only [if_pos hzeros]
  rfl

theorem next_of_ok {taken : Taken} (hinside : skipZeros data position < data.length)
    (htake : takeRecord (data.drop (skipZeros data position)) (skipZeros data position) =
      .ok taken) :
    next data ⟨position, false⟩ = some (some (.ok taken.record),
      ⟨min (skipZeros data position + taken.length) data.length, false⟩) := by
  unfold next nextRecord
  simp only [if_neg (Nat.not_le.mpr hinside), recordCut_eq (Nat.le_of_lt hinside), htake]
  rfl

theorem next_of_error {cause : ArchiveError} (hinside : skipZeros data position < data.length)
    (htake : takeRecord (data.drop (skipZeros data position)) (skipZeros data position) =
      .error cause) :
    next data ⟨position, false⟩ = some (some (.error cause), ⟨position, true⟩) := by
  unfold next nextRecord
  simp only [if_neg (Nat.not_le.mpr hinside), recordCut_eq (Nat.le_of_lt hinside), htake]
  rfl

/-- The reader never gets stuck, it comes to an end, and its items are the records of the
archive. -/
theorem iterates_records (data : Bytes) : Iterates data start (records data) := by
  -- Where a record or a fault is found, the end of the archive has not held the reader back.
  have hkept : ∀ {position}, skipZeros data position < data.length →
      min position data.length = position := by
    intro position hinside
    unfold skipZeros at hinside
    omega
  have hrest : ∀ position, Iterates data ⟨min position data.length, false⟩
      (recordsFrom position (data.drop position)) := by
    refine recordsFrom_induction (fun position hzeros => ?_)
      (fun position cause hinside htake => ?_) (fun position taken items hinside htake hitems => ?_)
    · refine .stop (next_of_zeros ?_)
      unfold skipZeros at hzeros ⊢
      by_cases hposition : position ≤ data.length
      · rwa [Nat.min_eq_left hposition]
      · rw [Nat.min_eq_right (by omega)]
        omega
    · rw [hkept hinside]
      exact .item (next_of_error hinside htake) (.stop rfl)
    · rw [hkept hinside]
      exact .item (next_of_ok hinside htake) hitems
  have hstart := hrest 0
  rw [Nat.zero_min] at hstart
  exact hstart

end Cursor

end BootVolume.Newc
