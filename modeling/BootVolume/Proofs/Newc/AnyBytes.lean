import BootVolume.Proofs.Newc.Cursor

/-!
# Reading arbitrary bytes

Whatever bytes are read, the items that the reader finds account for all of them
(`Accounts`): the first byte that is not zero begins a record or is blamed by a
fault, and behind the padding of a record it goes on in the same way.  The proof
follows the reader step by step (`accounts_recordsFrom`).

`records_of_any_bytes` reads off what this means for the records, the last item
and the number of items.
-/

namespace BootVolume.Newc

open WrittenRecord (foldDigit)

/-- The offset of the record that a fault is about; what cannot be written has none. -/
def ArchiveError.offset? : ArchiveError → Option Nat
  | badMagic offset | truncated offset | badField offset _ | badName offset => some offset
  | nameTooLong _ | fileTooLarge _ => none

/-- All bytes from `low` up to `high` are zero. -/
def ZeroBetween (data : Bytes) (low high : Nat) : Prop :=
  ∀ i, low ≤ i → i < high → data[i]? = some 0

/-- The first byte from `low` on that is not zero stands at `place`. -/
structure FirstNonzero (data : Bytes) (low place : Nat) : Prop where
  low_le : low ≤ place
  zeros : ZeroBetween data low place
  nonzero : ∃ b, data[place]? = some b ∧ b ≠ 0

namespace Record

/-- The position behind the padding of a record. -/
def stop (r : Record) : Nat := r.offset + r.span

/-- What a record says is what the archive has at its offset, and nothing of it lies behind the
end of the archive. -/
structure StandsIn (r : Record) (data : Bytes) : Prop where
  header_inside : r.offset + 110 ≤ data.length
  header : r.header.encode = (Bytes.slice data r.offset 110).map foldDigit
  name_inside : r.offset + 110 + r.header.namesize.toNat ≤ data.length
  /-- The name field is the name and NUL bytes behind it. -/
  name : ∃ nuls, Bytes.slice data (r.offset + 110) r.header.namesize.toNat =
    Text.utf8 r.name ++ Bytes.zeros nuls
  name_end : (Text.utf8 r.name).getLast? ≠ some 0
  data_inside : r.header.filesize.toNat = 0 ∨
    r.offset + align4 (110 + r.header.namesize.toNat) + r.header.filesize.toNat ≤ data.length
  data_eq : r.data = Bytes.slice data (r.offset + align4 (110 + r.header.namesize.toNat))
    r.header.filesize.toNat
  data_length : r.data.length = r.header.filesize.toNat

end Record

/-- Items that account for the bytes of an archive from `low` on. -/
inductive Accounts (data : Bytes) : (low : Nat) → List (Except ArchiveError Record) → Prop
  | zeros {low : Nat} (h : ZeroBetween data low data.length) : Accounts data low []
  | fault {low place : Nat} {cause : ArchiveError} (hplace : cause.offset? = some place)
      (first : FirstNonzero data low place) : Accounts data low [.error cause]
  | record {low : Nat} {r : Record} {items : List (Except ArchiveError Record)}
      (first : FirstNonzero data low r.offset) (stands : r.StandsIn data)
      (rest : Accounts data r.stop items) : Accounts data low (.ok r :: items)

/-! ## Steps of the reader -/

section Steps

variable {data : Bytes} {low : Nat}

theorem zeroBetween_skipZeros (data : Bytes) (low : Nat) :
    ZeroBetween data low (skipZeros data low) := by
  intro i hlow hi
  have hi' : i - low < ((data.drop low).takeWhile (· == 0)).length := by
    unfold skipZeros at hi
    omega
  have hzero : ((data.drop low).takeWhile (· == 0))[i - low] = 0 :=
    eq_of_beq (List.mem_takeWhile_imp (p := (· == 0)) (List.getElem_mem hi'))
  have hi'' : i - low < (data.drop low).length :=
    Nat.lt_of_lt_of_le hi' (List.takeWhile_prefix _).length_le
  have hbyte : (data.drop low)[i - low]? = some 0 := by
    rw [List.getElem?_eq_getElem hi'', ← (List.takeWhile_prefix _).getElem hi', hzero]
  rwa [List.getElem?_drop, Nat.add_sub_cancel' hlow] at hbyte

theorem firstNonzero_skipZeros (hinside : skipZeros data low < data.length) :
    FirstNonzero data low (skipZeros data low) where
  low_le := Nat.le_add_right ..
  zeros := zeroBetween_skipZeros data low
  nonzero := by
    refine ⟨_, List.getElem?_eq_getElem hinside, fun hzero => ?_⟩
    have hhead : (data.drop (skipZeros data low)).head? = some data[skipZeros data low] := by
      rw [List.head?_drop, List.getElem?_eq_getElem hinside]
    have hnot := List.head?_dropWhile_not (· == 0) (data.drop low)
    rw [← drop_skipZeros, hhead, hzero] at hnot
    simp at hnot

/-- A record that cannot be taken is blamed at its own place. -/
theorem offset_of_takeRecord_error {offset : Nat} {cause : ArchiveError}
    (h : takeRecord data offset = .error cause) : cause.offset? = some offset := by
  rw [takeRecord_eq] at h
  cases hparse : Header.parse data offset with
  | error e =>
      rw [hparse] at h
      cases h
      rcases Header.parse_eq_error_iff.mp hparse with ⟨-, rfl⟩ | ⟨-, -, rfl⟩ | ⟨-, -, f, -, rfl⟩ <;>
        rfl
  | ok header =>
      simp only [hparse] at h
      split at h
      · cases h
        rfl
      · split at h
        · cases h
          rfl
        · split at h <;> cases h
          rfl

/-- A record that begins the rest of an archive stands in the archive. -/
theorem Record.Begins.standsIn {r : Record} (begins : r.Begins (data.drop r.offset)) :
    r.StandsIn data := by
  have hlength : (data.drop r.offset).length = data.length - r.offset := List.length_drop
  have hlong : headerLength ≤ (data.drop r.offset).length :=
    (Header.parse_eq_ok_iff.mp begins.header).1
  have hname := begins.name_fits
  have hdata := begins.data_fits
  have hdata_eq := begins.data_eq
  rw [Bytes.slice_drop] at hdata_eq
  obtain ⟨⟨nuls, hraw⟩, hlast⟩ := exists_stripNuls_append
    (Bytes.slice (data.drop r.offset) headerLength r.header.namesize.toNat)
  rw [← Text.utf8_of_ofUtf8? begins.name] at hraw hlast
  rw [Bytes.slice_drop] at hraw
  unfold headerLength at hlong hname
  have hheader := Header.encode_of_parse begins.header
  refine ⟨by omega, hheader, by omega, ⟨nuls, hraw⟩, hlast, ?_, hdata_eq, ?_⟩
  · unfold recordStart headerLength at hdata
    omega
  · unfold recordStart headerLength at hdata hdata_eq
    rw [hdata_eq, Bytes.length_slice]
    omega

/-- The items that the reader finds from a position on account for all bytes from there on. -/
theorem accounts_recordsFrom (data : Bytes) (position : Nat) :
    Accounts data position (recordsFrom position (data.drop position)) := by
  refine recordsFrom_induction (fun position hzeros => ?_)
    (fun position cause hinside htake => ?_) (fun position taken items hinside htake hitems => ?_)
    position
  · -- Nothing but zeros is left, and the search for another byte has run over the end.
    exact .zeros fun i hlow hi => zeroBetween_skipZeros data position i hlow (by omega)
  · exact .fault (offset_of_takeRecord_error htake) (firstNonzero_skipZeros hinside)
  · obtain ⟨hoffset, begins, hlength⟩ := takeRecord_eq_ok_iff.mp htake
    rw [hlength, ← hoffset] at hitems
    rw [← hoffset] at begins
    exact .record (hoffset ▸ firstNonzero_skipZeros hinside) begins.standsIn hitems

end Steps

/-! ## Runs of the reader -/

/-- How far records reach that stand behind `low`: to the end of the last one. -/
def reached (low : Nat) : List Record → Nat
  | [] => low
  | r :: rest => reached r.stop rest

namespace Accounts

variable {data : Bytes} {low : Nat} {items : List (Except ArchiveError Record)} {rs : List Record}

/-- The items are records, and at most one fault as the last item. -/
theorem exists_split (accounts : Accounts data low items) :
    ∃ (rs : List Record) (fault : Option ArchiveError),
      items = rs.map .ok ++ (fault.map .error).toList := by
  induction accounts with
  | zeros h => exact ⟨[], none, rfl⟩
  | @fault _ _ cause hplace first => exact ⟨[], some cause, rfl⟩
  | @record _ r _ first stands rest ih =>
      obtain ⟨rs, fault, rfl⟩ := ih
      exact ⟨r :: rs, fault, rfl⟩

/-- Behind some records the other items account for the rest. -/
theorem behind {others : List (Except ArchiveError Record)}
    (accounts : Accounts data low (rs.map .ok ++ others)) :
    Accounts data (reached low rs) others := by
  induction rs generalizing low with
  | nil => exact accounts
  | cons r rs ih =>
      cases accounts with
      | record first stands rest => exact ih rest

/-- Each record takes up at least the bytes of its header. -/
theorem length_le {others : List (Except ArchiveError Record)}
    (accounts : Accounts data low (rs.map .ok ++ others)) :
    110 * rs.length ≤ data.length - low := by
  induction rs generalizing low with
  | nil => exact Nat.zero_le _
  | cons r rs ih =>
      cases accounts with
      | record first stands rest =>
          have hrest := ih rest
          have hlow := first.low_le
          have hinside := stands.header_inside
          have hstop : r.offset + 110 ≤ r.stop := by
            unfold Record.stop Record.span recordStart headerLength align4
            omega
          rw [List.length_cons]
          omega

theorem standsIn {others : List (Except ArchiveError Record)}
    (accounts : Accounts data low (rs.map .ok ++ others)) : ∀ r ∈ rs, r.StandsIn data := by
  induction rs generalizing low with
  | nil => exact nofun
  | cons r rs ih =>
      cases accounts with
      | record first stands rest => exact List.forall_mem_cons.mpr ⟨stands, ih rest⟩

/-- Records do not overlap. -/
theorem pairwise {others : List (Except ArchiveError Record)}
    (accounts : Accounts data low (rs.map .ok ++ others)) :
    (∀ r ∈ rs, low ≤ r.offset) ∧
      rs.Pairwise fun r s => r.offset < s.offset ∧ r.stop ≤ s.offset := by
  induction rs generalizing low with
  | nil => exact ⟨nofun, .nil⟩
  | cons r rs ih =>
      cases accounts with
      | record first stands rest =>
          obtain ⟨hbehind, hpairs⟩ := ih rest
          have hspan := r.span_pos
          have hlow := first.low_le
          refine ⟨List.forall_mem_cons.mpr ⟨hlow, fun s hs => ?_⟩,
            List.pairwise_cons.mpr ⟨fun s hs => ?_, hpairs⟩⟩
          · have hs' := hbehind s hs
            unfold Record.stop at hs'
            omega
          · have hs' := hbehind s hs
            refine ⟨?_, hs'⟩
            unfold Record.stop at hs'
            omega

end Accounts

/-- Whatever the bytes are, the reader never gets stuck and comes to an end: it finds at most one
record for each 110 bytes, and then at most one fault.  Each record stands in the archive as it
is found.  Records follow each other without overlapping, with nothing but zeros between the
padding of one and the next.  A fault blames the first byte behind the last record that is not
zero, and without a fault there is no such byte. -/
theorem records_of_any_bytes (data : Bytes) :
    ∃ (rs : List Record) (fault : Option ArchiveError),
      records data = rs.map .ok ++ (fault.map .error).toList ∧
      Cursor.Iterates data .start (records data) ∧
      rs.length ≤ data.length / 110 ∧
      (∀ r ∈ rs, r.StandsIn data) ∧
      (rs.Pairwise fun r s => r.offset < s.offset ∧ r.stop ≤ s.offset) ∧
      (∀ before r after, rs = before ++ r :: after →
        FirstNonzero data (reached 0 before) r.offset) ∧
      (∀ cause, fault = some cause →
        ∃ place, cause.offset? = some place ∧ FirstNonzero data (reached 0 rs) place) ∧
      (fault = none → ZeroBetween data (reached 0 rs) data.length) := by
  have accounts : Accounts data 0 (records data) := accounts_recordsFrom data 0
  obtain ⟨rs, fault, hitems⟩ := accounts.exists_split
  have hiterates := Cursor.iterates_records data
  rw [hitems] at accounts
  refine ⟨rs, fault, hitems, hiterates, ?_, accounts.standsIn, accounts.pairwise.2, ?_, ?_, ?_⟩
  · have := accounts.length_le
    omega
  · rintro before r after rfl
    rw [List.map_append, List.append_assoc] at accounts
    cases accounts.behind with
    | record first stands rest => exact first
  · rintro cause rfl
    cases accounts.behind with
    | fault hplace first => exact ⟨_, hplace, first⟩
  · rintro rfl
    cases accounts.behind with
    | zeros h => exact h

end BootVolume.Newc
