import BootVolume.Proofs.Newc.Stream

/-!
# Headers as a code

Writing and reading a header undo each other, up to the case of the letters, and
what cannot be read is refused for the first reason in the order of the format:
the magic, the length, the fields one after the other.

The fields are read in a chain, which is a `mapM` over all of them
(`Header.parse_eq_mapM`), so that the field to blame is the first one with a byte
that is no digit.  From there `Header.parse_eq_error_iff` says all about refusals.
-/

namespace BootVolume.Newc

open Text (IsHexDigit)
open WrittenRecord (foldDigit)

/-- A traversal fails with the cause of the first element that fails. -/
theorem mapM_eq_error_iff {ε α β : Type} {f : α → Except ε β} {bad : α → Bool} {cause : α → ε}
    (hgood : ∀ x, bad x = false → ∃ b, f x = .ok b)
    (hbad : ∀ x, bad x = true → f x = .error (cause x)) {xs : List α} {e : ε} :
    xs.mapM f = .error e ↔ ∃ x, xs.find? bad = some x ∧ e = cause x := by
  induction xs with
  | nil => exact ⟨nofun, fun ⟨_, h, _⟩ => nomatch h⟩
  | cons x rest ih =>
      rw [List.mapM_cons]
      cases hx : bad x with
      | true =>
          rw [hbad x hx, List.find?_cons_of_pos hx]
          constructor
          · intro h
            cases h
            exact ⟨x, rfl, rfl⟩
          · rintro ⟨_, hfound, rfl⟩
            cases hfound
            rfl
      | false =>
          obtain ⟨b, hb⟩ := hgood x hx
          rw [hb, List.find?_cons_of_neg (by rw [hx]; decide), ← ih]
          cases rest.mapM f with
          | error cause => exact Iff.rfl
          | ok values => exact ⟨nofun, nofun⟩

namespace Header

variable {h : Header} {data : Bytes} {offset : Nat}

/-- The bytes of a field. -/
def fieldBytes (data : Bytes) (f : Field) : Bytes := Bytes.slice data (6 + 8 * f.position) 8

/-- The first field, in the order of the format, that has a byte which is no digit. -/
def badField? (data : Bytes) : Option Field :=
  Field.all.find? fun f => decide (∃ b ∈ fieldBytes data f, ¬ IsHexDigit b)

/-! ## The fields of a header -/

theorem map_position_all : Field.all.map Field.position = List.range 13 := by decide

/-- The fields fill the header behind the magic. -/
theorem flatMap_fieldBytes (data : Bytes) :
    Field.all.flatMap (fieldBytes data) = Bytes.slice data 6 104 := by
  have hcut : ∀ count, (List.range count).flatMap (fun i => Bytes.slice data (6 + 8 * i) 8) =
      Bytes.slice data 6 (8 * count) := by
    intro count
    induction count with
    | zero => exact (Bytes.slice_zero_count _ _).symm
    | succ count ih =>
        rw [List.range_succ, List.flatMap_append, ih, List.flatMap_singleton, Nat.mul_succ,
          Bytes.slice_add]
  show _ = Bytes.slice data 6 (8 * 13)
  rw [← hcut, ← map_position_all, List.flatMap_map]
  rfl

theorem forall_digit_iff :
    (∀ b ∈ Bytes.slice data 6 104, IsHexDigit b) ↔
      ∀ f : Field, ∀ b ∈ fieldBytes data f, IsHexDigit b := by
  rw [← flatMap_fieldBytes]
  constructor
  · intro hall f b hb
    have hf : f ∈ Field.all := by cases f <;> decide
    exact hall b (List.mem_flatMap.mpr ⟨f, hf, hb⟩)
  · intro hall b hb
    obtain ⟨f, -, hb⟩ := List.mem_flatMap.mp hb
    exact hall f b hb

theorem exists_parseField_iff {f : Field} :
    (∃ v, parseField data offset f = .ok v) ↔ ∀ b ∈ fieldBytes data f, IsHexDigit b := by
  rw [← Text.isSome_ofHex?_iff, Option.isSome_iff_exists]
  constructor
  · rintro ⟨v, hv⟩
    obtain ⟨n, hn, -⟩ := parseField_eq_ok_iff.mp hv
    exact ⟨n, hn⟩
  · rintro ⟨n, hn⟩
    exact ⟨_, parseField_eq_ok_iff.mpr ⟨n, hn, rfl⟩⟩

theorem parseField_of_bad {f : Field} (hbad : ∃ b ∈ fieldBytes data f, ¬ IsHexDigit b) :
    parseField data offset f = .error (.badField offset f) := by
  have hnone : Text.ofHex? (Bytes.slice data (6 + 8 * f.position) 8) = none := by
    rw [Option.eq_none_iff_forall_ne_some]
    intro n hn
    obtain ⟨b, hb, hnot⟩ := hbad
    exact hnot ((Text.isSome_ofHex?_iff _).mp (Option.isSome_of_eq_some hn) b hb)
  rw [parseField, hnone]

/-! ## Reading -/

theorem parse_eq_mapM (hmagic : data.take 6 = magic) (hlong : headerLength ≤ data.length) :
    parse data offset = do
      let values ← Field.all.mapM (parseField data offset)
      return ofValues fun f => values.getD f.position 0 := by
  unfold parse
  rw [if_neg fun hbad => hbad.2 hmagic, if_neg (Nat.not_lt.mpr hlong)]
  simp only [Field.all, List.mapM_cons, List.mapM_nil, bind_assoc, pure_bind]
  rfl

/-- A header is read just if the magic is there and nothing but digits follows it. -/
theorem exists_parse_iff :
    (∃ h, parse data offset = .ok h) ↔
      headerLength ≤ data.length ∧ data.take 6 = magic ∧
        ∀ b ∈ Bytes.slice data 6 104, IsHexDigit b := by
  rw [forall_digit_iff]
  constructor
  · rintro ⟨h, hparse⟩
    obtain ⟨hlong, hmagic, hfields⟩ := parse_eq_ok_iff.mp hparse
    exact ⟨hlong, hmagic, fun f => exists_parseField_iff.mp ⟨_, hfields f⟩⟩
  · rintro ⟨hlong, hmagic, hdigits⟩
    have hfields : ∀ f, ∃ v, parseField data offset f = .ok v := fun f =>
      exists_parseField_iff.mpr (hdigits f)
    choose value hvalue using hfields
    exact ⟨ofValues value, parse_eq_ok_iff.mpr
      ⟨hlong, hmagic, fun f => by rw [hvalue f, value_ofValues]⟩⟩

/-- The header that was read is written with the bytes that it was read from, letters in lower
case. -/
theorem encode_of_parse (hparse : parse data offset = .ok h) :
    h.encode = (data.take headerLength).map foldDigit := by
  obtain ⟨hlong, hmagic, hfields⟩ := parse_eq_ok_iff.mp hparse
  have hlength : 110 ≤ data.length := hlong
  have hfield : ∀ f, Text.lowerHex 8 (h.value f).toNat = (fieldBytes data f).map foldDigit := by
    intro f
    have hposition := f.position_lt
    have height : (fieldBytes data f).length = 8 := by
      rw [fieldBytes, Bytes.length_slice]
      omega
    obtain ⟨n, hn, hvalue⟩ := parseField_eq_ok_iff.mp (hfields f)
    obtain ⟨hbound, hdigits⟩ := Text.lowerHex_of_ofHex? hn
    rw [show (Bytes.slice data (6 + 8 * f.position) 8).length = 8 from height] at hbound hdigits
    rw [← hvalue, UInt32.toNat_ofNat_of_lt' hbound]
    exact hdigits
  have hsplit : data.take headerLength = magic ++ Bytes.slice data 6 104 := by
    rw [← hmagic]
    exact List.take_add (i := 6) (j := 104)
  -- The magic has no letters.
  have hkept : magic.map foldDigit = magic := by decide +kernel
  calc h.encode
      = magic ++ Field.all.flatMap fun f => (fieldBytes data f).map foldDigit := by
        simp only [encode, hfield]
    _ = magic.map foldDigit ++ (Field.all.flatMap (fieldBytes data)).map foldDigit := by
        rw [hkept, List.map_flatMap]
    _ = (data.take headerLength).map foldDigit := by
        rw [flatMap_fieldBytes, ← List.map_append, ← hsplit]

/-! ## Refusals -/

/-- The field to blame is the first one that cannot be read. -/
theorem parse_eq_error_iff_of_magic (hmagic : data.take 6 = magic)
    (hlong : headerLength ≤ data.length) {e : ArchiveError} :
    parse data offset = .error e ↔ ∃ f, badField? data = some f ∧ e = .badField offset f := by
  have hfields : Field.all.mapM (parseField data offset) = .error e ↔
      ∃ f, badField? data = some f ∧ e = .badField offset f := by
    refine mapM_eq_error_iff (fun f hf => exists_parseField_iff.mpr fun b hb => ?_)
      fun f hf => parseField_of_bad (of_decide_eq_true hf)
    by_contra hnot
    exact (of_decide_eq_false hf) ⟨b, hb, hnot⟩
  rw [← hfields, parse_eq_mapM hmagic hlong]
  cases Field.all.mapM (parseField data offset) with
  | error cause => exact ⟨fun h => by cases h; rfl, fun h => by cases h; rfl⟩
  | ok values => exact ⟨nofun, nofun⟩

/-- Why a header cannot be read: another magic, an early end, or a byte that is no digit, in
this order. -/
theorem parse_eq_error_iff {e : ArchiveError} :
    parse data offset = .error e ↔
      (6 ≤ data.length ∧ data.take 6 ≠ magic) ∧ e = .badMagic offset ∨
      ¬ (6 ≤ data.length ∧ data.take 6 ≠ magic) ∧ data.length < headerLength ∧
        e = .truncated offset ∨
      headerLength ≤ data.length ∧ data.take 6 = magic ∧
        ∃ f, badField? data = some f ∧ e = .badField offset f := by
  by_cases hother : 6 ≤ data.length ∧ data.take 6 ≠ magic
  · rw [parse_of_otherMagic hother, Except.error.injEq]
    constructor
    · rintro rfl
      exact Or.inl ⟨hother, rfl⟩
    · rintro (⟨-, rfl⟩ | ⟨hnot, -⟩ | ⟨-, hmagic, -⟩)
      · rfl
      · exact absurd hother hnot
      · exact absurd hmagic hother.2
  by_cases hshort : data.length < headerLength
  · rw [parse_of_short hother hshort, Except.error.injEq]
    constructor
    · rintro rfl
      exact Or.inr (Or.inl ⟨hother, hshort, rfl⟩)
    · rintro (⟨hbad, -⟩ | ⟨-, -, rfl⟩ | ⟨hlong, -⟩)
      · exact absurd hbad hother
      · rfl
      · exact absurd hshort (Nat.not_lt.mpr hlong)
  · have hlong := Nat.not_lt.mp hshort
    have hmagic := magic_of_long hother hlong
    rw [parse_eq_error_iff_of_magic hmagic hlong]
    simp [hmagic, hlong, hshort]

theorem parse_encode (h : Header) (offset : Nat) : parse h.encode offset = .ok h := by
  rw [← List.append_nil h.encode]
  exact parse_spelled h.map_foldDigit_encode [] offset

/-- A field is written as its groups of four bits, the highest group first. -/
theorem getElem?_encode (h : Header) (f : Field) {i : Nat} (hi : i < 8) :
    h.encode[6 + 8 * f.position + i]? =
      some (Text.lowerDigit ((h.value f >>> UInt32.ofNat (28 - 4 * i)) &&& 15).toNat) := by
  rw [← Text.getElem?_lowerHex_word hi, ← slice_encode, Bytes.getElem?_slice, if_pos hi]

end Header

/-- The code of headers.  A header is written as the magic and thirteen fields of eight digits,
and read back from there.  Bytes are read as a header just if they begin with the magic and 104
digits of either case, and that header is written with the same bytes, letters in lower case.
All else is refused: bytes that begin with another magic, then those that end too early, and
then those with a byte that is no digit, for the first field that has one. -/
theorem header_codec :
    (∀ (h : Header) (offset : Nat), Header.parse h.encode offset = .ok h) ∧
    (∀ h : Header, h.encode.length = 110 ∧ h.encode.take 6 = magic ∧
      ∀ f : Field, ∀ i < 8, h.encode[6 + 8 * f.position + i]? =
        some (Text.lowerDigit ((h.value f >>> UInt32.ofNat (28 - 4 * i)) &&& 15).toNat)) ∧
    ∀ (data : Bytes) (offset : Nat),
      ((∃ h, Header.parse data offset = .ok h) ↔
        110 ≤ data.length ∧ data.take 6 = magic ∧ ∀ b ∈ Bytes.slice data 6 104, IsHexDigit b) ∧
      (∀ h, Header.parse data offset = .ok h → h.encode = (data.take 110).map foldDigit) ∧
      (Header.parse data offset = .error (.badMagic offset) ↔
        6 ≤ data.length ∧ data.take 6 ≠ magic) ∧
      (Header.parse data offset = .error (.truncated offset) ↔
        ¬ (6 ≤ data.length ∧ data.take 6 ≠ magic) ∧ data.length < 110) ∧
      (∀ f, Header.parse data offset = .error (.badField offset f) ↔
        110 ≤ data.length ∧ data.take 6 = magic ∧ Header.badField? data = some f) ∧
      ∀ e, Header.parse data offset = .error e →
        e = .badMagic offset ∨ e = .truncated offset ∨ ∃ f, e = .badField offset f := by
  refine ⟨Header.parse_encode,
    fun h => ⟨h.length_encode, rfl, fun f i hi => h.getElem?_encode f hi⟩,
    fun data offset => ⟨Header.exists_parse_iff, fun h => Header.encode_of_parse, ?_, ?_, ?_, ?_⟩⟩
  · rw [Header.parse_eq_error_iff]
    simp
  · rw [Header.parse_eq_error_iff]
    simp [headerLength]
  · intro f
    rw [Header.parse_eq_error_iff]
    simp [headerLength]
  · intro e he
    rcases Header.parse_eq_error_iff.mp he with ⟨-, rfl⟩ | ⟨-, -, rfl⟩ | ⟨-, -, f, -, rfl⟩
    · exact Or.inl rfl
    · exact Or.inr (Or.inl rfl)
    · exact Or.inr (Or.inr ⟨f, rfl⟩)

end BootVolume.Newc
