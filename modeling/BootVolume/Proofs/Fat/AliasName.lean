import BootVolume.Proofs.Fat.AlikeNames

/-!
# Short names made from checksums

The short name beside a long one is that of a text of eight digits and an
extension (`shortForm?_aliasName`).  Nothing keeps it apart from the short names of
other files: two long names share it if their checksums and the characters of
their extensions agree, and a file may be called by this text itself.  Short names
are shared in no other way (`short_shared_iff`).
-/

namespace BootVolume.Fat

variable {a b name : String} {m n : StoredName}

/-! ## The text of an alias -/

/-- The eight digits of the checksum of a name. -/
def checksumDigits (name : String) : List Char :=
  asciiText (Text.upperHex 8 (crc32 (Text.utf8 name)).toNat)

/-- The characters of the extension that stand in a short name made from a checksum. -/
def hashedExtension (name : String) : List Char :=
  (((splitExtension name.toList).2.filter isShortChar).take 3).map Char.toUpper

/-- The text of the short name that is made for a name. -/
def aliasName (name : String) : String :=
  String.ofList (joinParts (checksumDigits name) (hashedExtension name))

theorem hashedShort_eq (name : String) :
    hashedShort name = Text.upperHex 8 (crc32 (Text.utf8 name)).toNat ++
      padUpper ((splitExtension name.toList).2.filter isShortChar) 3 := by
  unfold hashedShort
  split
  · rfl
  · rename_i hdot
    rcases splitExtension_cases name.toList with ⟨hsplit, -⟩ | ⟨base, extension, -, hname, -⟩
    · rw [hsplit]
    · refine absurd (List.contains_iff_mem.mpr ?_) hdot
      rw [hname]
      exact List.mem_append_right _ (List.mem_cons_self ..)

/-! ## Parts -/

theorem splitExtension_joinParts {base extension : List Char} (hbase : '.' ∉ base)
    (hextension : '.' ∉ extension) :
    splitExtension (joinParts base extension) = (base, extension) := by
  rcases splitExtension_cases (joinParts base extension) with
    ⟨hsplit, hdot⟩ | ⟨base', extension', hsplit, hjoin, hlast⟩
  · cases extension with
    | nil => exact hsplit
    | cons c rest => exact absurd (List.mem_append_right _ (List.mem_cons_self ..)) hdot
  · cases extension with
    | nil =>
        obtain rfl : base = base' ++ '.' :: extension' := hjoin
        exact absurd (List.mem_append_right _ (List.mem_cons_self ..)) hbase
    | cons c rest =>
        obtain ⟨rfl, -, rfl⟩ := (List.append_cons_inj_of_notMem hbase hextension).mp hjoin
        exact hsplit

theorem padUpper_take (part : List Char) (width : Nat) :
    padUpper (part.take width) width = padUpper part width := by
  rw [padUpper, padUpper, Bytes.fit, Bytes.fit, List.map_take, List.take_take, Nat.min_self,
    List.length_take]
  congr 2
  omega

theorem padUpper_map_toUpper (part : List Char) (width : Nat) :
    padUpper (part.map Char.toUpper) width = padUpper part width := by
  unfold padUpper
  rw [List.map_map]
  simp only [Function.comp_def, Text.toUpper_toUpper]

theorem caseFlag?_of_upper {part : List Char} (h : ∀ c ∈ part, c.isLower = false) (flag : UInt8) :
    caseFlag? part flag = some 0 := by
  have hlower : part.any Char.isLower = false := by
    rw [List.any_eq_false]
    exact fun c hc => by simp [h c hc]
  rw [caseFlag?, hlower]

/-- A digit of a checksum stands in a short name as it is. -/
theorem upperDigit_char {d : Nat} (h : d < 16) :
    isShortChar (Char.ofNat (Text.upperDigit d).toNat) = true ∧
      (Char.ofNat (Text.upperDigit d).toNat).isLower = false ∧
      UInt8.ofNat (Char.ofNat (Text.upperDigit d).toNat).toUpper.toNat = Text.upperDigit d := by
  have hall : ∀ d < 16, isShortChar (Char.ofNat (Text.upperDigit d).toNat) = true ∧
      (Char.ofNat (Text.upperDigit d).toNat).isLower = false ∧
      UInt8.ofNat (Char.ofNat (Text.upperDigit d).toNat).toUpper.toNat = Text.upperDigit d := by
    decide
  exact hall d h

theorem length_checksumDigits (name : String) : (checksumDigits name).length = 8 := by
  rw [checksumDigits, asciiText, List.length_map, Text.length_upperHex]

theorem mem_checksumDigits {c : Char} (h : c ∈ checksumDigits name) :
    ∃ d < 16, c = Char.ofNat (Text.upperDigit d).toNat := by
  obtain ⟨b, hb, rfl⟩ := List.mem_map.mp h
  obtain ⟨d, hd, rfl⟩ := List.mem_map.mp hb
  exact ⟨d, Text.nibbles_lt _ _ d hd, rfl⟩

theorem checksumDigits_chars (name : String) :
    (checksumDigits name).all isShortChar = true ∧
      ∀ c ∈ checksumDigits name, c.isLower = false := by
  constructor
  · refine List.all_eq_true.mpr fun c hc => ?_
    obtain ⟨d, hd, rfl⟩ := mem_checksumDigits hc
    exact (upperDigit_char hd).1
  · intro c hc
    obtain ⟨d, hd, rfl⟩ := mem_checksumDigits hc
    exact (upperDigit_char hd).2.1

theorem padUpper_checksumDigits (name : String) :
    padUpper (checksumDigits name) 8 = Text.upperHex 8 (crc32 (Text.utf8 name)).toNat := by
  have hbytes : (checksumDigits name).map (fun c => UInt8.ofNat c.toUpper.toNat) =
      Text.upperHex 8 (crc32 (Text.utf8 name)).toNat := by
    rw [checksumDigits, asciiText, List.map_map]
    refine (List.map_congr_left fun b hb => ?_).trans (List.map_id _)
    obtain ⟨d, hd, rfl⟩ := List.mem_map.mp hb
    exact (upperDigit_char (Text.nibbles_lt _ _ d hd)).2.2
  have hlength := Text.length_upperHex 8 (crc32 (Text.utf8 name)).toNat
  rw [padUpper, hbytes, Bytes.fit, hlength, Nat.sub_self, List.take_of_length_le hlength.le]
  exact List.append_nil _

theorem hashedExtension_chars (name : String) :
    (hashedExtension name).all isShortChar = true ∧ (hashedExtension name).length ≤ 3 ∧
      ∀ c ∈ hashedExtension name, c.isLower = false := by
  have hall : ∀ n < 128, isShortChar (Char.ofNat n) = true →
      isShortChar (Char.ofNat n).toUpper = true ∧ (Char.ofNat n).toUpper.isLower = false := by
    decide +kernel
  have hchars : ∀ c ∈ hashedExtension name, isShortChar c = true ∧ c.isLower = false := by
    intro upper hupper
    obtain ⟨c, hc, rfl⟩ := List.mem_map.mp hupper
    have hshort := (List.mem_filter.mp (List.mem_of_mem_take hc)).2
    have hupper := hall c.toNat (toNat_lt_of_isShortChar hshort)
    rw [Char.ofNat_toNat] at hupper
    exact hupper hshort
  refine ⟨List.all_eq_true.mpr fun c hc => (hchars c hc).1, ?_, fun c hc => (hchars c hc).2⟩
  rw [hashedExtension, List.length_map, List.length_take]
  exact Nat.min_le_left ..

theorem hashedShort_eq_append (name : String) :
    hashedShort name = Text.upperHex 8 (crc32 (Text.utf8 name)).toNat ++
      padUpper (hashedExtension name) 3 := by
  rw [hashedShort_eq, hashedExtension, padUpper_map_toUpper, padUpper_take]

/-- The short name that is made for a name is the short form of its text. -/
theorem shortForm?_aliasName (name : String) :
    shortForm? (aliasName name) = some (hashedShort name, 0) := by
  obtain ⟨hdigits, hdigitsUpper⟩ := checksumDigits_chars name
  obtain ⟨hchars, hlength, hcharsUpper⟩ := hashedExtension_chars name
  have height := length_checksumDigits name
  have hbase : checksumDigits name ≠ [] := by
    intro hempty
    rw [hempty] at height
    cases height
  have hshape : checksumDigits name ≠ [] ∧ (checksumDigits name).length ≤ 8 ∧
      (hashedExtension name).length ≤ 3 ∧
      (checksumDigits name ++ hashedExtension name).all isShortChar = true :=
    ⟨hbase, height.le, hlength, by rw [List.all_append, hdigits, hchars]; rfl⟩
  rw [shortForm?, aliasName, String.toList_ofList, splitExtension_joinParts
    (dot_not_mem_of_isShortChar hdigits) (dot_not_mem_of_isShortChar hchars)]
  simp only [if_pos hshape, caseFlag?_of_upper hdigitsUpper, caseFlag?_of_upper hcharsUpper]
  rw [padUpper_checksumDigits, ← hashedShort_eq_append]
  rfl

theorem shownShort_hashedShort (name : String) :
    shownShort (hashedShort name) 0 = aliasName name := by
  have hdigits := dot_not_mem_of_isShortChar (checksumDigits_chars name).1
  have hchars := dot_not_mem_of_isShortChar (hashedExtension_chars name).1
  rw [← String.toList_inj, toList_shownShort (shortForm?_aliasName name), aliasName,
    String.toList_ofList, splitExtension_joinParts hdigits hchars]

/-- Two names have one short name made for them just if their checksums and extensions agree. -/
theorem hashedShort_eq_iff :
    hashedShort a = hashedShort b ↔
      crc32 (Text.utf8 a) = crc32 (Text.utf8 b) ∧ hashedExtension a = hashedExtension b := by
  rw [hashedShort_eq_append, hashedShort_eq_append]
  constructor
  · intro h
    obtain ⟨hdigits, hpadded⟩ :=
      List.append_inj h (by rw [Text.length_upperHex, Text.length_upperHex])
    constructor
    · have hbound : ∀ crc : UInt32, crc.toNat < 16 ^ 8 := fun crc => crc.toNat_lt
      have hread := congrArg Text.ofHex? hdigits
      rw [Text.ofHex?_upperHex (hbound _), Text.ofHex?_upperHex (hbound _)] at hread
      exact UInt32.toNat_inj.mp (Option.some.inj hread)
    · obtain ⟨hchars, hlength, -⟩ := hashedExtension_chars a
      obtain ⟨hchars', hlength', -⟩ := hashedExtension_chars b
      rw [padUpper_eq_iff hchars hchars' hlength hlength', ← Text.map_toUpper_eq_iff] at hpadded
      rwa [hashedExtension, hashedExtension, List.map_map, List.map_map,
        Text.toUpper_comp_toUpper] at hpadded
  · rintro ⟨hsum, hextension⟩
    rw [hsum, hextension]

/-! ## Shared short names -/

/-- The short name that is made for `a`, which has no short form, is also that of `b`. -/
def SharesAlias (a b : String) : Prop :=
  shortForm? a = none ∧
    (shortForm? b = none ∧ crc32 (Text.utf8 a) = crc32 (Text.utf8 b) ∧
        hashedExtension a = hashedExtension b ∨
      (shortForm? b).isSome = true ∧ Text.sameName b (aliasName a) = true)

instance : DecidableRel SharesAlias := fun _ _ => inferInstanceAs (Decidable (_ ∧ (_ ∨ _)))

theorem shownShort_eq_self {short : Bytes} {flags : UInt8}
    (h : shortForm? name = some (short, flags)) (hdot : name.toList.getLast? ≠ some '.') :
    shownShort short flags = name := by
  rcases shownShort_of_shortForm? h with hsame | ⟨hdotted, -⟩
  · exact String.toList_inj.mp hsame
  · rw [← hdotted, List.getLast?_concat] at hdot
    exact absurd rfl hdot

/-- A short form is made for a name just if it is that of its alias. -/
theorem hashedShort_eq_short_iff {short : Bytes} {flags : UInt8}
    (h : shortForm? b = some (short, flags)) (hdot : b.toList.getLast? ≠ some '.') :
    hashedShort a = short ↔ Text.sameName b (aliasName a) = true := by
  rw [short_eq_iff (shortForm?_aliasName a) h, shownShort_eq_self h hdot,
    shownShort_hashedShort, Text.sameName_comm]

/-- Names that do not end in a dot have one short name just if it is made for one of them, unless
both are short and differ in the case of letters alone. -/
theorem short_shared_iff (ha : storedName? a = some m) (hb : storedName? b = some n)
    (hdotA : a.toList.getLast? ≠ some '.') (hdotB : b.toList.getLast? ≠ some '.')
    (hdiffer : (shortForm? a).isSome = true → (shortForm? b).isSome = true →
      Text.sameName a b = false) :
    m.short = n.short ↔ SharesAlias a b ∨ SharesAlias b a := by
  rcases storedName?_eq_some ha with ⟨hshortA, -⟩ | ⟨hnoneA, -, -, rfl⟩ <;>
    rcases storedName?_eq_some hb with ⟨hshortB, -⟩ | ⟨hnoneB, -, -, rfl⟩
  · rw [short_eq_iff hshortA hshortB, shownShort_eq_self hshortA hdotA,
      shownShort_eq_self hshortB hdotB, hdiffer (by rw [hshortA]; rfl) (by rw [hshortB]; rfl)]
    simp [SharesAlias, hshortA, hshortB]
  · rw [eq_comm, hashedShort_eq_short_iff hshortA hdotA]
    simp [SharesAlias, hshortA, hnoneB]
  · rw [hashedShort_eq_short_iff hshortB hdotB]
    simp [SharesAlias, hshortB, hnoneA]
  · rw [hashedShort_eq_iff]
    constructor
    · exact fun h => Or.inl ⟨hnoneA, Or.inl ⟨hnoneB, h⟩⟩
    · rintro (⟨-, ⟨-, h⟩ | ⟨hsome, -⟩⟩ | ⟨-, ⟨-, h⟩ | ⟨hsome, -⟩⟩)
      · exact h
      · rw [hnoneB] at hsome
        cases hsome
      · exact ⟨h.1.symm, h.2.symm⟩
      · rw [hnoneA] at hsome
        cases hsome

end BootVolume.Fat
