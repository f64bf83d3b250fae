import BootVolume.Proofs.Text.CaseFold
import BootVolume.Text.Utf16

/-!
# Reading UTF-16 back

The units of a text spell that text again, character by character, and a text
without the character zero has no unit that is zero.
-/

namespace BootVolume.Text

/-! ## Surrogates -/

theorem isHighSurrogate_iff {u : UInt16} :
    isHighSurrogate u = true ↔ 0xD800 ≤ u.toNat ∧ u.toNat < 0xDC00 := by
  simp [isHighSurrogate, UInt16.le_iff_toNat_le, UInt16.lt_iff_toNat_lt]

theorem isLowSurrogate_iff {u : UInt16} :
    isLowSurrogate u = true ↔ 0xDC00 ≤ u.toNat ∧ u.toNat < 0xE000 := by
  simp [isLowSurrogate, UInt16.le_iff_toNat_le, UInt16.lt_iff_toNat_lt]

/-- The code point of a character is below 0x110000 and no surrogate. -/
theorem toNat_char_cases (c : Char) :
    c.toNat < 0xD800 ∨ 0xE000 ≤ c.toNat ∧ c.toNat < 0x110000 := by
  rcases c.valid with h | ⟨hlow, hhigh⟩
  · exact Or.inl h
  · exact Or.inr ⟨hlow, hhigh⟩

theorem toNat_ofNat_of_lt {n : Nat} (h : n < 0x10000) : (UInt16.ofNat n).toNat = n := by
  rw [UInt16.toNat_ofNat']
  exact Nat.mod_eq_of_lt h

/-! ## One character -/

theorem charsOfUnits_of_not_high {u : UInt16} (h : isHighSurrogate u = false)
    (rest : List UInt16) : charsOfUnits (u :: rest) = charOfUnit u :: charsOfUnits rest := by
  cases rest with
  | nil => rfl
  | cons v rest => simp [charsOfUnits, h]

theorem charsOfUnits_of_pair {high low : UInt16} (hhigh : isHighSurrogate high = true)
    (hlow : isLowSurrogate low = true) (rest : List UInt16) :
    charsOfUnits (high :: low :: rest) = some (charOfPair high low) :: charsOfUnits rest := by
  simp [charsOfUnits, hhigh, hlow]

theorem charsOfUnits_unitsOfChar (c : Char) (rest : List UInt16) :
    charsOfUnits (unitsOfChar c ++ rest) = some c :: charsOfUnits rest := by
  have hvalid := toNat_char_cases c
  unfold unitsOfChar
  by_cases hsmall : c.toNat < 0x10000
  · have hunit := toNat_ofNat_of_lt hsmall
    have hhigh : isHighSurrogate (UInt16.ofNat c.toNat) = false := by
      rw [← Bool.not_eq_true, isHighSurrogate_iff, hunit]
      omega
    have hlow : isLowSurrogate (UInt16.ofNat c.toNat) = false := by
      rw [← Bool.not_eq_true, isLowSurrogate_iff, hunit]
      omega
    rw [if_pos hsmall, List.cons_append, List.nil_append, charsOfUnits_of_not_high hhigh,
      charOfUnit, hhigh, hlow, hunit, Char.ofNat_toNat]
    rfl
  · have hhighUnit := toNat_ofNat_of_lt (n := 0xD800 + (c.toNat - 0x10000) / 0x400) (by omega)
    have hlowUnit := toNat_ofNat_of_lt (n := 0xDC00 + (c.toNat - 0x10000) % 0x400) (by omega)
    rw [if_neg hsmall]
    simp only [List.cons_append, List.nil_append]
    rw [charsOfUnits_of_pair (isHighSurrogate_iff.mpr (by rw [hhighUnit]; omega))
      (isLowSurrogate_iff.mpr (by rw [hlowUnit]; omega)), charOfPair, hhighUnit, hlowUnit,
      show 0x10000 + (0xD800 + (c.toNat - 0x10000) / 0x400 - 0xD800) * 0x400 +
        (0xDC00 + (c.toNat - 0x10000) % 0x400 - 0xDC00) = c.toNat by omega, Char.ofNat_toNat]

/-! ## Texts -/

theorem charsOfUnits_utf16 (text : String) : charsOfUnits (utf16 text) = text.toList.map some := by
  unfold utf16
  induction text.toList with
  | nil => rfl
  | cons c rest ih =>
      rw [List.flatMap_cons, charsOfUnits_unitsOfChar, ih]
      rfl

theorem ofUtf16Lossy_utf16 (text : String) : ofUtf16Lossy (utf16 text) = text := by
  unfold ofUtf16Lossy
  rw [charsOfUnits_utf16, List.map_map]
  simp [Function.comp_def]

/-- In the units of a text every surrogate has its partner. -/
theorem ofUtf16?_utf16 (text : String) : ofUtf16? (utf16 text) = some text := by
  have hread : (text.toList.map some).mapM id = some text.toList := by
    induction text.toList with
    | nil => rfl
    | cons c rest ih =>
        rw [List.map_cons, List.mapM_cons, ih]
        rfl
  rw [ofUtf16?, charsOfUnits_utf16, hread, Option.map_some, String.ofList_toList]

theorem utf16_eq_nil_iff {text : String} : utf16 text = [] ↔ text = "" := by
  constructor
  · intro h
    rw [← ofUtf16Lossy_utf16 text, h]
    rfl
  · rintro rfl
    rfl

/-- Names that differ only in case have equally many units. -/
theorem length_utf16_of_sameName {a b : String} (h : sameName a b = true) :
    (utf16 a).length = (utf16 b).length := by
  have hfold : ∀ text,
      (utf16 text).length = ((fold text).map fun c => (unitsOfChar c).length).sum := by
    intro text
    rw [utf16, List.length_flatMap, fold, List.map_map]
    congr 1
    refine List.map_congr_left fun c _ => (?_ : _ = (unitsOfChar c.toLower).length)
    exact (apply_toLower (f := fun c => (unitsOfChar c).length) (by decide) c).symm
  rw [hfold a, hfold b, (sameName_iff a b).mp h]

/-- The unit zero stands for NUL alone. -/
theorem ne_zero_of_mem_unitsOfChar {c : Char} (h : c ≠ '\x00') : ∀ u ∈ unitsOfChar c, u ≠ 0 := by
  intro u hu hzero
  have hvalid := toNat_char_cases c
  unfold unitsOfChar at hu
  rw [hzero] at hu
  split at hu
  · rename_i hsmall
    have hunit := congrArg UInt16.toNat (List.mem_singleton.mp hu)
    rw [toNat_ofNat_of_lt hsmall] at hunit
    exact h (Char.toNat_inj.mp hunit.symm)
  · simp only [List.mem_cons, List.not_mem_nil, or_false] at hu
    rcases hu with hu | hu
    · have hunit := congrArg UInt16.toNat hu
      rw [toNat_ofNat_of_lt (by omega)] at hunit
      simp only [UInt16.reduceToNat] at hunit
      omega
    · have hunit := congrArg UInt16.toNat hu
      rw [toNat_ofNat_of_lt (by omega)] at hunit
      simp only [UInt16.reduceToNat] at hunit
      omega

theorem ne_zero_of_mem_utf16 {text : String} (h : '\x00' ∉ text.toList) :
    ∀ u ∈ utf16 text, u ≠ 0 := by
  intro u hu
  obtain ⟨c, hc, hu⟩ := List.mem_flatMap.mp hu
  refine ne_zero_of_mem_unitsOfChar ?_ u hu
  rintro rfl
  exact h hc

/-- A text up to its first NUL. -/
def beforeNul (text : String) : String := String.ofList (text.toList.takeWhile (· != '\x00'))

theorem beforeNul_eq_self {text : String} (h : '\x00' ∉ text.toList) : beforeNul text = text := by
  have hwhole : text.toList.takeWhile (· != '\x00') = text.toList := by
    refine List.takeWhile_eq_self_iff.mpr fun c hc => bne_iff_ne.mpr ?_
    rintro rfl
    exact h hc
  rw [beforeNul, hwhole, String.ofList_toList]

theorem fold_beforeNul (text : String) :
    fold (beforeNul text) = (fold text).takeWhile (· != '\x00') := by
  have hkept : ((· != '\x00') ∘ Char.toLower) = (· != '\x00') :=
    funext fun c => apply_toLower (f := (· != '\x00')) (by decide) c
  rw [fold, fold, beforeNul, String.toList_ofList, List.takeWhile_map, hkept]

theorem sameName_beforeNul {a b : String} (h : sameName a b = true) :
    sameName (beforeNul a) (beforeNul b) = true := by
  rw [sameName_iff] at h ⊢
  rw [fold_beforeNul, fold_beforeNul, h]

/-- The units of a text up to the first zero are those up to its first NUL. -/
theorem ofUtf16Lossy_takeWhile (text : String) :
    ofUtf16Lossy ((utf16 text).takeWhile (· != 0)) = beforeNul text := by
  have hunits : (utf16 text).takeWhile (· != 0) = utf16 (beforeNul text) := by
    unfold utf16 beforeNul
    rw [String.toList_ofList]
    induction text.toList with
    | nil => rfl
    | cons c rest ih =>
        rw [List.flatMap_cons]
        by_cases hc : c = '\x00'
        · subst hc
          rfl
        · have hkept : ∀ u ∈ unitsOfChar c, (u != 0) = true := fun u hu =>
            bne_iff_ne.mpr (ne_zero_of_mem_unitsOfChar hc u hu)
          have hnext : (c :: rest).takeWhile (· != '\x00') = c :: rest.takeWhile (· != '\x00') :=
            List.takeWhile_cons_of_pos (bne_iff_ne.mpr hc)
          rw [List.takeWhile_append_of_pos hkept, ih, hnext, List.flatMap_cons]
  rw [hunits, ofUtf16Lossy_utf16]

end BootVolume.Text
