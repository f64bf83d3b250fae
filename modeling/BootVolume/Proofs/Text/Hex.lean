import Mathlib
import BootVolume.Newc.Stream

/-!
# Hexadecimal digits read back

A number of no more digits than a field has is read back from that field, in
digits of either case.  A field is a number just if it has digits only
(`isSome_ofHex?_iff`), and that number is written as the field is, up to the case
of the letters (`lowerHex_of_ofHex?`).
-/

namespace BootVolume.Text

open Newc.WrittenRecord (foldDigit)

theorem digitValue?_lowerDigit {d : Nat} (h : d < 16) : digitValue? (lowerDigit d) = some d := by
  have hall : ∀ d < 16, digitValue? (lowerDigit d) = some d := by decide
  exact hall d h

/-- The case of a digit makes no difference. -/
theorem digitValue?_foldDigit (b : UInt8) : digitValue? (foldDigit b) = digitValue? b := by
  have hall : ∀ n < 256, digitValue? (foldDigit (UInt8.ofNat n)) = digitValue? (UInt8.ofNat n) := by
    decide +kernel
  have hb := hall b.toNat b.toNat_lt
  rwa [UInt8.ofNat_toNat] at hb

/-- A byte that is no letter in lower case is as it was. -/
theorem eq_of_foldDigit_eq {b c : UInt8} (h : foldDigit b = c) (hc : c < 97) : b = c := by
  have hall : ∀ n < 256, foldDigit (UInt8.ofNat n) < 97 →
      UInt8.ofNat n = foldDigit (UInt8.ofNat n) := by
    decide +kernel
  have hb := hall b.toNat b.toNat_lt
  rw [UInt8.ofNat_toNat, h] at hb
  exact hb hc

theorem ofHex?_map_foldDigit (field : Bytes) : ofHex? (field.map foldDigit) = ofHex? field := by
  unfold ofHex?
  rw [List.foldlM_map]
  simp only [digitValue?_foldDigit]

theorem nibbles_lt (width n : Nat) : ∀ d ∈ nibbles width n, d < 16 := by
  induction width generalizing n with
  | zero => simp [nibbles]
  | succ width ih =>
      intro d hd
      rcases List.mem_append.mp hd with hd | hd
      · exact ih (n / 16) d hd
      · rw [List.mem_singleton.mp hd]
        exact Nat.mod_lt _ (by decide)

/-- Reading goes from the most significant digit on. -/
theorem ofHex?_concat (field : Bytes) (b : UInt8) :
    ofHex? (field ++ [b]) =
      (ofHex? field).bind fun value => (digitValue? b).map (value * 16 + ·) := by
  unfold ofHex?
  rw [List.foldlM_append]
  simp only [List.foldlM_cons, List.foldlM_nil, Option.bind_eq_bind, Option.pure_def,
    Option.bind_fun_some]

theorem ofHex?_lowerHex {width n : Nat} (h : n < 16 ^ width) :
    ofHex? (lowerHex width n) = some n := by
  induction width generalizing n with
  | zero =>
      obtain rfl : n = 0 := by simpa using h
      rfl
  | succ width ih =>
      have hhigh : n / 16 < 16 ^ width := by
        rw [Nat.pow_succ] at h
        omega
      have hlow := digitValue?_lowerDigit (Nat.mod_lt n (by decide : 0 < 16))
      have hread := ih hhigh
      unfold lowerHex at hread ⊢
      rw [nibbles, List.map_append, List.map_singleton, ofHex?_concat, hread, hlow]
      simp only [Option.bind_some, Option.map_some]
      congr 1
      omega

theorem ofHex?_upperHex {width n : Nat} (h : n < 16 ^ width) :
    ofHex? (upperHex width n) = some n := by
  have hfold : (upperHex width n).map foldDigit = lowerHex width n := by
    have hall : ∀ d < 16, foldDigit (upperDigit d) = lowerDigit d := by decide
    rw [upperHex, lowerHex, List.map_map]
    exact List.map_congr_left fun d hd => hall d (nibbles_lt _ _ d hd)
  rw [← ofHex?_map_foldDigit, hfold, ofHex?_lowerHex h]

/-! ## What is read -/

/-- A hexadecimal digit of either case. -/
def IsHexDigit (b : UInt8) : Prop :=
  (48 ≤ b ∧ b ≤ 57) ∨ (97 ≤ b ∧ b ≤ 102) ∨ (65 ≤ b ∧ b ≤ 70)

instance (b : UInt8) : Decidable (IsHexDigit b) := inferInstanceAs (Decidable (_ ∨ _))

theorem isSome_digitValue?_iff {b : UInt8} : (digitValue? b).isSome ↔ IsHexDigit b := by
  unfold digitValue?
  split
  case isTrue hdecimal => exact iff_of_true rfl (Or.inl hdecimal)
  case isFalse hdecimal =>
    split
    case isTrue hlower => exact iff_of_true rfl (Or.inr (Or.inl hlower))
    case isFalse hlower =>
      split
      case isTrue hupper => exact iff_of_true rfl (Or.inr (Or.inr hupper))
      case isFalse hupper => exact iff_of_false nofun (by rintro (h | h | h) <;> contradiction)

/-- A digit is the one that its value is written with, up to its case. -/
theorem lowerDigit_of_digitValue? {b : UInt8} {d : Nat} (h : digitValue? b = some d) :
    d < 16 ∧ lowerDigit d = foldDigit b := by
  have hall : ∀ n < 256, ∀ d ∈ digitValue? (UInt8.ofNat n),
      d < 16 ∧ lowerDigit d = foldDigit (UInt8.ofNat n) := by
    decide +kernel
  have hb := hall b.toNat b.toNat_lt
  rw [UInt8.ofNat_toNat] at hb
  exact hb d h

theorem ofHex?_concat_eq_some {field : Bytes} {b : UInt8} {n : Nat} :
    ofHex? (field ++ [b]) = some n ↔
      ∃ high low, ofHex? field = some high ∧ digitValue? b = some low ∧ high * 16 + low = n := by
  simp [ofHex?_concat, Option.bind_eq_some_iff]

/-- A field is a number just if it has digits only. -/
theorem isSome_ofHex?_iff (field : Bytes) : (ofHex? field).isSome ↔ ∀ b ∈ field, IsHexDigit b := by
  induction field using List.reverseRecOn with
  | nil => exact ⟨nofun, fun _ => rfl⟩
  | append_singleton field b ih =>
      rw [List.forall_mem_append, List.forall_mem_singleton, ← ih, ← isSome_digitValue?_iff,
        ofHex?_concat]
      cases ofHex? field <;> simp

/-- A number is written with the digits that it was read from, letters in lower case. -/
theorem lowerHex_of_ofHex? {field : Bytes} {n : Nat} (h : ofHex? field = some n) :
    n < 16 ^ field.length ∧ lowerHex field.length n = field.map foldDigit := by
  induction field using List.reverseRecOn generalizing n with
  | nil =>
      cases h
      exact ⟨Nat.one_pos, rfl⟩
  | append_singleton field b ih =>
      obtain ⟨high, low, hhigh, hlow, rfl⟩ := ofHex?_concat_eq_some.mp h
      obtain ⟨hbound, hfield⟩ := ih hhigh
      obtain ⟨hsmall, hdigit⟩ := lowerDigit_of_digitValue? hlow
      have hquotient : (high * 16 + low) / 16 = high := by omega
      have hremainder : (high * 16 + low) % 16 = low := by omega
      rw [List.length_append, List.length_singleton]
      refine ⟨by rw [Nat.pow_succ]; omega, ?_⟩
      rw [List.map_append, List.map_singleton, ← hdigit, ← hfield, lowerHex, nibbles, hquotient,
        hremainder, List.map_append, List.map_singleton, lowerHex]

theorem getElem?_nibbles {width i : Nat} (hi : i < width) (n : Nat) :
    (nibbles width n)[i]? = some (n / 16 ^ (width - 1 - i) % 16) := by
  induction width generalizing n with
  | zero => omega
  | succ width ih =>
      rw [nibbles]
      by_cases hlast : i = width
      · subst hlast
        rw [List.getElem?_append_right (by rw [length_nibbles]), length_nibbles]
        simp
      · have hbefore : i < width := by omega
        rw [List.getElem?_append_left (by rw [length_nibbles]; exact hbefore), ih hbefore,
          Nat.div_div_eq_div_mul, ← Nat.pow_succ']
        congr 4
        omega

/-- The digits of a word are its groups of four bits, the highest group first. -/
theorem getElem?_lowerHex_word {i : Nat} (hi : i < 8) (word : UInt32) :
    (lowerHex 8 word.toNat)[i]? =
      some (lowerDigit ((word >>> UInt32.ofNat (28 - 4 * i)) &&& 15).toNat) := by
  have hshift : (UInt32.ofNat (28 - 4 * i)).toNat % 32 = 4 * (7 - i) := by
    rw [UInt32.toNat_ofNat']
    omega
  have hmask : (15 : UInt32).toNat = 2 ^ 4 - 1 := rfl
  rw [lowerHex, List.getElem?_map, getElem?_nibbles hi, UInt32.toNat_and, UInt32.toNat_shiftRight,
    hshift, hmask, Nat.and_two_pow_sub_one_eq_mod, Nat.shiftRight_eq_div_pow, Nat.pow_mul]
  rfl

end BootVolume.Text
