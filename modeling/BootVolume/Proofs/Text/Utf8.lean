import Mathlib
import BootVolume.Newc.Reader

/-!
# Texts read back from UTF-8

The bytes of a text spell this text and no other.  A text without NUL
characters has no zero bytes, so nothing of it is taken for the filling behind
a name.
-/

namespace BootVolume.Text

theorem ofUtf8?_utf8 (text : String) : ofUtf8? (utf8 text) = some text := by
  have hbytes : (utf8 text).toByteArray = text.toByteArray := String.utf8Encode_toList
  unfold ofUtf8?
  rw [hbytes, String.fromUTF8?, dif_pos text.isValidUTF8]
  rfl

/-- A text is spelled by its own bytes only. -/
theorem utf8_of_ofUtf8? {data : Bytes} {text : String} (h : ofUtf8? data = some text) :
    utf8 text = data := by
  have hbytes : (utf8 text).toByteArray = text.toByteArray := String.utf8Encode_toList
  unfold ofUtf8? String.fromUTF8? at h
  split at h
  · cases h
    exact List.toByteArray_inj.mp hbytes
  · cases h

/-- The zero byte stands for NUL alone. -/
theorem eq_nul_of_zero_mem {c : Char} (h : 0 ∈ String.utf8EncodeChar c) : c = '\x00' := by
  have hne : ∀ n, 0 < n → n < 256 → (0 : UInt8) ≠ UInt8.ofNat n := by
    intro n hpos hlt heq
    have htoNat := congrArg UInt8.toNat heq
    rw [UInt8.toNat_ofNat'] at htoNat
    have : UInt8.toNat 0 = 0 := rfl
    omega
  unfold String.utf8EncodeChar at h
  simp only at h
  split at h
  · rename_i hle
    rw [List.mem_singleton] at h
    have hzero : c.val.toNat = 0 := by
      by_contra hpos
      exact hne _ (Nat.pos_of_ne_zero hpos) (by omega) h
    exact Char.ext (UInt32.toNat_inj.mp hzero)
  · exfalso
    split at h
    · simp only [List.mem_cons, List.not_mem_nil, or_false] at h
      rcases h with h | h <;> exact hne _ (by omega) (by omega) h
    · split at h
      · simp only [List.mem_cons, List.not_mem_nil, or_false] at h
        rcases h with h | h | h <;> exact hne _ (by omega) (by omega) h
      · simp only [List.mem_cons, List.not_mem_nil, or_false] at h
        rcases h with h | h | h | h <;> exact hne _ (by omega) (by omega) h

theorem zero_not_mem_utf8 {text : String} (h : '\x00' ∉ text.toList) : 0 ∉ utf8 text := by
  intro hmem
  obtain ⟨c, hc, hzero⟩ := List.mem_flatMap.mp hmem
  exact h (eq_nul_of_zero_mem hzero ▸ hc)

end BootVolume.Text

namespace BootVolume.Newc

/-- Bytes that do not end in zero are cut off behind no earlier place. -/
theorem stripNuls_append {raw : Bytes} (h : raw.getLast? ≠ some 0) (nuls : Nat) :
    stripNuls (raw ++ Bytes.zeros nuls) = raw := by
  have hzeros : ∀ b ∈ (Bytes.zeros nuls).reverse, (b == 0) = true := by
    intro b hb
    rw [List.eq_of_mem_replicate (List.mem_reverse.mp hb)]
    rfl
  unfold stripNuls
  rw [List.reverse_append, List.dropWhile_append_of_pos hzeros]
  rw [← List.head?_reverse] at h
  cases hreverse : raw.reverse with
  | nil => rw [List.reverse_eq_nil_iff.mp hreverse]; rfl
  | cons b rest =>
      rw [hreverse, List.head?_cons] at h
      rw [List.dropWhile_cons_of_neg (by simpa using h), ← hreverse, List.reverse_reverse]

/-- What is cut off are the zeros at the end, all of them. -/
theorem exists_stripNuls_append (raw : Bytes) :
    (∃ nuls, raw = stripNuls raw ++ Bytes.zeros nuls) ∧ (stripNuls raw).getLast? ≠ some 0 := by
  have hzeros : (raw.reverse.takeWhile (· == 0)).reverse =
      Bytes.zeros (raw.reverse.takeWhile (· == 0)).length := by
    refine List.eq_replicate_iff.mpr ⟨List.length_reverse, fun b hb => ?_⟩
    exact eq_of_beq (List.mem_takeWhile_imp (p := (· == 0)) (List.mem_reverse.mp hb))
  constructor
  · refine ⟨(raw.reverse.takeWhile (· == 0)).length, ?_⟩
    rw [← hzeros, stripNuls, ← List.reverse_append, List.takeWhile_append_dropWhile,
      List.reverse_reverse]
  · intro hlast
    rw [stripNuls, List.getLast?_reverse] at hlast
    have := List.head?_dropWhile_not (· == 0) raw.reverse
    rw [hlast] at this
    simp at this

end BootVolume.Newc
