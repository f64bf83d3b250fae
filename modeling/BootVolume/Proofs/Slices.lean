import Mathlib
import BootVolume.Bytes

/-!
# Slices of byte strings

How the shapes of `Bytes` fit together: consecutive slices join, a slice of a
slice is a slice, and a little-endian word is read back from the place where it
was written.
-/

namespace BootVolume.Bytes

/-! ## Slices -/

theorem getElem?_slice (data : Bytes) (offset count i : Nat) :
    (slice data offset count)[i]? = if i < count then data[offset + i]? else none := by
  unfold slice
  rw [List.getElem?_take]
  split
  · rw [List.getElem?_drop]
  · rfl

theorem slice_add (data : Bytes) (offset first second : Nat) :
    slice data offset (first + second) =
      slice data offset first ++ slice data (offset + first) second := by
  unfold slice
  rw [List.take_add, List.drop_drop]

@[simp] theorem slice_zero_count (data : Bytes) (offset : Nat) : slice data offset 0 = [] := by
  simp [slice]

theorem slice_drop (data : Bytes) (skipped offset count : Nat) :
    slice (data.drop skipped) offset count = slice data (skipped + offset) count := by
  rw [slice, slice, List.drop_drop]

theorem slice_eq_nil {data : Bytes} {offset : Nat} (h : data.length ≤ offset) (count : Nat) :
    slice data offset count = [] := by
  simp [slice, List.drop_eq_nil_of_le h]

@[simp] theorem slice_whole (data : Bytes) : slice data 0 data.length = data := by
  simp [slice]

/-- The middle of three strings is the slice at its place. -/
theorem slice_middle (before middle after : Bytes) :
    slice (before ++ middle ++ after) before.length middle.length = middle := by
  simp [slice, List.append_assoc]

/-- Behind two strings nothing is left but a third. -/
theorem drop_middle (before middle after : Bytes) (count : Nat) :
    (before ++ (middle ++ after)).drop (before.length + (middle.length + count)) =
      after.drop count := by
  rw [List.drop_append, List.drop_of_length_le (Nat.le_add_right ..), List.nil_append,
    Nat.add_sub_cancel_left, List.drop_append, List.drop_of_length_le (Nat.le_add_right ..),
    List.nil_append, Nat.add_sub_cancel_left]

theorem slice_append_left {first : Bytes} {offset count : Nat}
    (h : offset + count ≤ first.length) (second : Bytes) :
    slice (first ++ second) offset count = slice first offset count := by
  unfold slice
  rw [List.drop_append_of_le_length (by omega),
    List.take_append_of_le_length (by rw [List.length_drop]; omega)]

theorem slice_append_right {first : Bytes} {offset : Nat} (h : first.length ≤ offset)
    (second : Bytes) (count : Nat) :
    slice (first ++ second) offset count = slice second (offset - first.length) count := by
  unfold slice
  rw [List.drop_append, List.drop_eq_nil_of_le h, List.nil_append]

theorem eq_slice_of_isPrefix {part data : Bytes} {offset : Nat}
    (h : part <+: data.drop offset) : part = slice data offset part.length :=
  List.prefix_iff_eq_take.mp h

theorem slice_zeros (size offset count : Nat) :
    slice (zeros size) offset count = zeros (min count (size - offset)) := by
  simp [slice, zeros]

@[simp] theorem getElem?_zeros (count i : Nat) :
    (zeros count)[i]? = if i < count then some 0 else none := by
  simp [zeros, List.getElem?_replicate]

/-- The bytes from `offset` on, and zeros where `data` has ended. -/
theorem map_getD_range (data : Bytes) (offset count : Nat) :
    ((List.range count).map fun i => data.getD (offset + i) 0) =
      slice data offset count ++ zeros (count - (data.length - offset)) := by
  refine List.ext_getElem ?_ fun i hi _ => ?_
  · rw [List.length_map, List.length_range, List.length_append, length_slice, length_zeros]
    omega
  rw [List.length_map, List.length_range] at hi
  rw [List.getElem_map, List.getElem_range]
  by_cases hinside : offset + i < data.length
  · have hslice : i < (slice data offset count).length := by
      rw [length_slice]
      omega
    rw [List.getElem_append_left hslice, List.getD_eq_getElem _ _ hinside]
    simp [slice]
  · rw [List.getElem_append_right (by rw [length_slice]; omega),
      List.getD_eq_default _ _ (Nat.not_lt.mp hinside)]
    simp [zeros]

/-- Of parts of equal length that stand one behind the other each is found at its place. -/
theorem slice_flatMap {α : Type} {f : α → Bytes} {size : Nat} (hsize : ∀ a, (f a).length = size)
    {parts : List α} {i : Nat} {a : α} (h : parts[i]? = some a) :
    slice (parts.flatMap f) (size * i) size = f a := by
  induction parts generalizing i with
  | nil => cases h
  | cons b rest ih =>
      cases i with
      | zero =>
          cases h
          rw [List.flatMap_cons, Nat.mul_zero, slice, List.drop_zero, List.take_left' (hsize _)]
      | succ i =>
          rw [List.flatMap_cons, slice_append_right (by rw [hsize, Nat.mul_succ]; omega), hsize,
            Nat.mul_succ, Nat.add_sub_cancel]
          exact ih h

theorem slice_map (f : UInt8 → UInt8) (data : Bytes) (offset count : Nat) :
    slice (data.map f) offset count = (slice data offset count).map f := by
  rw [slice, slice, ← List.map_drop, ← List.map_take]

/-! ## Words -/

theorem slice_self {data : Bytes} {count : Nat} (h : data.length = count) :
    slice data 0 count = data :=
  List.take_of_length_le (Nat.le_of_eq h)

theorem toNatLE_le16 (v : UInt16) : toNatLE (le16 v) = v.toNat := by
  rw [le16, toNatLE_ofNatLE]
  exact Nat.mod_eq_of_lt v.toNat_lt

theorem toNatLE_le32 (v : UInt32) : toNatLE (le32 v) = v.toNat := by
  rw [le32, toNatLE_ofNatLE]
  exact Nat.mod_eq_of_lt v.toNat_lt

/-! ## Splices -/

theorem getD_splice {buffer data : Bytes} {place : Nat}
    (h : place + data.length ≤ buffer.length) (i : Nat) :
    (splice buffer place data).getD i 0 =
      if place ≤ i ∧ i < place + data.length then data.getD (i - place) 0
      else buffer.getD i 0 := by
  have htake : (buffer.take place).length = place := by
    rw [List.length_take]
    omega
  simp only [List.getD_eq_getElem?_getD, splice, List.append_assoc]
  by_cases hbefore : i < place
  · rw [List.getElem?_append_left (by omega), List.getElem?_take_of_lt hbefore,
      if_neg (by omega)]
  · rw [List.getElem?_append_right (by omega), htake]
    by_cases hinside : i < place + data.length
    · rw [List.getElem?_append_left (by omega), if_pos ⟨by omega, hinside⟩]
    · rw [List.getElem?_append_right (by omega), List.getElem?_drop, if_neg (by omega)]
      congr 2
      omega

end BootVolume.Bytes
