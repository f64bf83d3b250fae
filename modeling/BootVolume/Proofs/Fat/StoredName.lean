import Mathlib
import BootVolume.Fat.Directory
import BootVolume.Proofs.Text.Utf16

/-!
# The slots of stored names

Every stored name has a short name of eleven bytes, so its entry takes up
exactly the slots that `StoredName.slots` counts.
-/

namespace BootVolume.Fat

@[simp] theorem length_padUpper (part : List Char) (width : Nat) :
    (padUpper part width).length = width :=
  Bytes.length_fit ..

theorem shortForm?_eq_some {name : String} {short : Bytes} {flags : UInt8}
    (h : shortForm? name = some (short, flags)) :
    (splitExtension name.toList).1 ≠ [] ∧ (splitExtension name.toList).1.length ≤ 8 ∧
      (splitExtension name.toList).2.length ≤ 3 ∧
      ((splitExtension name.toList).1 ++ (splitExtension name.toList).2).all isShortChar ∧
      ∃ b e, caseFlag? (splitExtension name.toList).1 lowerBase = some b ∧
        caseFlag? (splitExtension name.toList).2 lowerExtension = some e ∧
        short = padUpper (splitExtension name.toList).1 8 ++
          padUpper (splitExtension name.toList).2 3 ∧ flags = b ||| e := by
  unfold shortForm? at h
  rcases hsplit : splitExtension name.toList with ⟨base, extension⟩
  rw [hsplit] at h
  simp only at h
  split at h
  · rename_i hshape
    obtain ⟨hbase, hbound, hext, hchars⟩ := hshape
    split at h
    · rename_i b e hb he
      cases h
      exact ⟨hbase, hbound, hext, hchars, b, e, hb, he, rfl, rfl⟩
    · cases h
  · cases h

theorem length_hashedShort (name : String) : (hashedShort name).length = 11 := by
  simp [hashedShort]

/-- A name is stored in its short form if it has one, and otherwise in units. -/
theorem storedName?_eq_some {name : String} {n : StoredName} (h : storedName? name = some n) :
    (shortForm? name = some (n.short, n.caseFlags) ∧ n.long = none) ∨
      (shortForm? name = none ∧ Text.utf16 name ≠ [] ∧ (Text.utf16 name).length ≤ maxLongName ∧
        n = { short := hashedShort name, caseFlags := 0, long := some (Text.utf16 name) }) := by
  unfold storedName? at h
  split at h
  · rename_i short flags hshort
    cases h
    exact Or.inl ⟨hshort, rfl⟩
  · rename_i hshort
    by_cases hunits : Text.utf16 name ≠ [] ∧ (Text.utf16 name).length ≤ maxLongName
    · simp only [if_pos hunits] at h
      cases h
      exact Or.inr ⟨hshort, hunits.1, hunits.2, rfl⟩
    · simp only [if_neg hunits] at h
      cases h

/-- A name without a short form is not stored if it is empty or too long. -/
theorem storedName?_eq_none_iff {name : String} :
    storedName? name = none ↔
      shortForm? name = none ∧ (name = "" ∨ maxLongName < (Text.utf16 name).length) := by
  unfold storedName?
  cases shortForm? name with
  | some form => simp
  | none =>
      simp only [true_and, ite_eq_right_iff, reduceCtorEq, imp_false, not_and_or, not_not,
        Text.utf16_eq_nil_iff, Nat.not_le]

theorem length_short_of_storedName? {name : String} {n : StoredName}
    (h : storedName? name = some n) : n.short.length = 11 := by
  rcases storedName?_eq_some h with ⟨hshort, -⟩ | ⟨-, -, -, rfl⟩
  · obtain ⟨-, -, -, -, b, e, -, -, heq, -⟩ := shortForm?_eq_some hshort
    rw [heq]
    simp
  · exact length_hashedShort name

/-- The name with the most units takes up 21 slots. -/
theorem slots_le_of_storedName? {name : String} {n : StoredName} (h : storedName? name = some n) :
    n.slots ≤ 21 := by
  unfold StoredName.slots StoredName.longSlots
  rcases storedName?_eq_some h with ⟨-, hlong⟩ | ⟨-, -, hlength, rfl⟩
  · rw [hlong]
    decide
  · unfold maxLongName at hlength
    simp only [unitsPerSlot]
    omega

theorem length_longSlotsFrom (units : List UInt16) (sum : UInt8) (count number : Nat) :
    (longSlotsFrom units sum count number).length = slotSize * number := by
  induction number with
  | zero => rfl
  | succ number ih =>
      rw [longSlotsFrom, List.length_append, length_longSlot, ih, Nat.mul_succ, Nat.add_comm]

theorem StoredName.length_encode {n : StoredName} (h : n.short.length = 11)
    (attributes : UInt8) (cluster size : UInt32) :
    (n.encode attributes cluster size).length = slotSize * n.slots := by
  unfold StoredName.encode
  rw [List.length_append, DirectoryEntry.length_encode _ h, StoredName.slots,
    StoredName.longSlots]
  cases n.long with
  | none => rfl
  | some units =>
      rw [length_longSlotsFrom, Nat.mul_add, Nat.mul_one, Nat.add_comm]

end BootVolume.Fat
