import Mathlib
import BootVolume.Text.CaseFold

/-!
# Letters in either case

Only ASCII letters have another case, so what is said about the case of all
characters is checked for the 128 of them (`forall_char`).  A list of characters
in lower case tells as much as the list in upper case.
-/

namespace BootVolume.Text

/-- What holds of the ASCII characters, and of all characters without another case, holds of
every character. -/
@[elab_as_elim] theorem forall_char {p : Char → Prop} (small : ∀ n < 128, p (Char.ofNat n))
    (large : ∀ c : Char, c.toLower = c → c.toUpper = c → p c) (c : Char) : p c := by
  by_cases hsmall : c.toNat < 128
  · have hc := small c.toNat hsmall
    rwa [Char.ofNat_toNat] at hc
  · have hbounds : 'Z'.val.toNat < 128 ∧ 'z'.val.toNat < 128 := by decide
    apply large
    · have hupper : ¬ (c.val ≥ 'A'.val ∧ c.val ≤ 'Z'.val) := by
        rintro ⟨-, hle⟩
        have hle : c.toNat ≤ 'Z'.val.toNat := UInt32.le_iff_toNat_le.mp hle
        omega
      unfold Char.toLower
      rw [dif_neg hupper]
    · have hlower : ¬ ('a'.val ≤ c.val ∧ c.val ≤ 'z'.val) := by
        rintro ⟨-, hle⟩
        have hle : c.toNat ≤ 'z'.val.toNat := UInt32.le_iff_toNat_le.mp hle
        omega
      unfold Char.toUpper
      rw [dif_neg hlower]

/-- What tells no two ASCII characters apart by their case, tells no characters apart by it. -/
theorem apply_toLower {α : Type} {f : Char → α}
    (small : ∀ n < 128, f (Char.ofNat n).toLower = f (Char.ofNat n)) (c : Char) :
    f c.toLower = f c := by
  refine forall_char small ?_ c
  intro c hlower _
  rw [hlower]

theorem toUpper_toLower (c : Char) : c.toLower.toUpper = c.toUpper :=
  apply_toLower (by decide) c

theorem toLower_toUpper (c : Char) : c.toUpper.toLower = c.toLower := by
  refine forall_char ?_ ?_ c
  · decide
  · intro c _ hupper
    rw [hupper]

theorem toUpper_toUpper (c : Char) : c.toUpper.toUpper = c.toUpper := by
  refine forall_char ?_ ?_ c
  · decide
  · intro c _ hupper
    rw [hupper, hupper]

theorem toUpper_comp_toUpper : Char.toUpper ∘ Char.toUpper = Char.toUpper :=
  funext toUpper_toUpper

theorem map_toUpper_eq_iff {cs ds : List Char} :
    cs.map Char.toUpper = ds.map Char.toUpper ↔ cs.map Char.toLower = ds.map Char.toLower := by
  constructor
  · intro h
    have hlower := congrArg (List.map Char.toLower) h
    simpa only [List.map_map, Function.comp_def, toLower_toUpper] using hlower
  · intro h
    have hupper := congrArg (List.map Char.toUpper) h
    simpa only [List.map_map, Function.comp_def, toUpper_toLower] using hupper

theorem toLower_eq_dot_iff {c : Char} : c.toLower = '.' ↔ c = '.' := by
  have hdot := apply_toLower (f := (· == '.')) (by decide) c
  rw [← beq_iff_eq, hdot, beq_iff_eq]

theorem dot_mem_map_toLower_iff {cs : List Char} : '.' ∈ cs.map Char.toLower ↔ '.' ∈ cs := by
  simp [toLower_eq_dot_iff]

end BootVolume.Text
