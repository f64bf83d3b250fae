import BootVolume.Files.Entry
import BootVolume.Proofs.Content.Serves

/-!
# Reading files

What a read of a file brings, whatever its source and its patch are: on success
exactly as many bytes as were asked for.  An unpatched file is read like its
source.
-/

namespace BootVolume

variable {σ : Type} {storage : Storage σ}

namespace Files

/-! ## Patches keep the length -/

namespace BootStore

theorem seven_le_of_isHit {b : UInt8} {rest : Bytes} (h : isHit (b :: rest) = true) :
    7 ≤ rest.length := by
  have hlength := congrArg List.length (eq_of_beq h)
  simp only [sought, List.length_map, List.length_take, List.length_cons, List.length_nil]
    at hlength
  omega

theorem length_patchFrom (position windows : Nat) (data : Bytes) :
    (patchFrom position windows data).1.length = data.length := by
  induction windows generalizing position data with
  | zero => rfl
  | succ windows ih =>
      cases data with
      | nil => rfl
      | cons b rest =>
          by_cases hhit : isHit (b :: rest) = true
          · have hseven := seven_le_of_isHit hhit
            simp only [patchFrom, if_pos hhit, List.length_cons, ih, List.length_append,
              List.length_drop, replacement, List.tail_cons, List.length_nil]
            omega
          · simp only [patchFrom, if_neg hhit, List.length_cons, ih]

theorem length_patch (data : Bytes) : (patch data).1.length = data.length :=
  length_patchFrom 0 _ data

end BootStore

theorem Patch.length_apply (patch : Patch) (offset : Nat) (data : Bytes) (m : Machine σ) :
    (patch.apply storage offset data m).1.length = data.length := by
  cases patch with
  | bootStore => exact BootStore.length_patch data
  | rule id => exact (storage.patch id offset data m.world).1.property

/-! ## Reads of files -/

namespace FileEntry

theorem read_unpatched {file : FileEntry} (h : file.patch = none) (offset count : Nat) :
    file.read storage offset count = file.source.readExact storage offset count := by
  unfold FileEntry.read
  rw [h]
  exact bind_pure _

theorem length_of_read {file : FileEntry} {offset count : Nat} {m m' : Machine σ} {data : Bytes}
    (h : (file.read storage offset count).runOn m = (.ok data, m')) : data.length = count := by
  unfold FileEntry.read at h
  rw [Action.runOn_bind] at h
  rcases hread : (file.source.readExact storage offset count).runOn m with ⟨raw | raw, m₁⟩
  · rw [hread] at h
    cases h
  · rw [hread] at h
    have hraw := Source.length_of_readExact hread
    cases hpatch : file.patch with
    | none =>
        rw [hpatch] at h
        cases h
        exact hraw
    | some patch =>
        rw [hpatch] at h
        cases h
        exact (patch.length_apply offset raw m₁).trans hraw

/-- A patch never fails. -/
theorem runOn_read_eq_error_iff {file : FileEntry} {offset count : Nat} {m m' : Machine σ}
    {cause : ReadError} :
    (file.read storage offset count).runOn m = (.error cause, m') ↔
      (file.source.readExact storage offset count).runOn m = (.error cause, m') := by
  unfold FileEntry.read
  constructor
  · intro h
    rcases Action.runOn_bind_eq_error h with hsource | ⟨data, m₁, -, hpatch⟩
    · exact hsource
    · cases hfile : file.patch <;> rw [hfile] at hpatch <;> cases hpatch
  · exact fun hsource => Action.runOn_bind_error hsource _

/-- Nothing can always be read. -/
theorem read_nothing (storage : Storage σ) (file : FileEntry) (offset : Nat) (m : Machine σ) :
    ∃ m', (file.read storage offset 0).runOn m = (.ok [], m') := by
  have hread : file.source.readExact storage offset 0 = pure [] :=
    Source.readRest_of_le (Nat.le_refl 0)
  unfold FileEntry.read
  rw [hread, pure_bind]
  cases file.patch with
  | none => exact ⟨m, rfl⟩
  | some patch =>
      have hempty : (patch.apply storage offset [] m).1 = [] :=
        List.eq_nil_of_length_eq_zero (patch.length_apply offset [] m)
      refine ⟨(patch.apply storage offset [] m).2, ?_⟩
      show (Except.ok (patch.apply storage offset [] m).1, (patch.apply storage offset [] m).2) = _
      rw [hempty]

end FileEntry

end Files

end BootVolume
