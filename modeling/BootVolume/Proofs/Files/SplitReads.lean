import BootVolume.Proofs.Files.Alike
import BootVolume.Proofs.Files.References

/-!
# Reading the boot configuration store in parts

The patch of the boot configuration store sees the bytes of one request.  A read
of a range and the reads of two parts of it bring the same bytes just if no
reference lies across the place where the parts meet (`split_reads_agree_iff`).

Away from that place a reference stands in the whole range just if it stands in
one of the parts, so the parts put together are the whole with all references
replaced.  A reference across it is replaced in the whole only: references do not
overlap, so no other one can have changed its bytes in the parts.
-/

namespace BootVolume.Files

namespace BootStore

/-! ## Parts of a byte string -/

section Parts

variable {first second : Bytes}

theorem refersAt_slice_iff {data : Bytes} {offset count place : Nat} :
    RefersAt (Bytes.slice data offset count) place ↔
      RefersAt data (offset + place) ∧ place + 8 ≤ count := by
  have hsame : place + 8 ≤ count →
      (RefersAt (Bytes.slice data offset count) place ↔ RefersAt data (offset + place)) := by
    intro hfits
    have hslice : Bytes.slice (Bytes.slice data offset count) place 8 =
        Bytes.slice data (offset + place) 8 := by
      apply List.ext_getElem?
      intro d
      simp only [Bytes.getElem?_slice, Nat.add_assoc]
      by_cases hd : d < 8
      · rw [if_pos hd, if_pos hd, if_pos (by omega)]
      · rw [if_neg hd, if_neg hd]
    unfold RefersAt
    rw [hslice]
  constructor
  · intro h
    have hplace := h.place_le
    rw [Bytes.length_slice] at hplace
    have hfits : place + 8 ≤ count := by omega
    exact ⟨(hsame hfits).mp h, hfits⟩
  · rintro ⟨h, hfits⟩
    exact (hsame hfits).mpr h

theorem refersAt_append_left_iff {place : Nat} (h : place + 8 ≤ first.length) :
    RefersAt (first ++ second) place ↔ RefersAt first place := by
  unfold RefersAt
  rw [Bytes.slice_append_left h]

theorem refersAt_append_right_iff {place : Nat} :
    RefersAt (first ++ second) (first.length + place) ↔ RefersAt second place := by
  unfold RefersAt
  rw [Bytes.slice_append_right (Nat.le_add_right ..), Nat.add_sub_cancel_left]

/-- A reference lies across the place where two byte strings meet. -/
def Straddles (first second : Bytes) (place : Nat) : Prop :=
  RefersAt (first ++ second) place ∧ place < first.length ∧ first.length < place + 8

variable {out out' : Bytes}

theorem Replaced.getElem?_append_left (h : Replaced first out) (out' : Bytes) {k : Nat}
    (hk : k < first.length) : (out ++ out')[k]? = out[k]? :=
  List.getElem?_append_left (by rw [h.length_eq]; exact hk)

theorem Replaced.getElem?_append_right (h : Replaced first out) (out' : Bytes) (k : Nat) :
    (out ++ out')[first.length + k]? = out'[k]? := by
  rw [← h.length_eq, List.getElem?_append_right (Nat.le_add_right ..), Nat.add_sub_cancel_left]

/-- Away from the place where they meet, parts are replaced as the whole is. -/
theorem Replaced.append (h : Replaced first out) (h' : Replaced second out')
    (hnone : ∀ place, ¬ Straddles first second place) :
    Replaced (first ++ second) (out ++ out') where
  length_eq := by rw [List.length_append, List.length_append, h.length_eq, h'.length_eq]
  inside := by
    intro place hplace
    by_cases hleft : place + 8 ≤ first.length
    · rw [Bytes.slice_append_left (by rw [h.length_eq]; exact hleft)]
      exact h.inside place ((refersAt_append_left_iff hleft).mp hplace)
    · have hright : first.length ≤ place := by
        by_contra hbefore
        exact hnone place ⟨hplace, by omega, by omega⟩
      obtain ⟨place, rfl⟩ := Nat.exists_eq_add_of_le hright
      rw [Bytes.slice_append_right (by rw [h.length_eq]; exact hright), h.length_eq,
        Nat.add_sub_cancel_left]
      exact h'.inside place (refersAt_append_right_iff.mp hplace)
  outside := by
    intro k houtside
    by_cases hk : k < first.length
    · rw [h.getElem?_append_left out' hk, List.getElem?_append_left hk]
      apply h.outside
      intro place hplace
      exact houtside place ((refersAt_append_left_iff hplace.place_le).mpr hplace)
    · obtain ⟨k, rfl⟩ := Nat.exists_eq_add_of_le (Nat.not_lt.mp hk)
      rw [h.getElem?_append_right out', List.getElem?_append_right (Nat.le_add_right ..),
        Nat.add_sub_cancel_left]
      apply h'.outside
      intro place hplace hin
      refine houtside (first.length + place) (refersAt_append_right_iff.mpr hplace) ?_
      obtain ⟨hlow, hhigh⟩ := hin
      exact ⟨by omega, by omega⟩

/-- Replacing in parts leaves a reference across the place where they meet as it is. -/
theorem Replaced.kept_of_straddles (h : Replaced first out) (h' : Replaced second out')
    {place : Nat} (hacross : Straddles first second place) {k : Nat} (hk : InWindow place k) :
    (out ++ out')[k]? = (first ++ second)[k]? := by
  obtain ⟨hplace, hbefore, hbehind⟩ := hacross
  by_cases hleft : k < first.length
  · rw [h.getElem?_append_left out' hleft, List.getElem?_append_left hleft]
    apply h.outside
    intro other hother hin
    have hother_le := hother.place_le
    have heq := hplace.eq_of_inWindow ((refersAt_append_left_iff hother_le).mpr hother) hk hin
    omega
  · obtain ⟨k, rfl⟩ := Nat.exists_eq_add_of_le (Nat.not_lt.mp hleft)
    rw [h.getElem?_append_right out', List.getElem?_append_right (Nat.le_add_right ..),
      Nat.add_sub_cancel_left]
    apply h'.outside
    intro other hother hin
    have hin : InWindow (first.length + other) (first.length + k) := by
      obtain ⟨hlow, hhigh⟩ := hin
      exact ⟨by omega, by omega⟩
    have heq := hplace.eq_of_inWindow (refersAt_append_right_iff.mpr hother) hk hin
    omega

/-- Patching two parts is patching the whole just if no reference lies across the place where
they meet. -/
theorem patch_append_iff :
    (patch (first ++ second)).1 = (patch first).1 ++ (patch second).1 ↔
      ∀ place, ¬ Straddles first second place := by
  have hwhole := replaced_patch (first ++ second)
  have hfirst := replaced_patch first
  have hsecond := replaced_patch second
  constructor
  · intro hagree place hacross
    -- The third letter of the reference is another one in the whole, and the same in the parts.
    have hk : InWindow place (place + 4) := ⟨by omega, by omega⟩
    have hnew := hwhole.getElem?_inside hacross.1 hk
    rw [hagree, hfirst.kept_of_straddles hsecond hacross hk, Nat.add_sub_cancel_left] at hnew
    have hletter := hacross.1.getElem? (d := 4) (by decide)
    rw [hnew] at hletter
    exact absurd hletter (by decide)
  · intro hnone
    exact hwhole.unique (hfirst.append hsecond hnone)

end Parts

end BootStore

/-! ## Reads of files -/

section Reads

open BootStore

variable {σ : Type} {storage : Storage σ} {good : Machine σ → Prop} {file : FileEntry}
  {content : Bytes}

/-- Read a range of a file by two requests, one for each part of it. -/
def FileEntry.readInTwo (storage : Storage σ) (file : FileEntry) (offset first second : Nat) :
    Action σ ReadError Bytes := do
  let before ← file.read storage offset first
  let behind ← file.read storage (offset + first) second
  return before ++ behind

/-- A reference of a file lies inside the range from `low` to `high`, and across a place in it. -/
def ReferenceAcross (content : Bytes) (low split high : Nat) : Prop :=
  ∃ place, RefersAt content place ∧ low ≤ place ∧ place < split ∧ split < place + 8 ∧
    place + 8 ≤ high

/-- A request inside a patched file brings the bytes of its content, patched among themselves. -/
theorem FileEntry.runOn_read_patched (hpatch : file.patch = some .bootStore)
    (serves : Serves storage good file.source content) (hgood : KeptByReports good)
    {offset count : Nat} (hrange : offset + count ≤ content.length) {m : Machine σ}
    (hm : good m) :
    ∃ m', (file.read storage offset count).runOn m =
        (.ok (BootStore.patch (Bytes.slice content offset count)).1, m') ∧ good m' := by
  obtain ⟨m₁, hread, hm₁⟩ := serves.readExact_inside hrange hm
  refine ⟨(Patch.apply storage offset (Bytes.slice content offset count) .bootStore m₁).2, ?_,
    Patch.keeps_bootStore storage hgood offset _ hm₁⟩
  unfold FileEntry.read
  rw [Action.runOn_bind_ok hread, hpatch]
  rfl

/-- The references across the place where two slices meet are those of the content. -/
theorem straddles_slices_iff {offset first second : Nat}
    (hrange : offset + (first + second) ≤ content.length) :
    (∃ place, Straddles (Bytes.slice content offset first)
        (Bytes.slice content (offset + first) second) place) ↔
      ReferenceAcross content offset (offset + first) (offset + (first + second)) := by
  have hlength : (Bytes.slice content offset first).length = first := by
    rw [Bytes.length_slice]
    omega
  unfold Straddles ReferenceAcross
  rw [← Bytes.slice_add, hlength]
  constructor
  · rintro ⟨place, hplace, hbefore, hbehind⟩
    obtain ⟨hrefers, hfits⟩ := refersAt_slice_iff.mp hplace
    exact ⟨offset + place, hrefers, by omega, by omega, by omega, by omega⟩
  · rintro ⟨place, hrefers, hlow, hbefore, hbehind, hhigh⟩
    obtain ⟨place, rfl⟩ := Nat.exists_eq_add_of_le hlow
    exact ⟨place, refersAt_slice_iff.mpr ⟨hrefers, by omega⟩, by omega, by omega⟩

/-- A patched boot configuration store whose source keeps to one content, whatever is reported
meanwhile, can be read in one request or in two.  Both bring the same bytes just if no reference
of the content that lies in the range lies across the place where the two requests meet. -/
theorem split_reads_agree_iff (hpatch : file.patch = some .bootStore)
    (honest : Honest storage good file.source content) (hgood : KeptByReports good)
    {offset first second : Nat} (hrange : offset + (first + second) ≤ file.length)
    {m : Machine σ} (hm : good m) :
    ∃ (whole parts : Bytes) (m₁ m₂ : Machine σ),
      (file.read storage offset (first + second)).runOn m = (.ok whole, m₁) ∧
      (file.readInTwo storage offset first second).runOn m = (.ok parts, m₂) ∧
      (whole = parts ↔
        ¬ ReferenceAcross content offset (offset + first) (offset + (first + second))) := by
  have hserves := honest.toServes
  have hrange : offset + (first + second) ≤ content.length := by
    rw [honest.length_eq]
    exact hrange
  have hbefore : offset + first ≤ content.length := by omega
  have hbehind : offset + first + second ≤ content.length := by omega
  obtain ⟨m₁, hwhole, -⟩ := FileEntry.runOn_read_patched hpatch hserves hgood hrange hm
  obtain ⟨m₂, hfirst, hm₂⟩ := FileEntry.runOn_read_patched hpatch hserves hgood hbefore hm
  obtain ⟨m₃, hsecond, -⟩ := FileEntry.runOn_read_patched hpatch hserves hgood hbehind hm₂
  have hparts : (file.readInTwo storage offset first second).runOn m =
      (.ok ((patch (Bytes.slice content offset first)).1 ++
        (patch (Bytes.slice content (offset + first) second)).1), m₃) := by
    unfold FileEntry.readInTwo
    rw [Action.runOn_bind_ok hfirst, Action.runOn_bind_ok hsecond, Action.runOn_pure]
  refine ⟨_, _, m₁, m₃, hwhole, hparts, ?_⟩
  rw [Bytes.slice_add, patch_append_iff, ← straddles_slices_iff hrange, not_exists]

/-- A boot configuration store with two references, one right behind the other. -/
def twoReferences : FileEntry where
  name := "BCD"
  source := .memory ((Text.utf16 "x.exe.EXE").flatMap Bytes.le16)
  patch := some .bootStore

/-- Two requests may meet between the references, and not inside one. -/
theorem twoReferences_split :
    (∃ (whole : Bytes) (m₁ m₂ : Machine Unit),
      (twoReferences.read .absent 0 18).runOn { world := () } = (.ok whole, m₁) ∧
      (twoReferences.readInTwo .absent 0 10 8).runOn { world := () } = (.ok whole, m₂)) ∧
    ∃ (whole parts : Bytes) (m₁ m₂ : Machine Unit),
      (twoReferences.read .absent 0 18).runOn { world := () } = (.ok whole, m₁) ∧
      (twoReferences.readInTwo .absent 0 13 5).runOn { world := () } = (.ok parts, m₂) ∧
      whole ≠ parts := by
  have honest := honest_memory .absent (fun _ : Machine Unit => True) twoReferences.source.held
  have hgood : KeptByReports fun _ : Machine Unit => True := fun _ _ _ _ => trivial
  have hbetween : 0 + (10 + 8) ≤ twoReferences.length := by decide
  have hinside : 0 + (13 + 5) ≤ twoReferences.length := by decide
  constructor
  · obtain ⟨whole, parts, m₁, m₂, hwhole, hparts, hiff⟩ :=
      split_reads_agree_iff rfl honest hgood hbetween (m := { world := () }) trivial
    have hagree : whole = parts := by
      apply hiff.mpr
      rintro ⟨place, hplace, hlow, hbefore, hbehind, hhigh⟩
      have hnone : ∀ place < 10, 10 < place + 8 → ¬ RefersAt twoReferences.source.held place := by
        decide
      exact hnone place hbefore hbehind hplace
    exact ⟨whole, m₁, m₂, hwhole, hagree ▸ hparts⟩
  · obtain ⟨whole, parts, m₁, m₂, hwhole, hparts, hiff⟩ :=
      split_reads_agree_iff rfl honest hgood hinside (m := { world := () }) trivial
    refine ⟨whole, parts, m₁, m₂, hwhole, hparts, fun hagree => ?_⟩
    exact hiff.mp hagree ⟨10, by decide, by decide, by decide, by decide, by decide⟩

end Reads

end BootVolume.Files
