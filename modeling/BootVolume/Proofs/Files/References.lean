import BootVolume.Proofs.Files.Entry
import BootVolume.Text.Utf16

/-!
# References of the boot configuration store

The patch goes through a byte string once and rewrites as it goes, so a window
is looked at after those before it have been rewritten.  The outcome is the same
as if all references had been replaced at once (`Replaced`): two references never
overlap, because a full stop stands at the start of one and nowhere else in it,
and for the same reason rewriting one neither makes nor breaks another
(`ahead_of_hit`).

The induction is on the windows still to be looked at.  A step that rewrites and
one that does not leave strings in which the same references stand, one place
further to the left, so both are the same case (`Ahead`).
-/

namespace BootVolume.Files.BootStore

/-- A reference stands at a place: the eight bytes from there on are those of `.exe`, in letters
of either case. -/
def RefersAt (data : Bytes) (place : Nat) : Prop :=
  (Bytes.slice data place 8).map foldByte = sought

instance (data : Bytes) (place : Nat) : Decidable (RefersAt data place) :=
  inferInstanceAs (Decidable (_ = _))

example : sought = (Text.utf16 ".exe").flatMap Bytes.le16 := by decide

example : replacement = (Text.utf16 ".efi").flatMap Bytes.le16 := by decide

/-- The places of the references in a byte string, in order. -/
def references (data : Bytes) : List Nat := (List.range data.length).filter (RefersAt data ·)

/-- A byte lies in the window of eight bytes at a place. -/
def InWindow (place k : Nat) : Prop := place ≤ k ∧ k < place + 8

/-- The byte string with all its references replaced at once, and nothing else changed. -/
structure Replaced (data out : Bytes) : Prop where
  length_eq : out.length = data.length
  inside : ∀ place, RefersAt data place → Bytes.slice out place 8 = replacement
  outside : ∀ k, (∀ place, RefersAt data place → ¬ InWindow place k) → out[k]? = data[k]?

/-! ## Windows -/

section Windows

variable {data : Bytes} {place other : Nat}

theorem isHit_iff : isHit data = true ↔ RefersAt data 0 := beq_iff_eq

/-- A letter of a reference up to its case. -/
theorem RefersAt.getElem? (h : RefersAt data place) {d : Nat} (hd : d < 8) :
    (data[place + d]?).map foldByte = sought[d]? := by
  rw [← h, List.getElem?_map, Bytes.getElem?_slice, if_pos hd]

theorem RefersAt.place_le (h : RefersAt data place) : place + 8 ≤ data.length := by
  have hlast := h.getElem? (show 7 < 8 by decide)
  by_contra hshort
  rw [List.getElem?_eq_none (by omega)] at hlast
  cases hlast

theorem mem_references_iff : place ∈ references data ↔ RefersAt data place := by
  rw [references, List.mem_filter, List.mem_range, decide_eq_true_iff]
  constructor
  · exact fun h => h.2
  · intro h
    have hplace := h.place_le
    exact ⟨by omega, h⟩

/-- In a reference the full stop is the first byte alone. -/
theorem eq_zero_of_full_stop {d : Nat} (hd : d < 8) (h : sought[d]? = some 0x2E) : d = 0 := by
  revert d
  decide

/-- So is it in what a reference is replaced by. -/
theorem eq_zero_of_replaced_stop {d : Nat} (hd : d < 8)
    (h : (replacement[d]?).map foldByte = some 0x2E) : d = 0 := by
  revert d
  decide

theorem RefersAt.first (h : RefersAt data place) : (data[place]?).map foldByte = some 0x2E :=
  h.getElem? (d := 0) (by decide)

/-- References do not overlap. -/
theorem RefersAt.apart (h : RefersAt data place) (hother : RefersAt data other)
    (hlt : place < other) : place + 8 ≤ other := by
  by_contra hclose
  have hstop := h.getElem? (d := other - place) (by omega)
  rw [Nat.add_sub_cancel' (Nat.le_of_lt hlt), hother.first] at hstop
  have := eq_zero_of_full_stop (by omega) hstop.symm
  omega

theorem RefersAt.eq_of_inWindow (h : RefersAt data place) (hother : RefersAt data other) {k : Nat}
    (hk : InWindow place k) (hk' : InWindow other k) : place = other := by
  obtain ⟨hlow, hhigh⟩ := hk
  obtain ⟨hlow', hhigh'⟩ := hk'
  rcases Nat.lt_trichotomy place other with hlt | heq | hgt
  · have := h.apart hother hlt
    omega
  · exact heq
  · have := hother.apart h hgt
    omega

end Windows

/-! ## Replacing at once -/

namespace Replaced

variable {data out out' : Bytes}

theorem getElem?_inside (h : Replaced data out) {place k : Nat} (hplace : RefersAt data place)
    (hk : InWindow place k) : out[k]? = replacement[k - place]? := by
  obtain ⟨hlow, hhigh⟩ := hk
  rw [← h.inside place hplace, Bytes.getElem?_slice, if_pos (by omega), Nat.add_sub_cancel' hlow]

/-- There is one way only to replace all references at once. -/
theorem unique (h : Replaced data out) (h' : Replaced data out') : out = out' := by
  apply List.ext_getElem?
  intro k
  by_cases hinside : ∃ place, RefersAt data place ∧ InWindow place k
  · obtain ⟨place, hplace, hk⟩ := hinside
    rw [h.getElem?_inside hplace hk, h'.getElem?_inside hplace hk]
  · have houtside : ∀ place, RefersAt data place → ¬ InWindow place k :=
      fun place hplace hk => hinside ⟨place, hplace, hk⟩
    rw [h.outside k houtside, h'.outside k houtside]

theorem of_none (h : ∀ place, ¬ RefersAt data place) : Replaced data data where
  length_eq := rfl
  inside := fun place hplace => absurd hplace (h place)
  outside := fun _ _ => rfl

/-- No reference is left, and none has come into being. -/
theorem not_refersAt (h : Replaced data out) (place : Nat) : ¬ RefersAt out place := by
  intro hout
  -- A reference in `data` that has a byte in common with the window would show in it.
  have htouch : ∀ other, RefersAt data other → ∀ k, InWindow place k → ¬ InWindow other k := by
    intro other hother k hk hk'
    obtain ⟨hlow, hhigh⟩ := hk
    obtain ⟨hlow', hhigh'⟩ := hk'
    rcases Nat.lt_trichotomy place other with hlt | rfl | hgt
    · have hstop := hout.getElem? (d := other - place) (by omega)
      rw [Nat.add_sub_cancel' (Nat.le_of_lt hlt),
        h.getElem?_inside hother ⟨Nat.le_refl _, by omega⟩, Nat.sub_self] at hstop
      have := eq_zero_of_full_stop (by omega) hstop.symm
      omega
    · have hwindow : (Bytes.slice out place 8).map foldByte = sought := hout
      rw [h.inside place hother] at hwindow
      exact absurd hwindow (by decide)
    · have hstop := hout.first
      rw [h.getElem?_inside hother ⟨by omega, by omega⟩] at hstop
      have := eq_zero_of_replaced_stop (by omega) hstop
      omega
  have hkept : Bytes.slice out place 8 = Bytes.slice data place 8 := by
    apply List.ext_getElem?
    intro d
    rw [Bytes.getElem?_slice, Bytes.getElem?_slice]
    split
    · exact h.outside _ fun other hother => htouch other hother _ ⟨by omega, by omega⟩
    · rfl
  have hdata : RefersAt data place := by
    unfold RefersAt at hout ⊢
    rwa [← hkept]
  exact htouch place hdata place ⟨Nat.le_refl _, by omega⟩ ⟨Nat.le_refl _, by omega⟩

end Replaced

/-! ## The patch -/

/-- What is still to be patched behind the first byte: it is as long as the rest, and the same
references stand in it. -/
structure Ahead (data next : Bytes) : Prop where
  length_eq : next.length + 1 = data.length
  refersAt_iff : ∀ place, RefersAt next place ↔ RefersAt data (place + 1)

theorem ahead_of_cons (b : UInt8) (rest : Bytes) : Ahead (b :: rest) rest :=
  ⟨rfl, fun _ => Iff.rfl⟩

/-- The bytes behind the first one once a reference at the start was rewritten. -/
def rewritten (rest : Bytes) : Bytes := replacement.tail ++ rest.drop 7

theorem length_rewritten {rest : Bytes} (h : 7 ≤ rest.length) :
    (rewritten rest).length = rest.length := by
  simp only [rewritten, List.length_append, List.length_drop, replacement, List.tail_cons,
    List.length_cons, List.length_nil]
  omega

theorem getElem?_rewritten_low (rest : Bytes) {k : Nat} (hk : k < 7) :
    (rewritten rest)[k]? = replacement[k + 1]? := by
  rw [rewritten, List.getElem?_append_left (by exact hk), List.getElem?_tail]

theorem getElem?_rewritten_high (rest : Bytes) {k : Nat} (hk : 7 ≤ k) :
    (rewritten rest)[k]? = rest[k]? := by
  have hlength : replacement.tail.length = 7 := rfl
  rw [rewritten, List.getElem?_append_right (by omega), List.getElem?_drop, hlength,
    Nat.add_sub_cancel' hk]

theorem slice_rewritten (rest : Bytes) {place : Nat} (hplace : 7 ≤ place) :
    Bytes.slice (rewritten rest) place 8 = Bytes.slice rest place 8 := by
  apply List.ext_getElem?
  intro d
  rw [Bytes.getElem?_slice, Bytes.getElem?_slice, getElem?_rewritten_high rest (by omega)]

/-- Rewriting a reference neither makes nor breaks another one. -/
theorem ahead_of_hit {b : UInt8} {rest : Bytes} (h : RefersAt (b :: rest) 0) :
    Ahead (b :: rest) (rewritten rest) := by
  have hlong : 7 ≤ rest.length := seven_le_of_isHit (isHit_iff.mpr h)
  refine ⟨by rw [length_rewritten hlong, List.length_cons], fun place => ?_⟩
  by_cases hplace : 7 ≤ place
  · unfold RefersAt
    rw [slice_rewritten rest hplace]
    exact Iff.rfl
  · constructor
    · intro hnext
      have hstop := hnext.first
      rw [getElem?_rewritten_low rest (by omega)] at hstop
      have := eq_zero_of_replaced_stop (by omega) hstop
      omega
    · intro hlater
      have := h.apart hlater (Nat.succ_pos place)
      omega

section Steps

variable {data next out : Bytes}

theorem references_of_ahead (h : Ahead data next) :
    references data = (if RefersAt data 0 then [0] else []) ++ (references next).map (· + 1) := by
  have hlater : ((List.range next.length).map (· + 1)).filter (RefersAt data ·) =
      (references next).map (· + 1) := by
    rw [List.filter_map, references]
    congr 1
    apply List.filter_congr
    intro place _
    exact decide_eq_decide.mpr (h.refersAt_iff place).symm
  rw [references, ← h.length_eq, List.range_succ_eq_map, List.filter_cons]
  by_cases hfirst : RefersAt data 0
  · simp only [hfirst, decide_true, if_true, List.singleton_append]
    exact congrArg (0 :: ·) hlater
  · simp only [hfirst, decide_false, if_false, List.nil_append]
    exact hlater

/-- Behind a byte that begins no reference the rest is replaced. -/
theorem Replaced.cons {b : UInt8} {rest : Bytes} (hfirst : ¬ RefersAt (b :: rest) 0)
    (h : Replaced rest out) : Replaced (b :: rest) (b :: out) where
  length_eq := congrArg (· + 1) h.length_eq
  inside := by
    intro place hplace
    cases place with
    | zero => exact absurd hplace hfirst
    | succ place => exact h.inside place hplace
  outside := by
    intro k houtside
    cases k with
    | zero => rfl
    | succ k =>
        refine h.outside k fun place hplace hk => houtside (place + 1) hplace ?_
        obtain ⟨hlow, hhigh⟩ := hk
        exact ⟨by omega, by omega⟩

/-- Behind a reference that was rewritten the rest is replaced. -/
theorem Replaced.cons_of_hit {b : UInt8} {rest : Bytes} (hfirst : RefersAt (b :: rest) 0)
    (h : Replaced (rewritten rest) out) : Replaced (b :: rest) (0x2E :: out) := by
  have hahead := ahead_of_hit hfirst
  -- The bytes that were just written belong to no later reference.
  have hwritten : ∀ k < 7, out[k]? = replacement[k + 1]? := by
    intro k hk
    rw [h.outside k fun place hplace hin => ?_, getElem?_rewritten_low rest hk]
    have hapart := hfirst.apart ((hahead.refersAt_iff place).mp hplace) (Nat.succ_pos place)
    obtain ⟨hlow, -⟩ := hin
    omega
  refine ⟨?_, fun place hplace => ?_, fun k houtside => ?_⟩
  · rw [List.length_cons, h.length_eq, hahead.length_eq]
  · cases place with
    | zero =>
        apply List.ext_getElem?
        intro k
        rw [Bytes.getElem?_slice, Nat.zero_add]
        by_cases hk : k < 8
        · rw [if_pos hk]
          cases k with
          | zero => rfl
          | succ k => exact hwritten k (by omega)
        · rw [if_neg hk, List.getElem?_eq_none]
          exact Nat.not_lt.mp hk
    | succ place => exact h.inside place ((hahead.refersAt_iff place).mpr hplace)
  · have hfar : 8 ≤ k := by
      by_contra hnear
      exact houtside 0 hfirst ⟨Nat.zero_le k, by omega⟩
    obtain ⟨k, rfl⟩ : ∃ l, k = l + 1 := ⟨k - 1, by omega⟩
    rw [List.getElem?_cons_succ, List.getElem?_cons_succ,
      ← getElem?_rewritten_high rest (show 7 ≤ k by omega)]
    refine h.outside k fun place hplace hk =>
      houtside (place + 1) ((hahead.refersAt_iff place).mp hplace) ?_
    obtain ⟨hlow, hhigh⟩ := hk
    exact ⟨by omega, by omega⟩

end Steps

/-- Going through all windows replaces all references, and tells where they were. -/
theorem patchFrom_spec (position : Nat) {windows : Nat} {data : Bytes}
    (hwindows : windows = data.length - 7) :
    Replaced data (patchFrom position windows data).1 ∧
      (patchFrom position windows data).2 = (references data).map (position + ·) := by
  induction windows generalizing position data with
  | zero =>
      have hnone : ∀ place, ¬ RefersAt data place := fun place hplace => by
        have := hplace.place_le
        omega
      have hnowhere : references data = [] :=
        List.eq_nil_iff_forall_not_mem.mpr fun place hplace =>
          hnone place (mem_references_iff.mp hplace)
      rw [hnowhere]
      exact ⟨.of_none hnone, rfl⟩
  | succ windows ih =>
      cases data with
      | nil => cases hwindows
      | cons b rest =>
          have hshift : ∀ places : List Nat, (places.map (· + 1)).map (position + ·) =
              places.map (position + 1 + ·) := by
            intro places
            rw [List.map_map]
            apply List.map_congr_left
            intro place _
            show position + (place + 1) = position + 1 + place
            omega
          rw [List.length_cons] at hwindows
          by_cases hhit : isHit (b :: rest) = true
          · have hfirst := isHit_iff.mp hhit
            have hahead := ahead_of_hit hfirst
            have hlength := hahead.length_eq
            rw [List.length_cons] at hlength
            have hfewer : windows = (rewritten rest).length - 7 := by omega
            obtain ⟨hreplaced, hplaces⟩ := ih (position + 1) hfewer
            rw [patchFrom, if_pos hhit, references_of_ahead hahead, if_pos hfirst,
              List.singleton_append, List.map_cons, hshift]
            exact ⟨hreplaced.cons_of_hit hfirst, congrArg (position :: ·) hplaces⟩
          · have hfirst := mt isHit_iff.mpr hhit
            have hfewer : windows = rest.length - 7 := by omega
            obtain ⟨hreplaced, hplaces⟩ := ih (position + 1) hfewer
            rw [patchFrom, if_neg hhit, references_of_ahead (ahead_of_cons b rest),
              if_neg hfirst, List.nil_append, hshift]
            exact ⟨hreplaced.cons hfirst, hplaces⟩

/-- The patch replaces all references at once. -/
theorem replaced_patch (data : Bytes) : Replaced data (patch data).1 :=
  (patchFrom_spec 0 rfl).1

/-- The patch tells where references were. -/
theorem places_patch (data : Bytes) : (patch data).2 = references data := by
  have hplaces : (patch data).2 = (references data).map (0 + ·) := (patchFrom_spec 0 rfl).2
  rwa [show (fun place => 0 + place) = id from funext Nat.zero_add, List.map_id] at hplaces

/-- Where no reference stands, nothing is patched. -/
theorem patch_of_none {data : Bytes} (h : ∀ place, ¬ RefersAt data place) :
    patch data = (data, []) := by
  have hnowhere : references data = [] :=
    List.eq_nil_iff_forall_not_mem.mpr fun place hplace => h place (mem_references_iff.mp hplace)
  apply Prod.ext
  · exact (replaced_patch data).unique (.of_none h)
  · rw [places_patch, hnowhere]

/-- A second patch has nothing to do and nothing to report. -/
theorem apply_patched {σ : Type} (storage : Storage σ) (offset : Nat) (data : Bytes)
    (m : Machine σ) :
    Patch.apply storage offset (patch data).1 .bootStore m = ((patch data).1, m) := by
  have hpatched := patch_of_none (replaced_patch data).not_refersAt
  unfold Patch.apply
  simp only [hpatched]
  rfl

/-- The patch replaces references all at once, wherever the bytes were read from: the windows of
the bytes before the patch in which `.exe` stands in any case hold `.efi` after it, and every other
byte is kept.  It is these windows that are reported, in order, and no two of them overlap.  No
reference is left, and a second patch does nothing. -/
theorem references_replaced_at_once {σ : Type} (storage : Storage σ) (offset : Nat) (data : Bytes)
    (m : Machine σ) :
    let out := (Patch.apply storage offset data .bootStore m).1
    out.length = data.length ∧
      (∀ place, RefersAt data place → Bytes.slice out place 8 = replacement) ∧
      (∀ k, (∀ place, RefersAt data place → ¬ InWindow place k) → out[k]? = data[k]?) ∧
      (patch data).2 = references data ∧
      (∀ place other, RefersAt data place → RefersAt data other → place < other →
        place + 8 ≤ other) ∧
      (∀ place, ¬ RefersAt out place) ∧
      ∀ (offset' : Nat) (m' : Machine σ),
        Patch.apply storage offset' out .bootStore m' = (out, m') := by
  intro out
  have hreplaced : Replaced data out := replaced_patch data
  refine ⟨hreplaced.length_eq, hreplaced.inside, hreplaced.outside, places_patch data, ?_,
    hreplaced.not_refersAt, fun offset' m' => apply_patched storage offset' data m'⟩
  intro place other hplace hother hlt
  exact hplace.apart hother hlt

end BootVolume.Files.BootStore
