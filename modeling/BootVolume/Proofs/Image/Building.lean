import BootVolume.Proofs.Image.DirectoryClash
import BootVolume.Proofs.Image.Scan

/-!
# What building a disk comes to

Building scans a set for the visible files, reports what the scan has to report,
refuses a file that is too long, and places the rest.  `visible_files_chosen` says for
every set which files are visible, what is reported, when building fails and what is
placed.  How long a file is matters only if it is visible or the boot target
(`BuildOutcome`).
-/

namespace BootVolume.Image

open Fat Files

variable {σ : Type} {set : FileSet} {shown : List Visible}

/-! ## The boot target under its own name -/

/-- A short name of a directory is shown like that directory. -/
theorem sameName_of_isReserved {name : String} {short : Bytes} {flags : UInt8}
    (hshort : shortForm? name = some (short, flags)) (hreserved : isReserved short = true) :
    ∃ directory ∈ directoryNames, Text.sameName (shownShort short flags) directory = true := by
  obtain ⟨directory, hmem, hdirectory⟩ := isReserved_iff.mp hreserved
  obtain ⟨other, hother, hshown⟩ := exists_shortForm?_directory hmem
  rw [hdirectory, Option.some.injEq, Prod.mk.injEq] at hother
  obtain ⟨rfl, -⟩ := hother
  refine ⟨directory, hmem, ?_⟩
  rw [← hshown]
  exact (short_eq_iff hshort hdirectory).mp rfl

/-- A boot target with the name that belongs to it may be shown. -/
theorem exists_accept_of_bootName {file : FileEntry}
    (hname : Text.sameName file.baseName bootName = true) (boot : ℕ) :
    ∃ stored, accept boot boot file = .ok stored := by
  have hlength : (Text.utf16 file.baseName).length = 11 := Text.length_utf16_of_sameName hname
  cases hstored : storedName? file.baseName with
  | none =>
      obtain ⟨-, hempty | hlong⟩ := storedName?_eq_none_iff.mp hstored
      · rw [hempty] at hlength
        cases hlength
      · rw [hlength] at hlong
        exact absurd hlong (by decide)
  | some stored =>
      refine ⟨stored, accept_eq_ok_iff.mpr ⟨hstored, ?_, fun h => h.1 rfl⟩⟩
      rcases storedName?_eq_some hstored with ⟨hshort, -⟩ | ⟨-, -, -, rfl⟩
      · rw [← Bool.not_eq_true]
        intro hreserved
        obtain ⟨directory, hmem, hsame⟩ := sameName_of_isReserved hshort hreserved
        rcases shownShort_of_shortForm? hshort with hshown | ⟨hdot, -⟩
        · rw [String.toList_inj.mp hshown] at hsame
          have hother : ∀ directory ∈ directoryNames, Text.sameName bootName directory = false := by
            decide
          have hcross := Text.sameName_trans (Text.sameName_comm _ _ ▸ hname) hsame
          rw [hother directory hmem] at hcross
          cases hcross
        · -- The name does not end in a dot.
          have hlast := congrArg List.getLast? ((Text.sameName_iff _ _).mp hname)
          rw [Text.fold, ← hdot, List.map_append, List.map_singleton, List.getLast?_concat] at hlast
          exact absurd hlast (by decide)
      · exact isReserved_hashedShort file.baseName

/-- A boot target with the name that belongs to it is visible. -/
theorem boot_visible_of_bootName (hname : Text.sameName set.bootTarget.baseName bootName = true)
    (chosen : VisibleByGroup set.boot set.files shown) : set.boot ∈ shown.map Visible.index := by
  obtain ⟨stored, hstored⟩ := exists_accept_of_bootName hname set.boot
  apply (chosen.visible_iff set.boot set.bootTarget (files_boot set)).mpr
  refine ⟨not_skipped_iff.mpr ⟨stored, hstored⟩, ?_⟩
  intro j other hlt hother
  rw [← Bool.not_eq_true]
  intro hsame
  -- Another file with this name is left out.
  exact hother.not_skipped (Or.inr (Or.inr
    ⟨Nat.ne_of_gt hlt, Text.sameName_trans hsame hname⟩))

/-! ## Outcomes -/

/-- A file whose length is no 32-bit word. -/
def TooLong (file : FileEntry) : Prop := 0xFFFFFFFF < file.length

/-- What is placed on a disk: the visible files in their order, and behind them the boot target
if it is not visible, so that it is placed once in any case. -/
structure Places (set : FileSet) (shown : List Visible) (d : VirtualDisk) : Prop where
  entries : d.arrangement.placements.map Placement.entry =
    shown.map (fun v => (v.index, v.file, some v.stored)) ++
      if set.boot ∈ shown.map Visible.index then [] else [(set.boot, set.bootTarget, none)]
  boot_once : (d.arrangement.placements.map Placement.index).count set.boot = 1

/-- What building comes to when the files `shown` are visible. -/
inductive BuildOutcome (set : FileSet) (shown : List Visible) : Except Failure VirtualDisk → Prop
  | visibleTooLong (before after : List Visible) (v : Visible) : shown = before ++ v :: after →
      (∀ w ∈ before, ¬ TooLong w.file) → TooLong v.file →
      BuildOutcome set shown (.error (.input (.fileTooLarge v.file.name)))
  | bootTooLong : (∀ v ∈ shown, ¬ TooLong v.file) → TooLong set.bootTarget →
      BuildOutcome set shown (.error (.input (.fileTooLarge set.bootTarget.name)))
  | built (d : VirtualDisk) : (∀ v ∈ shown, ¬ TooLong v.file) → ¬ TooLong set.bootTarget →
      Places set shown d → BuildOutcome set shown (.ok d)

theorem BuildOutcome.isError_iff {result : Except Failure VirtualDisk}
    (h : BuildOutcome set shown result) :
    (∃ cause, result = .error cause) ↔
      (∃ v ∈ shown, TooLong v.file) ∨ TooLong set.bootTarget := by
  cases h with
  | visibleTooLong before after v hshown hbefore hv =>
      refine iff_of_true ⟨_, rfl⟩ (Or.inl ⟨v, ?_, hv⟩)
      rw [hshown]
      exact List.mem_append_right _ (List.mem_cons_self ..)
  | bootTooLong hshown hboot => exact iff_of_true ⟨_, rfl⟩ (Or.inr hboot)
  | built d hshown hboot hplaces =>
      refine iff_of_false ?_ ?_
      · rintro ⟨cause, h⟩
        cases h
      · rintro (⟨v, hv, hlong⟩ | hlong)
        · exact hshown v hv hlong
        · exact hboot hlong

theorem limit32_le_iff {file : FileEntry} : Bytes.limit32 ≤ file.length ↔ TooLong file :=
  Nat.succ_le_iff

/-- The file that is found to be too long is the first visible one, or else the boot target. -/
theorem buildOutcome_of_oversized? {file : FileEntry} (h : oversized? set shown = some file) :
    BuildOutcome set shown (.error (.input (.fileTooLarge file.name))) := by
  rw [oversized?, List.find?_append] at h
  cases hvisible : (shown.map (·.file)).find? fun file => decide (Bytes.limit32 ≤ file.length) with
  | some first =>
      rw [hvisible, Option.some_or] at h
      cases h
      obtain ⟨hlong, before, after, hsplit, hbefore⟩ := List.find?_eq_some_iff_append.mp hvisible
      obtain ⟨before', rest, hshown, rfl, hrest⟩ := List.map_eq_append_iff.mp hsplit
      obtain ⟨v, after', rfl, rfl, rfl⟩ := List.map_eq_cons_iff.mp hrest
      have hsize := limit32_le_iff.mp (of_decide_eq_true hlong)
      refine .visibleTooLong before' after' v hshown ?_ hsize
      intro w hw hlong
      have hno := hbefore w.file (List.mem_map_of_mem hw)
      rw [Bool.not_eq_true', decide_eq_false_iff_not, limit32_le_iff] at hno
      exact hno hlong
  | none =>
      rw [hvisible, Option.none_or] at h
      have hlong : decide (Bytes.limit32 ≤ file.length) = true :=
        List.find?_some (p := fun file : FileEntry => decide (Bytes.limit32 ≤ file.length)) h
      obtain rfl := List.mem_singleton.mp (List.mem_of_find?_eq_some h)
      refine .bootTooLong ?_ (limit32_le_iff.mp (of_decide_eq_true hlong))
      intro v hv hlong
      have hno := List.find?_eq_none.mp hvisible v.file (List.mem_map_of_mem hv)
      rw [decide_eq_true_eq, limit32_le_iff] at hno
      exact hno hlong

theorem any_index_iff (shown : List Visible) (i : ℕ) :
    shown.any (·.index == i) = true ↔ i ∈ shown.map Visible.index := by
  rw [List.any_eq_true, List.mem_map]
  exact exists_congr fun v => and_congr_right fun _ => beq_iff_eq

/-- What is placed for a set. -/
theorem places_make (set : FileSet) : Places set (visibleFiles set).1
    (assemble set (visibleFiles set).1) where
  entries := by
    show (Arrangement.make set _).placements.map Placement.entry = _
    rw [placed_make]
    simp only [placedEntries, any_index_iff]
  boot_once := by
    have hindex : (Arrangement.make set (visibleFiles set).1).placements.map Placement.index =
        (placedEntries set).map Prod.fst := by
      rw [← placed_make, List.map_map]
      rfl
    show ((Arrangement.make set _).placements.map Placement.index).count set.boot = 1
    rw [hindex]
    apply List.count_eq_one_of_mem (nodup_placedEntries set)
    rw [placedEntries, List.map_append, List.map_map, List.mem_append]
    by_cases hvisible : (visibleFiles set).1.any (·.index == set.boot) = true
    · exact Or.inl ((any_index_iff _ _).mp hvisible)
    · rw [if_neg hvisible]
      exact Or.inr (List.mem_singleton_self _)

/-- Which files of a set are visible, what is reported about the others, and what building comes
to: it fails just if a visible file or the boot target is too long.  A boot target with the name
that belongs to it is visible. -/
theorem visible_files_chosen (set : FileSet) (m : Machine σ) :
    ∃ (notices : List Notice) (notes : List String) (result : Except Failure VirtualDisk),
      VisibleByGroup set.boot set.files (visibleFiles set).1 ∧
      NoticesFor set.boot set.files (visibleFiles set).1 notices ∧
      (VirtualDisk.build set).runOn m =
        (result, (m.reportAll .warn (notices.map Notice.line)).reportAll .debug notes) ∧
      BuildOutcome set (visibleFiles set).1 result ∧
      ((∃ cause, result = .error cause) ↔
        (∃ v ∈ (visibleFiles set).1, TooLong v.file) ∨ TooLong set.bootTarget) ∧
      (Text.sameName set.bootTarget.baseName bootName = true →
        set.boot ∈ (visibleFiles set).1.map Visible.index) := by
  obtain ⟨notices, hscanned, hlines⟩ := scanned_visibleFiles set
  obtain ⟨notes, hrun⟩ := build_runOn set m
  have chosen := hscanned.visibleByGroup
  rw [← hlines] at hrun
  cases hoversized : oversized? set (visibleFiles set).1 with
  | some file =>
      rw [hoversized] at hrun
      have houtcome := buildOutcome_of_oversized? hoversized
      exact ⟨notices, [], _, chosen, hscanned.noticed, hrun, houtcome, houtcome.isError_iff,
        fun hname => boot_visible_of_bootName hname chosen⟩
  | none =>
      rw [hoversized] at hrun
      obtain ⟨hfits, hboot⟩ := fits_of_oversized? hoversized
      have houtcome : BuildOutcome set (visibleFiles set).1
          (.ok (assemble set (visibleFiles set).1)) := by
        refine .built _ ?_ ?_ (places_make set)
        · intro v hv
          exact mt limit32_le_iff.mpr (Nat.not_le.mpr (hfits v hv))
        · exact mt limit32_le_iff.mpr (Nat.not_le.mpr hboot)
      exact ⟨notices, notes, _, chosen, hscanned.noticed, hrun, houtcome, houtcome.isError_iff,
        fun hname => boot_visible_of_bootName hname chosen⟩

end BootVolume.Image
