import BootVolume.Proofs.Image.Visible

/-!
# The scan for visible files

The visible files are found in one scan over the set, which puts a file in the place
of an earlier one.  The result can be told without the scan: the files that are not
`Skipped` fall into groups of one name each, the last of each group is shown, and the
groups are in the order of their first files (`VisibleByGroup`).  Every file that is
not shown is reported in one line (`NoticesFor`).  `Scanned` is what the scan keeps
of this, and `Scanned.takeIn` is its step.
-/

namespace BootVolume.Image

open Fat Files

variable {boot index : ℕ} {file : FileEntry} {stored : StoredName} {files taken : List FileEntry}
  {shown : List Visible}

/-! ## Files that are left out -/

/-- The short names that files cannot have. -/
def reservedNames : List Bytes := [bootDirectory, sourcesDirectory, firmwareDirectory]

/-- Why a file is left out whatever else the set has. -/
inductive Omits (boot index : ℕ) (file : FileEntry) : Omission → Prop
  | unstorable : storedName? file.baseName = none → Omits boot index file .unstorable
  | reserved (stored : StoredName) : storedName? file.baseName = some stored →
      stored.short ∈ reservedNames → Omits boot index file .reserved
  | notBootTarget (stored : StoredName) : storedName? file.baseName = some stored →
      stored.short ∉ reservedNames → index ≠ boot →
      Text.sameName file.baseName bootName = true → Omits boot index file .notBootTarget

/-- A file that is left out whatever else the set has: its name cannot be stored, or would be
stored as that of a directory, or belongs to the boot target, which is another file. -/
def Skipped (boot index : ℕ) (file : FileEntry) : Prop :=
  storedName? file.baseName = none ∨
    (∃ stored, storedName? file.baseName = some stored ∧ stored.short ∈ reservedNames) ∨
    (index ≠ boot ∧ Text.sameName file.baseName bootName = true)

theorem isReserved_iff_mem {short : Bytes} : isReserved short = true ↔ short ∈ reservedNames := by
  simp [isReserved, rootAliases, reservedNames, or_assoc]

theorem omits_of_accept {omission : Omission} (h : accept boot index file = .error omission) :
    Omits boot index file omission := by
  unfold accept at h
  cases hstored : storedName? file.baseName with
  | none =>
      rw [hstored] at h
      cases h
      exact .unstorable hstored
  | some stored =>
      simp only [hstored, isReserved_iff_mem] at h
      by_cases hreserved : stored.short ∈ reservedNames
      · rw [if_pos hreserved] at h
        cases h
        exact .reserved stored hstored hreserved
      · rw [if_neg hreserved] at h
        by_cases hother : index ≠ boot ∧ Text.sameName file.baseName bootName = true
        · rw [if_pos hother] at h
          cases h
          exact .notBootTarget stored hstored hreserved hother.1 hother.2
        · rw [if_neg hother] at h
          cases h

theorem not_skipped_iff :
    ¬ Skipped boot index file ↔ ∃ stored, accept boot index file = .ok stored := by
  simp only [accept_eq_ok_iff, Skipped, ← isReserved_iff_mem]
  cases storedName? file.baseName with
  | none => simp
  | some stored => simp

theorem skipped_of_accept {omission : Omission} (h : accept boot index file = .error omission) :
    Skipped boot index file := by
  by_contra hfree
  obtain ⟨stored, hstored⟩ := not_skipped_iff.mp hfree
  rw [h] at hstored
  cases hstored

/-! ## Groups of one name -/

/-- A file of a list that is shown unless a later one has the same name. -/
structure Candidate (boot : ℕ) (files : List FileEntry) (i : ℕ) (file : FileEntry) : Prop where
  at_index : files[i]? = some file
  not_skipped : ¬ Skipped boot i file

/-- The first candidate with a name. -/
structure FirstOf (boot : ℕ) (files : List FileEntry) (key : List Char) (i : ℕ) : Prop where
  candidate : ∃ file, Candidate boot files i file ∧ Text.fold file.baseName = key
  le : ∀ j other, Candidate boot files j other → Text.fold other.baseName = key → i ≤ j

/-- The files `shown` are those that a list shows: the last candidate with each name, in the
order of the first ones. -/
structure VisibleByGroup (boot : ℕ) (files : List FileEntry) (shown : List Visible) : Prop where
  stored : ∀ v ∈ shown, files[v.index]? = some v.file ∧ storedName? v.file.baseName = some v.stored
  visible_iff : ∀ i file, files[i]? = some file →
    (i ∈ shown.map Visible.index ↔ ¬ Skipped boot i file ∧ ∀ j other, i < j →
      Candidate boot files j other → Text.sameName other.baseName file.baseName = false)
  distinct : shown.Pairwise fun v w => Text.sameName v.file.baseName w.file.baseName = false
  ordered : ∃ firsts : List ℕ, firsts.Pairwise (· < ·) ∧
    List.Forall₂ (FirstOf boot files) (shown.map Visible.key) firsts

/-! ## Notices -/

/-- A line about a file that is not shown. -/
structure Notice where
  /-- The position of the file that makes the scan report the line. -/
  cause : ℕ
  /-- The position of the file that is not shown. -/
  about : ℕ
  line : String

/-- What a line says: that a file is left out, or that the next file with its name replaces
it. -/
inductive Notice.Right (boot : ℕ) (files : List FileEntry) : Notice → Prop
  | skipped (i : ℕ) (file : FileEntry) (omission : Omission) : files[i]? = some file →
      Skipped boot i file → Omits boot i file omission →
      Right boot files ⟨i, i, omission.warning file⟩
  | replaced (i j : ℕ) (old new : FileEntry) : Candidate boot files i old →
      Candidate boot files j new → i < j → Text.sameName old.baseName new.baseName = true →
      (∀ k other, i < k → k < j → Candidate boot files k other →
        Text.sameName other.baseName new.baseName = false) →
      Right boot files ⟨j, i, new.name ++ " replaces " ++ old.name⟩

/-- There is one notice for each file that is not shown, in the order of the scan. -/
structure NoticesFor (boot : ℕ) (files : List FileEntry) (shown : List Visible)
    (notices : List Notice) : Prop where
  right : ∀ n ∈ notices, n.Right boot files
  ascending : notices.Pairwise fun n n' => n.cause < n'.cause
  once : (notices.map Notice.about).Nodup
  about_iff : ∀ i < files.length, (i ∈ notices.map Notice.about ↔ i ∉ shown.map Visible.index)

/-! ## One more file -/

theorem getElem?_concat_of_some {i : ℕ} (h : taken[i]? = some file) (next : FileEntry) :
    (taken ++ [next])[i]? = some file := by
  obtain ⟨hlt, -⟩ := List.getElem?_eq_some_iff.mp h
  rw [List.getElem?_append_left hlt]
  exact h

namespace Candidate

variable {i : ℕ} {next : FileEntry}

theorem lt_length (h : Candidate boot files i file) : i < files.length := by
  obtain ⟨hlt, -⟩ := List.getElem?_eq_some_iff.mp h.at_index
  exact hlt

theorem concat (h : Candidate boot taken i file) (next : FileEntry) :
    Candidate boot (taken ++ [next]) i file :=
  ⟨getElem?_concat_of_some h.at_index next, h.not_skipped⟩

theorem of_concat (h : Candidate boot (taken ++ [next]) i file) :
    Candidate boot taken i file ∨ i = taken.length ∧ file = next := by
  rcases Shows.getElem?_concat_cases h.at_index with hfile | hlast
  · exact Or.inl ⟨hfile, h.not_skipped⟩
  · exact Or.inr hlast

theorem of_accept (haccept : accept boot taken.length next = .ok stored) :
    Candidate boot (taken ++ [next]) taken.length next :=
  ⟨List.getElem?_concat_length, not_skipped_iff.mpr ⟨stored, haccept⟩⟩

end Candidate

theorem FirstOf.concat {key : List Char} {i : ℕ} (h : FirstOf boot taken key i)
    (next : FileEntry) : FirstOf boot (taken ++ [next]) key i where
  candidate := by
    obtain ⟨file, hcandidate, hkey⟩ := h.candidate
    exact ⟨file, hcandidate.concat next, hkey⟩
  le j other hother hkey := by
    rcases hother.of_concat with hold | ⟨rfl, -⟩
    · exact h.le j other hold hkey
    · obtain ⟨file, hcandidate, -⟩ := h.candidate
      exact Nat.le_of_lt hcandidate.lt_length

theorem lt_length_of_firsts {keys : List (List Char)} {firsts : List ℕ}
    (h : List.Forall₂ (FirstOf boot files) keys firsts) {i : ℕ} (hi : i ∈ firsts) :
    i < files.length := by
  induction h with
  | nil => cases hi
  | cons hfirst _ ih =>
      rcases List.mem_cons.mp hi with rfl | hi
      · obtain ⟨file, hcandidate, -⟩ := hfirst.candidate
        exact hcandidate.lt_length
      · exact ih hi

theorem Notice.Right.lt_length {n : Notice} (h : n.Right boot files) :
    n.cause < files.length ∧ n.about < files.length := by
  cases h with
  | skipped i file omission hfile =>
      obtain ⟨hlt, -⟩ := List.getElem?_eq_some_iff.mp hfile
      exact ⟨hlt, hlt⟩
  | replaced i j old new hold hnew => exact ⟨hnew.lt_length, hold.lt_length⟩

theorem Notice.Right.concat {n : Notice} (h : n.Right boot taken) (next : FileEntry) :
    n.Right boot (taken ++ [next]) := by
  cases h with
  | skipped i file omission hfile hskipped homits =>
      exact .skipped i file omission (getElem?_concat_of_some hfile next) hskipped homits
  | replaced i j old new hold hnew hlt hsame hbetween =>
      refine .replaced i j old new (hold.concat next) (hnew.concat next) hlt hsame ?_
      intro k other hik hkj hother
      rcases hother.of_concat with hother | ⟨rfl, -⟩
      · exact hbetween k other hik hkj hother
      · exact absurd (Nat.lt_trans hkj hnew.lt_length) (Nat.lt_irrefl _)

/-- What holds of the visible files and the notices when the files `taken` have been taken in. -/
structure Scanned (boot : ℕ) (taken : List FileEntry) (shown : List Visible)
    (notices : List Notice) : Prop where
  shows : Shows boot taken shown
  ordered : ∃ firsts : List ℕ, firsts.Pairwise (· < ·) ∧
    List.Forall₂ (FirstOf boot taken) (shown.map Visible.key) firsts
  noticed : NoticesFor boot taken shown notices

namespace Scanned

variable {notices : List Notice}

theorem nil (boot : ℕ) : Scanned boot [] [] [] where
  shows := Shows.nil
  ordered := ⟨[], List.Pairwise.nil, List.Forall₂.nil⟩
  noticed := ⟨List.forall_mem_nil _, List.Pairwise.nil, List.nodup_nil, fun i hi => by cases hi⟩

/-- A name that no visible file has is the name of no candidate. -/
theorem not_candidate_of_new (scanned : Scanned boot taken shown notices) {key : List Char}
    (hnew : ∀ v ∈ shown, v.key ≠ key) {i : ℕ} (hfile : Candidate boot taken i file) :
    Text.fold file.baseName ≠ key := by
  rintro rfl
  obtain ⟨stored, hstored⟩ := not_skipped_iff.mp hfile.not_skipped
  obtain ⟨v, hv, hkey, -⟩ := scanned.shows.covered i file stored hfile.at_index hstored
  exact hnew v hv hkey

/-- A visible file is the last candidate with its name. -/
theorem le_of_candidate (scanned : Scanned boot taken shown notices) {v : Visible} (hv : v ∈ shown)
    {i : ℕ} (hfile : Candidate boot taken i file) (hkey : Text.fold file.baseName = v.key) :
    i ≤ v.index := by
  obtain ⟨stored, hstored⟩ := not_skipped_iff.mp hfile.not_skipped
  obtain ⟨w, hw, hwkey, hle⟩ := scanned.shows.covered i file stored hfile.at_index hstored
  rw [hkey] at hwkey
  obtain rfl := List.inj_on_of_nodup_map scanned.shows.distinct hw hv hwkey
  exact hle

theorem candidate (scanned : Scanned boot taken shown notices) {v : Visible} (hv : v ∈ shown) :
    Candidate boot taken v.index v.file :=
  ⟨scanned.shows.at_index v hv, not_skipped_iff.mpr ⟨_, scanned.shows.accepted v hv⟩⟩

end Scanned

/-- Where one element takes the place of another, only that other one is lost. -/
theorem not_mem_replaced_iff {α : Type} {before after : List α} {old new i : α}
    (hnodup : (before ++ old :: after).Nodup) (hne : i ≠ new) :
    i ∉ before ++ new :: after ↔ i ∉ before ++ old :: after ∨ i = old := by
  simp only [List.nodup_middle, List.nodup_cons, List.mem_append, List.mem_cons, not_or]
    at hnodup ⊢
  constructor
  · rintro ⟨hbefore, -, hafter⟩
    by_cases hold : i = old
    · exact Or.inr hold
    · exact Or.inl ⟨hbefore, hold, hafter⟩
  · rintro (⟨hbefore, -, hafter⟩ | rfl)
    · exact ⟨hbefore, hne, hafter⟩
    · exact ⟨hnodup.1.1, hne, hnodup.1.2⟩

namespace NoticesFor

variable {notices : List Notice} {next : FileEntry} {shown' : List Visible}

theorem lt_length (noticed : NoticesFor boot taken shown notices) {i : ℕ}
    (h : i ∈ notices.map Notice.about) : i < taken.length := by
  obtain ⟨n, hn, rfl⟩ := List.mem_map.mp h
  exact (noticed.right n hn).lt_length.2

/-- A file that is shown causes no notice. -/
theorem extend (noticed : NoticesFor boot taken shown notices) (stored : StoredName) :
    NoticesFor boot (taken ++ [next]) (shown ++ [⟨taken.length, next, stored⟩]) notices where
  right n hn := (noticed.right n hn).concat next
  ascending := noticed.ascending
  once := noticed.once
  about_iff i hi := by
    rw [List.length_append, List.length_singleton] at hi
    simp only [List.map_append, List.map_singleton, List.mem_append, List.mem_singleton, not_or]
    rcases Nat.lt_succ_iff_lt_or_eq.mp hi with hlt | rfl
    · rw [noticed.about_iff i hlt]
      exact ⟨fun h => ⟨h, Nat.ne_of_lt hlt⟩, fun h => h.1⟩
    · constructor
      · intro h
        exact absurd (noticed.lt_length h) (Nat.lt_irrefl _)
      · intro h
        exact absurd rfl h.2

/-- One more notice. -/
theorem concat (noticed : NoticesFor boot taken shown notices) {n : Notice}
    (hright : n.Right boot (taken ++ [next])) (hcause : n.cause = taken.length)
    (hnew : n.about ∉ notices.map Notice.about)
    (habout : ∀ i < taken.length + 1,
      (i ∈ notices.map Notice.about ∨ i = n.about ↔ i ∉ shown'.map Visible.index)) :
    NoticesFor boot (taken ++ [next]) shown' (notices ++ [n]) where
  right := by
    intro n' hn'
    rcases List.mem_append.mp hn' with hold | hlast
    · exact (noticed.right n' hold).concat next
    · rw [List.mem_singleton.mp hlast]
      exact hright
  ascending := by
    refine List.pairwise_append.mpr ⟨noticed.ascending, List.pairwise_singleton _ _, ?_⟩
    intro n' hn' last hlast
    rw [List.mem_singleton.mp hlast, hcause]
    exact (noticed.right n' hn').lt_length.1
  once := by
    rw [List.map_append, List.map_singleton, ← List.concat_eq_append]
    exact noticed.once.concat hnew
  about_iff i hi := by
    rw [List.length_append, List.length_singleton] at hi
    rw [List.map_append, List.map_singleton, List.mem_append, List.mem_singleton]
    exact habout i hi

end NoticesFor

namespace Scanned

variable {notices : List Notice} {next : FileEntry}

theorem leave (scanned : Scanned boot taken shown notices) {omission : Omission}
    (haccept : accept boot taken.length next = .error omission) :
    Scanned boot (taken ++ [next]) shown
      (notices ++ [⟨taken.length, taken.length, omission.warning next⟩]) where
  shows := scanned.shows.leave haccept
  ordered := by
    obtain ⟨firsts, hascending, hfirsts⟩ := scanned.ordered
    exact ⟨firsts, hascending, hfirsts.imp fun _ _ hfirst => hfirst.concat next⟩
  noticed := by
    have hfile : (taken ++ [next])[taken.length]? = some next := List.getElem?_concat_length
    apply scanned.noticed.concat (.skipped _ _ _ hfile (skipped_of_accept haccept)
      (omits_of_accept haccept)) rfl
    · intro h
      exact Nat.lt_irrefl _ (scanned.noticed.lt_length h)
    · intro i hi
      rcases Nat.lt_succ_iff_lt_or_eq.mp hi with hlt | rfl
      · rw [← scanned.noticed.about_iff i hlt]
        exact or_iff_left (Nat.ne_of_lt hlt)
      · simp only [or_true, true_iff, List.mem_map, not_exists, not_and]
        intro v hv
        exact Nat.ne_of_lt (scanned.shows.index_lt hv)

theorem extend (scanned : Scanned boot taken shown notices)
    (haccept : accept boot taken.length next = .ok stored)
    (hnew : ∀ v ∈ shown, v.key ≠ Text.fold next.baseName) :
    Scanned boot (taken ++ [next]) (shown ++ [⟨taken.length, next, stored⟩]) notices where
  shows := scanned.shows.extend haccept hnew
  ordered := by
    obtain ⟨firsts, hascending, hfirsts⟩ := scanned.ordered
    have hfirst : FirstOf boot (taken ++ [next]) (Text.fold next.baseName) taken.length := by
      refine ⟨⟨next, Candidate.of_accept haccept, rfl⟩, ?_⟩
      intro j other hother hkey
      rcases hother.of_concat with hold | ⟨rfl, -⟩
      · exact absurd hkey (scanned.not_candidate_of_new hnew hold)
      · exact Nat.le_refl _
    refine ⟨firsts ++ [taken.length], List.pairwise_append.mpr ⟨hascending,
      List.pairwise_singleton _ _, ?_⟩, ?_⟩
    · intro i hi last hlast
      rw [List.mem_singleton.mp hlast]
      exact lt_length_of_firsts hfirsts hi
    · rw [List.map_append]
      exact List.rel_append (hfirsts.imp fun _ _ hfirst => hfirst.concat next)
        (.cons hfirst .nil)
  noticed := scanned.noticed.extend stored

theorem replace {before after : List Visible} {old : Visible}
    (scanned : Scanned boot taken (before ++ old :: after) notices)
    (haccept : accept boot taken.length next = .ok stored)
    (hkey : old.key = Text.fold next.baseName) :
    Scanned boot (taken ++ [next]) (before ++ ⟨taken.length, next, stored⟩ :: after)
      (notices ++ [⟨taken.length, old.index, next.name ++ " replaces " ++ old.file.name⟩]) where
  shows := scanned.shows.replace haccept hkey
  ordered := by
    -- The new file has the name of the old one, so the names are the same.
    obtain ⟨firsts, hascending, hfirsts⟩ := scanned.ordered
    rw [List.map_append, List.map_cons, hkey] at hfirsts
    refine ⟨firsts, hascending, ?_⟩
    rw [List.map_append, List.map_cons]
    exact hfirsts.imp fun _ _ hfirst => hfirst.concat next
  noticed := by
    have hold : old ∈ before ++ old :: after :=
      List.mem_append_right _ (List.mem_cons_self ..)
    have hlt : old.index < taken.length := scanned.shows.index_lt hold
    have hnodup := scanned.shows.nodup_index
    apply scanned.noticed.concat (.replaced old.index taken.length old.file next
      ((scanned.candidate hold).concat next) (.of_accept haccept) hlt
      ((Text.sameName_iff _ _).mpr hkey) ?_) rfl
    · rw [scanned.noticed.about_iff _ hlt, not_not]
      exact List.mem_map_of_mem hold
    · intro i hi
      rcases Nat.lt_succ_iff_lt_or_eq.mp hi with hlow | rfl
      · rw [scanned.noticed.about_iff i hlow]
        rw [List.map_append, List.map_cons] at hnodup ⊢
        rw [List.map_append, List.map_cons]
        exact (not_mem_replaced_iff hnodup (Nat.ne_of_lt hlow)).symm
      · constructor
        · rintro (h | h)
          · exact absurd (scanned.noticed.lt_length h) (Nat.lt_irrefl _)
          · exact absurd h (Nat.ne_of_gt hlt)
        · intro h
          refine absurd ?_ h
          rw [List.map_append, List.map_cons]
          exact List.mem_append_right _ (List.mem_cons_self ..)
    · intro k other hlow hhigh hother
      rw [← Bool.not_eq_true, Text.sameName_iff]
      intro hsame
      rcases hother.of_concat with hother | ⟨rfl, -⟩
      · exact absurd (scanned.le_of_candidate hold hother (hsame.trans hkey.symm))
          (Nat.not_le.mpr hlow)
      · exact Nat.lt_irrefl _ hhigh

/-- One file is taken in, with a notice if it is left out or replaces another. -/
theorem takeIn (scanned : Scanned boot taken shown notices) (next : FileEntry) :
    ∃ notice : Option Notice,
      Scanned boot (taken ++ [next]) (takeIn boot taken.length shown next).1
        (notices ++ notice.toList) ∧
      notice.map Notice.line = (takeIn boot taken.length shown next).2 := by
  cases haccept : accept boot taken.length next with
  | error omission =>
      rw [takeIn_of_error haccept]
      exact ⟨some _, scanned.leave haccept, rfl⟩
  | ok stored =>
      by_cases hknown : ∃ v ∈ shown, v.key = Text.fold next.baseName
      · obtain ⟨old, hold, hkey⟩ := hknown
        obtain ⟨before, after, old', rfl, hkey', htaken⟩ := takeIn_of_known haccept hold hkey
        rw [htaken]
        exact ⟨some _, scanned.replace haccept hkey', rfl⟩
      · push Not at hknown
        rw [takeIn_of_new haccept hknown]
        refine ⟨none, ?_, rfl⟩
        rw [Option.toList_none, List.append_nil]
        exact scanned.extend haccept hknown

/-- The scan over the rest of a list. -/
theorem showFrom (scanned : Scanned boot taken shown notices) (rest : List FileEntry) :
    ∃ others : List Notice,
      Scanned boot (taken ++ rest) (showFrom boot taken.length shown rest).1 (notices ++ others) ∧
      others.map Notice.line = (showFrom boot taken.length shown rest).2 := by
  induction rest generalizing taken shown notices with
  | nil =>
      refine ⟨[], ?_, rfl⟩
      rw [List.append_nil, List.append_nil]
      exact scanned
  | cons file rest ih =>
      obtain ⟨notice, hstep, hline⟩ := scanned.takeIn file
      obtain ⟨others, hrest, hlines⟩ := ih hstep
      rw [List.length_append, List.length_singleton] at hrest hlines
      rw [List.append_assoc, List.append_assoc] at hrest
      rw [showFrom_cons]
      refine ⟨notice.toList ++ others, hrest, ?_⟩
      rw [List.map_append, hlines, ← hline]
      cases notice <;> rfl

/-- A file is visible just if it is the last candidate with its name. -/
theorem visibleByGroup (scanned : Scanned boot taken shown notices) :
    VisibleByGroup boot taken shown where
  stored v hv :=
    ⟨scanned.shows.at_index v hv, (accept_eq_ok_iff.mp (scanned.shows.accepted v hv)).1⟩
  visible_iff i file hfile := by
    rw [List.mem_map]
    constructor
    · rintro ⟨v, hv, rfl⟩
      have hsame : v.file = file := Option.some.inj ((scanned.shows.at_index v hv).symm.trans hfile)
      subst hsame
      refine ⟨(scanned.candidate hv).not_skipped, ?_⟩
      intro j other hlt hother
      rw [← Bool.not_eq_true, Text.sameName_iff]
      intro hkey
      exact absurd (scanned.le_of_candidate hv hother hkey) (Nat.not_le.mpr hlt)
    · rintro ⟨hfree, hlast⟩
      obtain ⟨stored, hstored⟩ := not_skipped_iff.mp hfree
      obtain ⟨v, hv, hkey, hle⟩ := scanned.shows.covered i file stored hfile hstored
      refine ⟨v, hv, Nat.le_antisymm ?_ hle⟩
      by_contra hlt
      have hdifferent := hlast v.index v.file (Nat.not_le.mp hlt) (scanned.candidate hv)
      rw [← Bool.not_eq_true, Text.sameName_iff] at hdifferent
      exact hdifferent hkey
  distinct := by
    refine (List.pairwise_map.mp scanned.shows.distinct).imp ?_
    intro v w hne
    rw [← Bool.not_eq_true, Text.sameName_iff]
    exact hne
  ordered := scanned.ordered

end Scanned

/-- The scan over a whole set, with the notices that its lines come from. -/
theorem scanned_visibleFiles (set : FileSet) :
    ∃ notices : List Notice, Scanned set.boot set.files (visibleFiles set).1 notices ∧
      notices.map Notice.line = (visibleFiles set).2 := by
  obtain ⟨notices, hscanned, hlines⟩ := (Scanned.nil set.boot).showFrom set.files
  exact ⟨notices, hscanned, hlines⟩

end BootVolume.Image
