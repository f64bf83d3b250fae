import BootVolume.Proofs.Fat.Listing
import BootVolume.Proofs.Text.CaseFold

/-!
# Names that look alike

A directory keeps a name in its short form, in upper case and cut at the dot, or
as it is beside a short name made from a checksum.  Two short forms are the same
bytes just if they are shown as one name up to the case of letters
(`short_eq_iff`).  A name that is shown may differ from the one that was stored by
a dot at its end, which a short form loses (`LosesDot`), and by what stands behind
a NUL.  So names that differ may look alike in just one way (`listed_alike_iff`).
-/

namespace BootVolume.Fat

variable {a b name : String} {s t short : Bytes} {f g flags : UInt8} {m n : StoredName}

/-! ## Parts of a short form -/

theorem dot_not_mem_of_isShortChar {part : List Char} (h : part.all isShortChar = true) :
    '.' ∉ part := by
  intro hdot
  exact absurd (List.all_eq_true.mp h '.' hdot) (by decide)

theorem joinParts_map_toLower (base extension : List Char) :
    (joinParts base extension).map Char.toLower =
      joinParts (base.map Char.toLower) (extension.map Char.toLower) := by
  unfold joinParts
  cases extension with
  | nil => rfl
  | cons c rest => simp [Text.toLower_eq_dot_iff.mpr rfl]

/-- Parts without dots are known from the name that they make. -/
theorem joinParts_inj {base base' extension extension' : List Char} (hbase : '.' ∉ base)
    (hbase' : '.' ∉ base') (hextension : '.' ∉ extension) :
    joinParts base extension = joinParts base' extension' ↔
      base = base' ∧ extension = extension' := by
  refine ⟨fun h => ?_, by rintro ⟨rfl, rfl⟩; rfl⟩
  cases extension with
  | nil =>
      cases extension' with
      | nil => exact ⟨h, rfl⟩
      | cons c rest =>
          obtain rfl : base = base' ++ '.' :: c :: rest := h
          exact absurd (List.mem_append_right _ (List.mem_cons_self ..)) hbase
  | cons c rest =>
      cases extension' with
      | nil =>
          obtain rfl : base ++ '.' :: c :: rest = base' := h
          exact absurd (List.mem_append_right _ (List.mem_cons_self ..)) hbase'
      | cons c' rest' =>
          obtain ⟨hb, -, he⟩ := (List.append_cons_inj_of_notMem hbase hextension).mp h
          exact ⟨hb, he⟩

/-- Parts that fit are stored in the same bytes just if they are the same up to case. -/
theorem padUpper_eq_iff {part other : List Char} {width : Nat} (hpart : part.all isShortChar = true)
    (hother : other.all isShortChar = true) (hpartWidth : part.length ≤ width)
    (hotherWidth : other.length ≤ width) :
    padUpper part width = padUpper other width ↔
      part.map Char.toLower = other.map Char.toLower := by
  constructor
  · intro h
    have hshown := congrArg (shownPart · false) h
    simp only [shownPart_padUpper hpart hpartWidth, shownPart_padUpper hother hotherWidth] at hshown
    exact Text.map_toUpper_eq_iff.mp hshown
  · intro h
    have hupper := Text.map_toUpper_eq_iff.mpr h
    have hbytes := congrArg (List.map fun c : Char => UInt8.ofNat c.toNat) hupper
    rw [List.map_map, List.map_map] at hbytes
    exact congrArg (Bytes.fit · width 0x20) hbytes

/-- Two short forms are the same just if they are shown as one name up to the case of letters. -/
theorem short_eq_iff (ha : shortForm? a = some (s, f)) (hb : shortForm? b = some (t, g)) :
    s = t ↔ Text.sameName (shownShort s f) (shownShort t g) = true := by
  obtain ⟨-, hbase, hextension, hchars, _, _, -, -, hs, -⟩ := shortForm?_eq_some ha
  obtain ⟨-, hbase', hextension', hchars', _, _, -, -, ht, -⟩ := shortForm?_eq_some hb
  rw [List.all_append, Bool.and_eq_true] at hchars hchars'
  rw [Text.sameName_iff, Text.fold, Text.fold, toList_shownShort ha, toList_shownShort hb,
    joinParts_map_toLower, joinParts_map_toLower,
    joinParts_inj
      (mt Text.dot_mem_map_toLower_iff.mp (dot_not_mem_of_isShortChar hchars.1))
      (mt Text.dot_mem_map_toLower_iff.mp (dot_not_mem_of_isShortChar hchars'.1))
      (mt Text.dot_mem_map_toLower_iff.mp (dot_not_mem_of_isShortChar hchars.2)),
    ← padUpper_eq_iff hchars.1 hchars'.1 hbase hbase',
    ← padUpper_eq_iff hchars.2 hchars'.2 hextension hextension', hs, ht]
  constructor
  · intro h
    exact List.append_inj h (by rw [length_padUpper, length_padUpper])
  · rintro ⟨hsame, hsame'⟩
    rw [hsame, hsame']

/-! ## Words -/

/-- Whether a text has letters of both cases. -/
def mixesCase (text : List Char) : Bool := text.any Char.isLower && text.any Char.isUpper

theorem caseFlag?_eq_none_iff {part : List Char} (flag : UInt8) :
    caseFlag? part flag = none ↔ mixesCase part = true := by
  unfold caseFlag? mixesCase
  cases part.any Char.isLower <;> cases part.any Char.isUpper <;> simp

theorem isShortChar_toLower (c : Char) : isShortChar c.toLower = isShortChar c :=
  Text.apply_toLower (by decide) c

/-- A word of a few characters has a short form unless it has letters of both cases. -/
theorem shortForm?_eq_none_iff_of_word (hname : name.toList ≠ []) (hlength : name.toList.length ≤ 8)
    (hchars : name.toList.all isShortChar = true) :
    shortForm? name = none ↔ mixesCase name.toList = true := by
  have hsplit : splitExtension name.toList = (name.toList, []) := by
    rcases splitExtension_cases name.toList with ⟨hsplit, -⟩ | ⟨base, extension, -, heq, -⟩
    · exact hsplit
    · refine absurd ?_ (dot_not_mem_of_isShortChar hchars)
      rw [heq]
      exact List.mem_append_right _ (List.mem_cons_self ..)
  have hempty : caseFlag? [] lowerExtension = some 0 := rfl
  rw [shortForm?, hsplit, ← caseFlag?_eq_none_iff lowerBase]
  simp only [List.append_nil, if_pos (⟨hname, hlength, Nat.zero_le 3, hchars⟩ :
    name.toList ≠ [] ∧ name.toList.length ≤ 8 ∧ ([] : List Char).length ≤ 3 ∧
      name.toList.all isShortChar = true), hempty]
  cases caseFlag? name.toList lowerBase <;> simp

/-- The characters of a short form are those that it may have, and dots. -/
theorem isShortChar_of_mem (h : (shortForm? name).isSome = true) {c : Char}
    (hc : c ∈ name.toList) : isShortChar c = true ∨ c = '.' := by
  obtain ⟨⟨short, flags⟩, hshort⟩ := Option.isSome_iff_exists.mp h
  obtain ⟨-, -, -, hchars, -⟩ := shortForm?_eq_some hshort
  rw [List.all_append, Bool.and_eq_true, List.all_eq_true, List.all_eq_true] at hchars
  rcases splitExtension_cases name.toList with ⟨hsplit, -⟩ | ⟨base, extension, hsplit, heq, -⟩
  · rw [hsplit] at hchars
    exact Or.inl (hchars.1 c hc)
  · rw [hsplit] at hchars
    rw [heq, List.mem_append, List.mem_cons] at hc
    rcases hc with hc | hc | hc
    · exact Or.inl (hchars.1 c hc)
    · exact Or.inr hc
    · exact Or.inl (hchars.2 c hc)

theorem shortForm?_eq_none_of_nul (h : '\x00' ∈ name.toList) : shortForm? name = none := by
  by_contra hsome
  have hshort := Option.isSome_iff_ne_none.mpr hsome
  exact absurd (isShortChar_of_mem hshort h) (by decide)

/-! ## Dots at the end -/

/-- The name `a`, which has a short form, is the other one with a dot behind it, up to case. -/
def LosesDot (a b : String) : Prop :=
  (shortForm? a).isSome = true ∧ Text.fold a = Text.fold b ++ ['.']

instance : DecidableRel LosesDot := fun _ _ => inferInstanceAs (Decidable (_ ∧ _))

theorem not_losesDot (h : a.toList.getLast? ≠ some '.') : ¬ LosesDot a b := by
  rintro ⟨-, hfold⟩
  have hlast := congrArg List.getLast? hfold
  rw [List.getLast?_concat, Text.fold, List.getLast?_map, Option.map_eq_some_iff] at hlast
  obtain ⟨c, hc, hdot⟩ := hlast
  rw [Text.toLower_eq_dot_iff.mp hdot] at hc
  exact h hc

/-- A short form is never shown with a dot at its end. -/
theorem getLast?_shownShort (h : shortForm? name = some (short, flags)) :
    (Text.fold (shownShort short flags)).getLast? ≠ some '.' := by
  obtain ⟨-, -, -, hchars, -⟩ := shortForm?_eq_some h
  rw [List.all_append, Bool.and_eq_true] at hchars
  rw [Text.fold, toList_shownShort h, joinParts_map_toLower]
  generalize (splitExtension name.toList).1 = base at hchars ⊢
  generalize (splitExtension name.toList).2 = extension at hchars ⊢
  intro hlast
  unfold joinParts at hlast
  cases extension with
  | nil =>
      have hdot := Text.dot_mem_map_toLower_iff.mp (List.mem_of_getLast? hlast)
      exact dot_not_mem_of_isShortChar hchars.1 hdot
  | cons c rest =>
      have hdot : '.' ∈ (c :: rest).map Char.toLower := by
        rw [if_neg (by simp), List.getLast?_append, List.map_cons, List.getLast?_cons_cons] at hlast
        exact List.mem_of_getLast? (by simpa using hlast)
      exact dot_not_mem_of_isShortChar hchars.2 (Text.dot_mem_map_toLower_iff.mp hdot)

theorem listed_of_long (h : storedName? name = some n) (hlong : shortForm? name = none) :
    n.listed = Text.beforeNul name := by
  rcases storedName?_eq_some h with ⟨hshort, -⟩ | ⟨-, -, -, rfl⟩
  · rw [hlong] at hshort
    cases hshort
  · exact Text.ofUtf16Lossy_takeWhile name

/-- A name without NUL is listed as it is, or it loses its dot. -/
theorem listed_cases (h : storedName? name = some n) (hnul : '\x00' ∉ name.toList) :
    (Text.fold n.listed = Text.fold name ∧ ∀ other, ¬ LosesDot name other) ∨
      (LosesDot name n.listed ∧ (Text.fold n.listed).getLast? ≠ some '.') := by
  rw [StoredName.listed_eq_shown h hnul]
  rcases storedName?_eq_some h with ⟨hshort, hlong⟩ | ⟨hnone, -, -, rfl⟩
  · have hlast := getLast?_shownShort hshort
    rw [StoredName.shown, hlong]
    rcases shownShort_of_shortForm? hshort with hsame | ⟨hdot, -⟩
    · refine Or.inl ⟨congrArg (List.map Char.toLower) hsame, ?_⟩
      rintro other ⟨-, hother⟩
      have hfold : Text.fold (shownShort n.short n.caseFlags) = Text.fold name :=
        congrArg (List.map Char.toLower) hsame
      rw [hfold, hother, List.getLast?_concat] at hlast
      exact hlast rfl
    · refine Or.inr ⟨⟨by rw [hshort]; rfl, ?_⟩, hlast⟩
      rw [Text.fold, ← hdot, List.map_append]
      rfl
  · refine Or.inl ⟨congrArg Text.fold (Text.ofUtf16Lossy_utf16 name), ?_⟩
    rintro other ⟨hsome, -⟩
    rw [hnone] at hsome
    cases hsome

/-- Different names look alike just if one of them loses a dot that the other one does not have. -/
theorem listed_alike_iff (ha : storedName? a = some m) (hb : storedName? b = some n)
    (hnulA : '\x00' ∉ a.toList) (hnulB : '\x00' ∉ b.toList)
    (hdiffer : Text.sameName a b = false) :
    Text.sameName m.listed n.listed = true ↔ LosesDot a b ∨ LosesDot b a := by
  have hne : Text.fold a ≠ Text.fold b := by
    rw [← Bool.not_eq_true, Text.sameName_iff] at hdiffer
    exact hdiffer
  rw [Text.sameName_iff]
  rcases listed_cases ha hnulA with ⟨hfoldA, hkeepsA⟩ | ⟨⟨hshortA, hlosesA⟩, hlastA⟩ <;>
    rcases listed_cases hb hnulB with ⟨hfoldB, hkeepsB⟩ | ⟨⟨hshortB, hlosesB⟩, hlastB⟩
  · -- Both are shown as they are.
    rw [hfoldA, hfoldB]
    simp [hne, hkeepsA, hkeepsB]
  · rw [hfoldA, or_iff_right (hkeepsA b)]
    constructor
    · intro hsame
      exact ⟨hshortB, by rw [hlosesB, hsame]⟩
    · rintro ⟨-, hdot⟩
      rw [hlosesB] at hdot
      exact (List.append_cancel_right hdot).symm
  · rw [hfoldB, or_iff_left (hkeepsB a)]
    constructor
    · intro hsame
      exact ⟨hshortA, by rw [hlosesA, hsame]⟩
    · rintro ⟨-, hdot⟩
      rw [hlosesA] at hdot
      exact List.append_cancel_right hdot
  · -- Both lose a dot: then neither is shown with one.
    constructor
    · intro hsame
      rw [hlosesA, hlosesB, hsame] at hne
      exact absurd rfl hne
    · rintro (⟨-, hdot⟩ | ⟨-, hdot⟩)
      · rw [hlosesA, hlosesB] at hdot
        rw [List.append_cancel_right hdot, List.getLast?_concat] at hlastA
        exact absurd rfl hlastA
      · rw [hlosesA, hlosesB] at hdot
        rw [List.append_cancel_right hdot, List.getLast?_concat] at hlastB
        exact absurd rfl hlastB

end BootVolume.Fat
