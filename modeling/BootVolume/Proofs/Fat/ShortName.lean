import BootVolume.Fat.Listing
import BootVolume.Proofs.Fat.StoredName

/-!
# Short names shown again

A name that is stored in its short form is shown as it was given: the flags
bring back the case of its letters, and the spaces behind its parts are cut off.
Only a dot at the end is lost, since a part without characters is not shown.
-/

namespace BootVolume.Fat

/-! ## The dot of a name -/

theorem splitExtension_cases (name : List Char) :
    (splitExtension name = (name, []) ∧ '.' ∉ name) ∨
      ∃ base extension, splitExtension name = (base, extension) ∧
        name = base ++ '.' :: extension ∧ '.' ∉ extension := by
  have hsplit := List.takeWhile_append_dropWhile (p := (· != '.')) (l := name.reverse)
  unfold splitExtension
  cases hrest : name.reverse.dropWhile (· != '.') with
  | nil =>
      refine Or.inl ⟨rfl, fun hdot => ?_⟩
      rw [List.dropWhile_eq_nil_iff] at hrest
      exact absurd (hrest '.' (List.mem_reverse.mpr hdot)) (by decide)
  | cons c base =>
      have hc : c = '.' := by
        have hhead := List.head?_dropWhile_not (· != '.') name.reverse
        rw [hrest] at hhead
        simpa using hhead
      refine Or.inr ⟨_, _, rfl, ?_, ?_⟩
      · rw [hrest, hc] at hsplit
        have hname := congrArg List.reverse hsplit
        rw [List.reverse_append, List.reverse_reverse, List.reverse_cons,
          List.append_assoc] at hname
        exact hname.symm
      · rw [List.mem_reverse]
        intro hdot
        exact absurd (List.mem_takeWhile_imp hdot) (by decide)

/-! ## Characters of short names -/

theorem toNat_lt_of_isShortChar {c : Char} (h : isShortChar c = true) : c.toNat < 128 := by
  unfold isShortChar at h
  rcases Bool.or_eq_true_iff.mp h with hletter | hmark
  · simp only [Char.isAlphanum, Char.isAlpha, Char.isUpper, Char.isLower, Char.isDigit,
      Bool.or_eq_true, Bool.and_eq_true, decide_eq_true_eq, ge_iff_le, UInt32.le_iff_toNat_le]
      at hletter
    have hvalue : c.toNat = c.val.toNat := rfl
    have hbounds : 'Z'.val.toNat < 128 ∧ 'z'.val.toNat < 128 ∧ '9'.val.toNat < 128 := by decide
    omega
  · have hmarks : (shortPunctuation.all fun c => decide (c.toNat < 128)) = true := by
      decide
    exact of_decide_eq_true (List.all_eq_true.mp hmarks c (List.contains_iff_mem.mp hmark))

/-- A character of a short name in upper case is a printable one, and its own case brings it
back. -/
theorem isShortChar_upper {c : Char} (h : isShortChar c = true) :
    c.toUpper.toNat < 256 ∧ c.toUpper ≠ ' ' ∧ c.toUpper.toNat ≠ 0 ∧
      (c.isLower = false → c.toUpper = c) ∧ (c.isUpper = false → c.toUpper.toLower = c) := by
  have hsmall := toNat_lt_of_isShortChar h
  have hall : ∀ n < 128, isShortChar (Char.ofNat n) = true →
      (Char.ofNat n).toUpper.toNat < 256 ∧ (Char.ofNat n).toUpper ≠ ' ' ∧
        (Char.ofNat n).toUpper.toNat ≠ 0 ∧
        ((Char.ofNat n).isLower = false → (Char.ofNat n).toUpper = Char.ofNat n) ∧
        ((Char.ofNat n).isUpper = false → (Char.ofNat n).toUpper.toLower = Char.ofNat n) := by
    decide +kernel
  have hc := hall c.toNat hsmall
  rw [Char.ofNat_toNat] at hc
  exact hc h

/-! ## Parts of a short name -/

theorem asciiText_map_upper {part : List Char} (h : part.all isShortChar = true) :
    asciiText (part.map fun c => UInt8.ofNat c.toUpper.toNat) = part.map Char.toUpper := by
  unfold asciiText
  rw [List.map_map]
  refine List.map_congr_left fun c hc => ?_
  obtain ⟨hbyte, -⟩ := isShortChar_upper (List.all_eq_true.mp h c hc)
  rw [Function.comp_apply, UInt8.toNat_ofNat', Nat.mod_eq_of_lt hbyte, Char.ofNat_toNat]

theorem trimSpaces_append {part : List Char} (h : ∀ c ∈ part, c ≠ ' ') (count : Nat) :
    trimSpaces (part ++ List.replicate count ' ') = part := by
  have hspaces : ∀ c ∈ List.replicate count ' ', (c == ' ') = true := by
    intro c hc
    rw [List.eq_of_mem_replicate hc]
    rfl
  have hpart : part.reverse.dropWhile (· == ' ') = part.reverse := by
    cases hrev : part.reverse with
    | nil => rfl
    | cons c rest =>
        have hc := h c (List.mem_reverse.mp (by rw [hrev]; exact List.mem_cons_self ..))
        rw [List.dropWhile_cons_of_neg (by simpa using hc)]
  unfold trimSpaces
  rw [List.reverse_append, List.reverse_replicate, List.dropWhile_append_of_pos hspaces, hpart,
    List.reverse_reverse]

theorem shownPart_padUpper {part : List Char} {width : Nat} (hchars : part.all isShortChar = true)
    (hwidth : part.length ≤ width) (isLower : Bool) :
    shownPart (padUpper part width) isLower =
      if isLower then (part.map Char.toUpper).map Char.toLower else part.map Char.toUpper := by
  have hbytes : asciiText (padUpper part width) =
      part.map Char.toUpper ++ List.replicate (width - part.length) ' ' := by
    rw [padUpper, Bytes.fit, List.take_of_length_le (by rw [List.length_map]; exact hwidth),
      asciiText, List.map_append, ← asciiText, asciiText_map_upper hchars, List.map_replicate,
      List.length_map]
    rfl
  have hspaces : ∀ c ∈ part.map Char.toUpper, c ≠ ' ' := by
    intro c hc
    obtain ⟨c', hc', rfl⟩ := List.mem_map.mp hc
    exact (isShortChar_upper (List.all_eq_true.mp hchars c' hc')).2.1
  rw [shownPart, hbytes, trimSpaces_append hspaces]

/-- The case flag of a part brings back its letters. -/
theorem shownPart_eq {part : List Char} {width : Nat} {flag f : UInt8}
    (hchars : part.all isShortChar = true) (hwidth : part.length ≤ width)
    (hflag : caseFlag? part flag = some f) (hne : flag ≠ 0) :
    shownPart (padUpper part width) (f != 0) = part := by
  have hcase : ∀ c ∈ part, isShortChar c = true := List.all_eq_true.mp hchars
  rw [shownPart_padUpper hchars hwidth]
  unfold caseFlag? at hflag
  split at hflag
  · cases hflag
  · rename_i hlower hupper
    cases hflag
    rw [if_pos (by simpa using hne), List.map_map]
    refine (List.map_congr_left fun c hc => ?_).trans (List.map_id _)
    have hc' : c.isUpper = false := by
      rw [List.any_eq_false] at hupper
      simpa using hupper c hc
    exact (isShortChar_upper (hcase c hc)).2.2.2.2 hc'
  · rename_i hlower
    cases hflag
    rw [if_neg (by decide)]
    refine (List.map_congr_left fun c hc => ?_).trans (List.map_id _)
    have hc' : c.isLower = false := by
      rw [List.any_eq_false] at hlower
      simpa using hlower c hc
    exact (isShortChar_upper (hcase c hc)).2.2.2.1 hc'

theorem caseFlag?_cases {part : List Char} {flag f : UInt8} (h : caseFlag? part flag = some f) :
    f = flag ∨ f = 0 := by
  unfold caseFlag? at h
  split at h
  · cases h
  · exact Or.inl (Option.some.inj h).symm
  · exact Or.inr (Option.some.inj h).symm

/-! ## Whole names -/

/-- The text of a name with the given parts. -/
def joinParts (base extension : List Char) : List Char :=
  if extension.isEmpty then base else base ++ '.' :: extension

/-- A short form is shown with the parts of the name it stands for. -/
theorem toList_shownShort {name : String} {short : Bytes} {flags : UInt8}
    (h : shortForm? name = some (short, flags)) :
    (shownShort short flags).toList =
      joinParts (splitExtension name.toList).1 (splitExtension name.toList).2 := by
  obtain ⟨-, hbaseLength, hextLength, hchars, b, e, hb, he, rfl, rfl⟩ := shortForm?_eq_some h
  rw [List.all_append, Bool.and_eq_true] at hchars
  have htake : (padUpper (splitExtension name.toList).1 8 ++
      padUpper (splitExtension name.toList).2 3).take 8 =
        padUpper (splitExtension name.toList).1 8 :=
    List.take_left' (length_padUpper ..)
  have hdrop : (padUpper (splitExtension name.toList).1 8 ++
      padUpper (splitExtension name.toList).2 3).drop 8 =
        padUpper (splitExtension name.toList).2 3 :=
    List.drop_left' (length_padUpper ..)
  have hflags : (b ||| e) &&& lowerBase = b ∧ (b ||| e) &&& lowerExtension = e := by
    rcases caseFlag?_cases hb with rfl | rfl <;> rcases caseFlag?_cases he with rfl | rfl <;>
      decide
  rw [shownShort, htake, hdrop, hflags.1, hflags.2,
    shownPart_eq hchars.1 hbaseLength hb (by decide),
    shownPart_eq hchars.2 hextLength he (by decide), String.toList_ofList]
  rfl

/-- A short form is shown as the name it stands for, less a dot at its end. -/
theorem shownShort_of_shortForm? {name : String} {short : Bytes} {flags : UInt8}
    (h : shortForm? name = some (short, flags)) :
    (shownShort short flags).toList = name.toList ∨
      (shownShort short flags).toList ++ ['.'] = name.toList ∧
        (shownShort short flags).toList.length ≤ 8 := by
  obtain ⟨-, hbaseLength, -⟩ := shortForm?_eq_some h
  rw [toList_shownShort h]
  rcases splitExtension_cases name.toList with ⟨hsplit, -⟩ | ⟨base, extension, hsplit, hname, -⟩
  · rw [hsplit]
    exact Or.inl rfl
  · rw [hsplit] at hbaseLength ⊢
    rw [hname]
    cases extension with
    | nil => exact Or.inr ⟨rfl, hbaseLength⟩
    | cons c rest => exact Or.inl rfl

end BootVolume.Fat
