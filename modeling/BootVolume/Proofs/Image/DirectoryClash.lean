import BootVolume.Proofs.Image.RootNames

/-!
# Files that look like a directory

A name is compared with the directories by its short form.  A name that can only
be stored in units is not compared, since its short name is made from a checksum
and never that of a directory.  This is so for a name with letters of both cases,
and for a name with a NUL.  So a file called `Sources` is shown beside the
directory `SOURCES`, and these are all files that look like a directory
(`shown_like_directory_iff`).
-/

namespace BootVolume.Image

open Fat Files

variable {σ : Type} {set : FileSet} {name directory : String} {n : StoredName}

/-- The names of the directories in the root. -/
def directoryNames : List String := ["BOOT", "SOURCES", "EFI"]

/-- The name can be stored, but not in its short form, by which it would be compared with the
directories. -/
def EscapesCheck (name : String) : Prop :=
  (mixesCase name.toList = true ∨ '\x00' ∈ name.toList) ∧
    (Text.utf16 name).length ≤ maxLongName

instance : DecidablePred EscapesCheck := fun _ => inferInstanceAs (Decidable (_ ∧ _))

theorem isReserved_iff {short : Bytes} :
    isReserved short = true ↔
      ∃ directory ∈ directoryNames, shortForm? directory = some (short, 0) := by
  have hboot : shortForm? "BOOT" = some (bootDirectory, 0) := by decide
  have hsources : shortForm? "SOURCES" = some (sourcesDirectory, 0) := by decide
  have hfirmware : shortForm? "EFI" = some (firmwareDirectory, 0) := by decide
  simp only [isReserved, rootAliases, directoryNames, List.contains_cons, List.contains_nil,
    Bool.or_false, Bool.or_eq_true, beq_iff_eq, List.mem_cons, List.not_mem_nil, or_false,
    exists_eq_or_imp, exists_eq_left, hboot, hsources, hfirmware, Option.some.injEq,
    Prod.mk.injEq, and_true, or_assoc]
  rw [eq_comm (a := short), eq_comm (a := short), eq_comm (a := short)]

theorem exists_shortForm?_directory (h : directory ∈ directoryNames) :
    ∃ short, shortForm? directory = some (short, 0) ∧ shownShort short 0 = directory := by
  have hall : ∀ directory ∈ directoryNames, (shortForm? directory).any
      (fun f => f.2 == 0 && shownShort f.1 0 == directory) = true := by decide
  obtain ⟨⟨short, flags⟩, hshort, hshown⟩ := (Option.any_eq_true _ _).mp (hall directory h)
  rw [Bool.and_eq_true, beq_iff_eq, beq_iff_eq] at hshown
  obtain ⟨rfl, hshown⟩ := hshown
  exact ⟨short, hshort, hshown⟩

/-- Eight digits fill the base of a short name, which no directory does. -/
theorem isReserved_hashedShort (name : String) : isReserved (hashedShort name) = false := by
  rw [← Bool.not_eq_true]
  intro hreserved
  have hspace : ∀ short, isReserved short = true → short.getD 7 0 = 0x20 := by
    intro short h
    simp only [isReserved, rootAliases, List.contains_cons, List.contains_nil, Bool.or_false,
      Bool.or_eq_true, beq_iff_eq] at h
    rcases h with (rfl | rfl) | rfl <;> decide
  have hdigits : ∀ b ∈ Text.upperHex 8 (crc32 (Text.utf8 name)).toNat, b ≠ 0x20 := by
    intro b hb
    obtain ⟨d, hd, rfl⟩ := List.mem_map.mp hb
    have hall : ∀ d < 16, Text.upperDigit d ≠ 0x20 := by decide
    exact hall d (Text.nibbles_lt _ _ d hd)
  have hlength := Text.length_upperHex 8 (crc32 (Text.utf8 name)).toNat
  have hbyte := hspace _ hreserved
  rw [hashedShort, List.getD_append _ _ _ _ (by rw [hlength]; decide),
    List.getD_eq_getElem _ _ (by rw [hlength]; decide)] at hbyte
  exact hdigits _ (List.getElem_mem _) hbyte

/-- The name of a directory is a word that has a short form if its letters are of one case. -/
theorem shortForm?_eq_none_iff_of_directory (h : directory ∈ directoryNames)
    (hsame : Text.sameName name directory = true) :
    shortForm? name = none ↔ mixesCase name.toList = true := by
  have hall : ∀ directory ∈ directoryNames, Text.fold directory ≠ [] ∧
      (Text.fold directory).length ≤ 8 ∧ (Text.fold directory).all isShortChar = true := by
    decide
  obtain ⟨hne, hlength, hchars⟩ := hall directory h
  rw [← (Text.sameName_iff _ _).mp hsame, Text.fold] at hne hlength hchars
  have hkept : isShortChar ∘ Char.toLower = isShortChar := funext isShortChar_toLower
  rw [List.length_map] at hlength
  rw [List.all_map, hkept] at hchars
  exact shortForm?_eq_none_iff_of_word (mt List.map_eq_nil_iff.mpr hne) hlength hchars

theorem shortForm?_eq_none_of_escapes (h : directory ∈ directoryNames)
    (hsame : Text.sameName (Text.beforeNul name) directory = true) (hescapes : EscapesCheck name) :
    shortForm? name = none := by
  by_cases hnul : '\x00' ∈ name.toList
  · exact shortForm?_eq_none_of_nul hnul
  · rw [Text.beforeNul_eq_self hnul] at hsame
    exact (shortForm?_eq_none_iff_of_directory h hsame).mpr (hescapes.1.resolve_right hnul)

/-- The check finds names in their short form. -/
theorem isReserved_of_sameName {short : Bytes} {flags : UInt8}
    (hshort : shortForm? name = some (short, flags)) (h : directory ∈ directoryNames)
    (hsame : Text.sameName name directory = true) : isReserved short = true := by
  obtain ⟨other, hdirectory, hother⟩ := exists_shortForm?_directory h
  have hshown : Text.sameName (shownShort short flags) directory = true := by
    rcases shownShort_of_shortForm? hshort with heq | ⟨hdot, -⟩
    · rwa [String.toList_inj.mp heq]
    · have hword : ∀ directory ∈ directoryNames, '.' ∉ Text.fold directory := by decide
      refine absurd ?_ (hword directory h)
      rw [← (Text.sameName_iff _ _).mp hsame, Text.fold, Text.dot_mem_map_toLower_iff, ← hdot]
      exact List.mem_append_right _ (List.mem_singleton_self _)
  rw [← hother, ← short_eq_iff hshort hdirectory] at hshown
  exact isReserved_iff.mpr ⟨directory, h, hshown ▸ hdirectory⟩

/-- What may be shown has escaped the check, if it is called like a directory. -/
theorem escapesCheck_of_stored (hn : storedName? name = some n) (hfree : isReserved n.short = false)
    (h : directory ∈ directoryNames)
    (hsame : Text.sameName (Text.beforeNul name) directory = true) : EscapesCheck name := by
  rcases storedName?_eq_some hn with ⟨hshort, -⟩ | ⟨hform, -, hlength, -⟩
  · have hnul : '\x00' ∉ name.toList := by
      intro hnul
      rw [shortForm?_eq_none_of_nul hnul] at hshort
      cases hshort
    rw [Text.beforeNul_eq_self hnul] at hsame
    rw [isReserved_of_sameName hshort h hsame] at hfree
    cases hfree
  · refine ⟨?_, hlength⟩
    by_cases hnul : '\x00' ∈ name.toList
    · exact Or.inr hnul
    · rw [Text.beforeNul_eq_self hnul] at hsame
      exact Or.inl ((shortForm?_eq_none_iff_of_directory h hsame).mp hform)

/-- What may be shown looks like a directory just if it is called like one, up to a NUL. -/
theorem listed_clashes_iff (hn : storedName? name = some n) (hfree : isReserved n.short = false)
    (h : directory ∈ directoryNames) :
    Text.sameName n.listed directory = true ↔
      Text.sameName (Text.beforeNul name) directory = true := by
  rcases storedName?_eq_some hn with ⟨hshort, hlong⟩ | ⟨hform, -⟩
  · obtain ⟨short, hdirectory, hother⟩ := exists_shortForm?_directory h
    constructor
    · -- A short name that is shown like a directory is the one of that directory.
      intro hsame
      rw [StoredName.listed, hlong, ← hother] at hsame
      have hequal := (short_eq_iff hshort hdirectory).mpr hsame
      rw [hequal, isReserved_iff.mpr ⟨directory, h, hdirectory⟩] at hfree
      cases hfree
    · intro hsame
      have hescapes := escapesCheck_of_stored hn hfree h hsame
      rw [shortForm?_eq_none_of_escapes h hsame hescapes] at hshort
      cases hshort
  · rw [listed_of_long hn hform]

/-- A file with such a name may be shown. -/
theorem exists_accept_of_escapes {file : FileEntry} (h : directory ∈ directoryNames)
    (hsame : Text.sameName (Text.beforeNul file.baseName) directory = true)
    (hescapes : EscapesCheck file.baseName) (boot index : Nat) :
    ∃ stored, accept boot index file = .ok stored := by
  have hform := shortForm?_eq_none_of_escapes h hsame hescapes
  have hunits : Text.utf16 file.baseName ≠ [] := by
    intro hempty
    have hword : ∀ directory ∈ directoryNames, Text.sameName "" directory = false := by
      decide
    have hname : file.baseName = "" := by
      rw [← Text.ofUtf16Lossy_utf16 file.baseName, hempty]
      rfl
    rw [hname, show Text.beforeNul "" = "" from rfl, hword directory h] at hsame
    cases hsame
  have hstored : storedName? file.baseName =
      some { short := hashedShort file.baseName, caseFlags := 0,
             long := some (Text.utf16 file.baseName) } := by
    simp only [storedName?, hform]
    exact if_pos ⟨hunits, hescapes.2⟩
  refine ⟨_, accept_eq_ok_iff.mpr ⟨hstored, isReserved_hashedShort file.baseName, ?_⟩⟩
  · rintro ⟨-, hboot⟩
    -- The name of the boot target is none of the directories.
    have hother : ∀ directory ∈ directoryNames, Text.sameName bootName directory = false := by
      decide
    rw [Text.sameName_comm] at hboot
    have hclash := Text.sameName_trans (Text.sameName_beforeNul hboot) hsame
    have hnul : '\x00' ∉ bootName.toList := by decide
    rw [Text.beforeNul_eq_self hnul, hother directory h] at hclash
    cases hclash

/-! ## Built disks -/

section Built

variable {d : VirtualDisk} {m₀ m₁ : Machine σ}

theorem exists_file_of_clash (hbuild : (VirtualDisk.build set).runOn m₀ = (.ok d, m₁))
    (h : directory ∈ directoryNames) {item : Listed} (hitem : item ∈ d.rootFiles)
    (hsame : Text.sameName item.name directory = true) :
    ∃ file ∈ set.files, Text.sameName (Text.beforeNul file.baseName) directory = true ∧
      EscapesCheck file.baseName := by
  obtain ⟨name, hname, n, hn, hlisted, -⟩ := exists_name hbuild hitem
  obtain ⟨n', hn', hfree, hfile⟩ := stored_of_mem_rootNames hname
  obtain rfl : n' = n := Option.some.inj (hn'.symm.trans hn)
  rw [hlisted, listed_clashes_iff hn hfree h] at hsame
  have hescapes := escapesCheck_of_stored hn hfree h hsame
  rcases hfile with rfl | ⟨file, hfile, rfl⟩
  · have hboot : ¬ (mixesCase bootName.toList = true ∨ '\x00' ∈ bootName.toList) := by decide
    exact absurd hescapes.1 hboot
  · exact ⟨file, hfile, hsame, hescapes⟩

theorem exists_clash_of_file (hbuild : (VirtualDisk.build set).runOn m₀ = (.ok d, m₁))
    (h : directory ∈ directoryNames) {file : FileEntry} (hfile : file ∈ set.files)
    (hsame : Text.sameName (Text.beforeNul file.baseName) directory = true)
    (hescapes : EscapesCheck file.baseName) :
    ∃ item ∈ d.rootFiles, Text.sameName item.name directory = true := by
  obtain ⟨i, hi⟩ := List.mem_iff_getElem?.mp hfile
  obtain ⟨stored, haccept⟩ := exists_accept_of_escapes h hsame hescapes set.boot i
  obtain ⟨name, hname, halike⟩ := exists_mem_rootNames hi haccept
  obtain ⟨item, hitem, n, hn, hlisted, -⟩ := exists_item hbuild hname
  obtain ⟨n', hn', hfree, -⟩ := stored_of_mem_rootNames hname
  obtain rfl : n' = n := Option.some.inj (hn'.symm.trans hn)
  refine ⟨item, hitem, ?_⟩
  rw [hlisted, listed_clashes_iff hn hfree h]
  exact Text.sameName_trans (Text.sameName_beforeNul halike) hsame

/-- A file is shown like a directory just if the last component of some name escapes the check:
it is stored in units, and up to its first NUL it is the name of the directory. -/
theorem shown_like_directory_iff (hbuild : (VirtualDisk.build set).runOn m₀ = (.ok d, m₁))
    (h : directory ∈ directoryNames) :
    (usedClusters set ≤ maxClusters → ∀ storage : Storage σ, d.Lists storage d.rootListing) ∧
      ((∃ item ∈ d.rootFiles, Text.sameName item.name directory = true) ↔
        ∃ file ∈ set.files, Text.sameName (Text.beforeNul file.baseName) directory = true ∧
          EscapesCheck file.baseName) := by
  refine ⟨fun hused storage => lists_rootListing hbuild hused storage, ?_, ?_⟩
  · rintro ⟨item, hitem, hsame⟩
    exact exists_file_of_clash hbuild h hitem hsame
  · rintro ⟨file, hfile, hsame, hescapes⟩
    exact exists_clash_of_file hbuild h hfile hsame hescapes

end Built

/-- A set with a file that is called like a directory, in letters of both cases. -/
def mixedCaseSet : FileSet where
  files :=
    [{ name := "bootmgfw.efi", source := .memory (Bytes.ascii "MZ") },
      { name := "x/Sources", source := .memory (Bytes.ascii "file named sources") }]
  boot := 0
  boot_lt := Nat.zero_lt_succ _

theorem build_mixedCaseSet :
    usedClusters mixedCaseSet ≤ maxClusters ∧ ∃ (d : VirtualDisk) (m : Machine Unit),
      (VirtualDisk.build mixedCaseSet).runOn { world := () } = (.ok d, m) := by
  have hfits : usedClusters mixedCaseSet ≤ maxClusters ∧
      oversized? mixedCaseSet (visibleFiles mixedCaseSet).1 = none := by
    decide +kernel
  obtain ⟨m, hbuild⟩ := build_of_fits (σ := Unit) hfits.2 { world := () }
  exact ⟨hfits.1, _, m, hbuild⟩

/-- The set has a file that looks like `SOURCES`, and none that looks like `BOOT`. -/
theorem mixedCaseSet_shown_like_sources :
    ∃ (d : VirtualDisk) (m : Machine Unit),
      (VirtualDisk.build mixedCaseSet).runOn { world := () } = (.ok d, m) ∧
        (∃ item ∈ d.rootFiles, Text.sameName item.name "SOURCES" = true) ∧
        ¬ ∃ item ∈ d.rootFiles, Text.sameName item.name "BOOT" = true := by
  obtain ⟨-, d, m, hbuild⟩ := build_mixedCaseSet
  have hsourcesMem : "SOURCES" ∈ directoryNames := by decide
  have hbootMem : "BOOT" ∈ directoryNames := by decide
  obtain ⟨-, hsources⟩ := shown_like_directory_iff hbuild hsourcesMem
  obtain ⟨-, hboot⟩ := shown_like_directory_iff hbuild hbootMem
  have hfile : ∃ file ∈ mixedCaseSet.files,
      Text.sameName (Text.beforeNul file.baseName) "SOURCES" = true ∧
        EscapesCheck file.baseName := by
    decide
  have hnone : ¬ ∃ file ∈ mixedCaseSet.files,
      Text.sameName (Text.beforeNul file.baseName) "BOOT" = true ∧
        EscapesCheck file.baseName := by
    decide
  exact ⟨d, m, hbuild, hsources.mpr hfile, mt hboot.mp hnone⟩

/-- Not every disk keeps its files apart from the directories. -/
theorem mixedCaseSet_clashes :
    ∃ (d : VirtualDisk) (m : Machine Unit),
      (VirtualDisk.build mixedCaseSet).runOn { world := () } = (.ok d, m) ∧
        (∀ storage : Storage Unit, d.Lists storage d.rootListing) ∧
        ∃ item ∈ d.rootListing, item.isFile = true ∧
          Text.sameName item.name "SOURCES" = true := by
  obtain ⟨hused, d, m, hbuild⟩ := build_mixedCaseSet
  have hfile : ∃ file ∈ mixedCaseSet.files,
      Text.sameName (Text.beforeNul file.baseName) "SOURCES" = true ∧
        EscapesCheck file.baseName := by
    decide
  obtain ⟨file, hmem, hsame, hescapes⟩ := hfile
  obtain ⟨item, hitem, hclash⟩ := exists_clash_of_file hbuild (by decide) hmem hsame hescapes
  obtain ⟨hlisted, hisFile⟩ := List.mem_filter.mp hitem
  exact ⟨d, m, hbuild, fun storage => lists_rootListing hbuild hused storage, item, hlisted,
    hisFile, hclash⟩

end BootVolume.Image
