import BootVolume.Proofs.Fat.AliasName
import BootVolume.Proofs.Image.DirectoryClash

/-!
# Short names in the root directory

The directories, and the files without long names, have different short names.  The
short name made for a long one is never that of a directory, but nothing keeps it
apart from those of other files.  Two entries share a short name just if it is made
for one of them and belongs to the other one as well (`short_shared_iff_of_build`).
-/

namespace BootVolume.Image

open Fat Files

variable {σ : Type} {set : FileSet} {d : VirtualDisk} {m₀ m₁ : Machine σ}

/-- The names of all entries behind the label. -/
def entryNames (set : FileSet) : List String := directoryNames ++ rootNames set

theorem tail_rootListing (hbuild : (VirtualDisk.build set).runOn m₀ = (.ok d, m₁)) :
    d.rootListing.tail = directoryItem bootDirectory rootCluster ::
      directoryItem sourcesDirectory rootCluster ::
      directoryItem firmwareDirectory d.arrangement.firmwareCluster :: d.rootFiles := by
  rw [(rootListing_of_build hbuild).1]
  rfl

theorem standsFor_directoryItem {name : String} {short : Bytes}
    (h : storedName? name = some { short, caseFlags := 0, long := none }) (cluster : UInt32) :
    (directoryItem short cluster).StandsFor name :=
  ⟨_, h, rfl, rfl, rfl⟩

theorem forall₂_entryNames (hbuild : (VirtualDisk.build set).runOn m₀ = (.ok d, m₁)) :
    List.Forall₂ (fun name item => Listed.StandsFor item name) (entryNames set)
      d.rootListing.tail := by
  rw [tail_rootListing hbuild]
  exact .cons (standsFor_directoryItem (by decide) _)
    (.cons (standsFor_directoryItem (by decide) _)
      (.cons (standsFor_directoryItem (by decide) _) (rootListing_of_build hbuild).2))

/-- Names in their short form differ, since the check keeps those of files apart from the
directories. -/
theorem entryNames_distinct (set : FileSet) :
    (entryNames set).Pairwise fun a b => (shortForm? a).isSome = true →
      (shortForm? b).isSome = true → Text.sameName a b = false := by
  refine List.pairwise_append.mpr ⟨?_, (rootNames_distinct set).imp fun h _ _ => h, ?_⟩
  · have hdistinct : directoryNames.Pairwise fun a b => Text.sameName a b = false := by
      decide
    exact hdistinct.imp fun h _ _ => h
  · intro directory hdirectory name hname _ hform
    obtain ⟨⟨short, flags⟩, hshort⟩ := Option.isSome_iff_exists.mp hform
    obtain ⟨n, hn, hfree, -⟩ := stored_of_mem_rootNames hname
    rw [← Bool.not_eq_true, Text.sameName_comm]
    intro hsame
    have hreserved := isReserved_of_sameName hshort hdirectory hsame
    obtain ⟨hstored, -⟩ := (storedName?_eq_some hn).resolve_right (by simp [hshort])
    obtain ⟨rfl, -⟩ := Prod.mk.inj (Option.some.inj (hshort.symm.trans hstored))
    rw [hfree] at hreserved
    cases hreserved

theorem getLast?_of_mem_entryNames
    (hdot : ∀ file ∈ set.files, file.baseName.toList.getLast? ≠ some '.') {name : String}
    (h : name ∈ entryNames set) : name.toList.getLast? ≠ some '.' := by
  rcases List.mem_append.mp h with h | h
  · have hall : ∀ directory ∈ directoryNames, directory.toList.getLast? ≠ some '.' := by
      decide
    exact hall name h
  · exact getLast?_of_mem_rootNames hdot h

/-- An entry with a long name has a short name of digits, which is not that of a directory. -/
theorem not_isReserved_of_standsFor {item : Listed} {name : String} (h : item.StandsFor name)
    (hform : shortForm? name = none) : item.isLong = true ∧ isReserved item.short = false := by
  obtain ⟨n, hn, -, hshort, hlong⟩ := h
  obtain ⟨-, -, -, rfl⟩ := (storedName?_eq_some hn).resolve_left (by simp [hform])
  exact ⟨hlong, hshort ▸ isReserved_hashedShort name⟩

theorem isReserved_of_isDirectory (hbuild : (VirtualDisk.build set).runOn m₀ = (.ok d, m₁))
    {item : Listed} (hitem : item ∈ d.rootListing.tail) (hdirectory : item.isDirectory = true) :
    isReserved item.short = true := by
  rw [tail_rootListing hbuild] at hitem
  simp only [List.mem_cons] at hitem
  rcases hitem with rfl | rfl | rfl | hitem
  · rfl
  · rfl
  · rfl
  · have hfile := (List.mem_filter.mp hitem).2
    rw [Listed.isFile, hdirectory, Bool.not_true, Bool.and_false] at hfile
    cases hfile

/-- Two entries share a short name just if it is made for one of them and belongs to the other one
as well.  So one of them has a long name, and neither is a directory. -/
theorem short_shared_iff_of_build (hbuild : (VirtualDisk.build set).runOn m₀ = (.ok d, m₁))
    (hdot : ∀ file ∈ set.files, file.baseName.toList.getLast? ≠ some '.') :
    (usedClusters set ≤ maxClusters → ∀ storage : Storage σ, d.Lists storage d.rootListing) ∧
      d.rootListing.head? = some labelItem ∧
      List.Forall₂ (fun name item => Listed.StandsFor item name) (entryNames set)
        d.rootListing.tail ∧
      ((entryNames set).zip d.rootListing.tail).Pairwise (fun p q =>
        p.2.short = q.2.short ↔ SharesAlias p.1 q.1 ∨ SharesAlias q.1 p.1) ∧
      d.rootListing.tail.Pairwise fun x y => x.short = y.short →
        (x.isLong = true ∨ y.isLong = true) ∧ x.isDirectory = false ∧ y.isDirectory = false := by
  have hitems := forall₂_entryNames hbuild
  have hdistinct := entryNames_distinct set
  rw [← List.map_fst_zip hitems.length_eq.le] at hdistinct
  have hshared : ((entryNames set).zip d.rootListing.tail).Pairwise (fun p q =>
      p.2.short = q.2.short ↔ SharesAlias p.1 q.1 ∨ SharesAlias q.1 p.1) := by
    refine (List.pairwise_map.mp hdistinct).imp_of_mem fun {p q} hp hq hdiffer => ?_
    obtain ⟨m, hm, -, hshort, -⟩ := List.forall₂_zip hitems hp
    obtain ⟨n, hn, -, hshort', -⟩ := List.forall₂_zip hitems hq
    rw [hshort, hshort']
    exact short_shared_iff hm hn (getLast?_of_mem_entryNames hdot (List.of_mem_zip hp).1)
      (getLast?_of_mem_entryNames hdot (List.of_mem_zip hq).1) hdiffer
  refine ⟨fun hused storage => lists_rootListing hbuild hused storage, ?_, hitems, hshared, ?_⟩
  · rw [(rootListing_of_build hbuild).1]
    rfl
  · rw [← List.map_snd_zip hitems.length_eq.ge, List.pairwise_map]
    refine hshared.imp_of_mem fun {p q} hp hq hiff hsame => ?_
    have hp' := List.forall₂_zip hitems hp
    have hq' := List.forall₂_zip hitems hq
    have hdirectory : ∀ item ∈ d.rootListing.tail, isReserved item.short = false →
        item.isDirectory = false := fun item hitem hfree =>
      Bool.eq_false_iff.mpr fun h => by
        rw [isReserved_of_isDirectory hbuild hitem h] at hfree
        cases hfree
    have hpmem := (List.of_mem_zip hp).2
    have hqmem := (List.of_mem_zip hq).2
    rcases hiff.mp hsame with hshares | hshares
    · obtain ⟨hlong, hfree⟩ := not_isReserved_of_standsFor hp' hshares.1
      exact ⟨Or.inl hlong, hdirectory _ hpmem hfree, hdirectory _ hqmem (hsame ▸ hfree)⟩
    · obtain ⟨hlong, hfree⟩ := not_isReserved_of_standsFor hq' hshares.1
      exact ⟨Or.inr hlong, hdirectory _ hpmem (hsame ▸ hfree), hdirectory _ hqmem hfree⟩

/-- A set with a long name, and a file that is called by the short name made for it. -/
def takenAliasSet : FileSet where
  files :=
    [{ name := "bootmgfw.efi", source := .memory (Bytes.ascii "MZ") },
      { name := "Long name.txt", source := .memory (Bytes.ascii "one") },
      { name := "6F6EF204.TXT", source := .memory (Bytes.ascii "two") }]
  boot := 0
  boot_lt := Nat.zero_lt_succ _

theorem build_takenAliasSet :
    usedClusters takenAliasSet ≤ maxClusters ∧ ∃ (d : VirtualDisk) (m : Machine Unit),
      (VirtualDisk.build takenAliasSet).runOn { world := () } = (.ok d, m) := by
  have hfits : usedClusters takenAliasSet ≤ maxClusters ∧
      oversized? takenAliasSet (visibleFiles takenAliasSet).1 = none := by
    decide +kernel
  obtain ⟨m, hbuild⟩ := build_of_fits (σ := Unit) hfits.2 { world := () }
  exact ⟨hfits.1, _, m, hbuild⟩

theorem shorts_takenAliasSet {d : VirtualDisk} {m₀ m₁ : Machine σ}
    (hbuild : (VirtualDisk.build takenAliasSet).runOn m₀ = (.ok d, m₁)) :
    d.rootFiles.map Listed.short = ["BOOTMGFWEFI", "6F6EF204TXT", "6F6EF204TXT",
      "BOOTX64 EFI"].map Bytes.ascii := by
  have hshorts := congrArg (List.map Prod.snd) (map_rootFiles hbuild)
  rw [List.map_map] at hshorts
  exact hshorts.trans (by decide +kernel)

/-- The two files that share a short name, and one that has its own. -/
theorem takenAliasSet_shares_alias :
    ∃ (d : VirtualDisk) (m : Machine Unit) (boot long taken other : Listed),
      (VirtualDisk.build takenAliasSet).runOn { world := () } = (.ok d, m) ∧
        d.rootFiles = [boot, long, taken, other] ∧
        long.StandsFor "Long name.txt" ∧ taken.StandsFor "6F6EF204.TXT" ∧
        long.short = taken.short ∧ boot.short ≠ long.short := by
  obtain ⟨-, d, m, hbuild⟩ := build_takenAliasSet
  obtain ⟨-, -, -, hshared, -⟩ := short_shared_iff_of_build hbuild (by decide)
  obtain ⟨-, hitems⟩ := rootListing_of_build hbuild
  have hnames : rootNames takenAliasSet =
      ["bootmgfw.efi", "Long name.txt", "6F6EF204.TXT", "bootx64.efi"] := by
    decide +kernel
  rw [hnames] at hitems
  simp only [List.forall₂_cons_left_iff, List.forall₂_nil_left_iff] at hitems
  obtain ⟨boot, _, -, ⟨long, _, hlong, ⟨taken, _, htaken, ⟨other, _, -, rfl, rfl⟩, rfl⟩, rfl⟩,
    hfiles⟩ := hitems
  rw [tail_rootListing hbuild, hfiles, entryNames, hnames] at hshared
  simp only [directoryNames, List.cons_append, List.nil_append, List.zip_cons_cons,
    List.pairwise_cons, List.mem_cons, forall_eq_or_imp] at hshared
  obtain ⟨-, -, -, ⟨hboot, -⟩, ⟨hshares, -⟩, -⟩ := hshared
  have hmade : SharesAlias "Long name.txt" "6F6EF204.TXT" := by decide +kernel
  have hown : ¬ (SharesAlias "bootmgfw.efi" "Long name.txt" ∨
      SharesAlias "Long name.txt" "bootmgfw.efi") := by
    decide +kernel
  exact ⟨d, m, boot, long, taken, other, hbuild, hfiles, hlong, htaken,
    hshares.mpr (Or.inl hmade), mt hboot.mp hown⟩

/-- Not all entries of a disk have different short names. -/
theorem takenAliasSet_not_distinct :
    (∀ file ∈ takenAliasSet.files, file.baseName.toList.getLast? ≠ some '.') ∧
    ∃ (d : VirtualDisk) (m : Machine Unit),
      (VirtualDisk.build takenAliasSet).runOn { world := () } = (.ok d, m) ∧
        (∀ storage : Storage Unit, d.Lists storage d.rootListing) ∧
        ¬ (d.rootListing.filter (fun item => !item.isLabel)).Pairwise fun x y =>
          x.short ≠ y.short := by
  obtain ⟨hused, d, m, hbuild⟩ := build_takenAliasSet
  refine ⟨by decide, d, m, hbuild, fun storage => lists_rootListing hbuild hused storage, ?_⟩
  intro hdistinct
  -- The files alone have a short name twice.
  have hfiles : d.rootFiles.Sublist (d.rootListing.filter fun item => !item.isLabel) := by
    refine List.monotone_filter_right _ fun item hfile => ?_
    rw [Listed.isFile, Bool.and_eq_true] at hfile
    exact hfile.1
  have hshorts : (d.rootFiles.map Listed.short).Pairwise fun a b => a ≠ b :=
    List.pairwise_map.mpr (hdistinct.sublist hfiles)
  rw [shorts_takenAliasSet hbuild] at hshorts
  exact absurd hshorts (by decide)

end BootVolume.Image
