import BootVolume.Proofs.Image.RootNames

/-!
# Files that look alike

Of several files with one name a disk shows one, but names that are shown are not
always those that were compared.  A name in its short form is shown without a dot
at its end, and so `README.` looks like `README`.  There is no other way in which
entries may look alike (`shown_alike_iff`).
-/

namespace BootVolume.Image

open Fat Files

variable {σ : Type} {set : FileSet} {d : VirtualDisk} {m₀ m₁ : Machine σ}

/-- The pairs of a name and the entry that stands for it, with the names that they come from. -/
theorem pairwise_zip_rootFiles (hbuild : (VirtualDisk.build set).runOn m₀ = (.ok d, m₁)) :
    ((rootNames set).zip d.rootFiles).Pairwise fun p q => Text.sameName p.1 q.1 = false := by
  obtain ⟨-, hitems⟩ := rootListing_of_build hbuild
  have hnames := rootNames_distinct set
  rw [← List.map_fst_zip hitems.length_eq.le] at hnames
  exact List.pairwise_map.mp hnames

theorem listed_alike_iff_of_build (hbuild : (VirtualDisk.build set).runOn m₀ = (.ok d, m₁))
    (hnul : ∀ file ∈ set.files, '\x00' ∉ file.name.toList) :
    ((rootNames set).zip d.rootFiles).Pairwise fun p q =>
      Text.sameName p.2.name q.2.name = true ↔ LosesDot p.1 q.1 ∨ LosesDot q.1 p.1 := by
  obtain ⟨-, hitems⟩ := rootListing_of_build hbuild
  refine (pairwise_zip_rootFiles hbuild).imp_of_mem fun {p q} hp hq hdiffer => ?_
  obtain ⟨m, hm, hlisted, -⟩ := List.forall₂_zip hitems hp
  obtain ⟨n, hn, hlisted', -⟩ := List.forall₂_zip hitems hq
  rw [hlisted, hlisted']
  exact listed_alike_iff hm hn (nul_not_mem_of_mem_rootNames hnul (List.of_mem_zip hp).1)
    (nul_not_mem_of_mem_rootNames hnul (List.of_mem_zip hq).1) hdiffer

/-- Two entries of files look alike just if the name of one is that of the other with a dot at its
end, and is stored in its short form. -/
theorem shown_alike_iff (hbuild : (VirtualDisk.build set).runOn m₀ = (.ok d, m₁))
    (hnul : ∀ file ∈ set.files, '\x00' ∉ file.name.toList) :
    (usedClusters set ≤ maxClusters → ∀ storage : Storage σ, d.Lists storage d.rootListing) ∧
      List.Forall₂ (fun name item => Listed.StandsFor item name) (rootNames set) d.rootFiles ∧
      ((rootNames set).zip d.rootFiles).Pairwise (fun p q =>
        Text.sameName p.2.name q.2.name = true ↔ LosesDot p.1 q.1 ∨ LosesDot q.1 p.1) ∧
      ((∀ file ∈ set.files, file.baseName.toList.getLast? ≠ some '.') →
        d.rootFiles.Pairwise fun x y => Text.sameName x.name y.name = false) := by
  obtain ⟨-, hitems⟩ := rootListing_of_build hbuild
  have halike := listed_alike_iff_of_build hbuild hnul
  refine ⟨fun hused storage => lists_rootListing hbuild hused storage, hitems, halike, ?_⟩
  intro hdot
  rw [← List.map_snd_zip hitems.length_eq.ge, List.pairwise_map]
  refine halike.imp_of_mem fun {p q} hp hq hiff => ?_
  rw [← Bool.not_eq_true, hiff]
  rintro (hloses | hloses)
  · exact not_losesDot (getLast?_of_mem_rootNames hdot (List.of_mem_zip hp).1) hloses
  · exact not_losesDot (getLast?_of_mem_rootNames hdot (List.of_mem_zip hq).1) hloses

/-- A set with a name that stands beside itself with a dot at the end. -/
def dottedSet : FileSet where
  files :=
    [{ name := "bootmgfw.efi", source := .memory (Bytes.ascii "MZ") },
      { name := "README", source := .memory (Bytes.ascii "one") },
      { name := "README.", source := .memory (Bytes.ascii "two") }]
  boot := 0
  boot_lt := Nat.zero_lt_succ _

theorem build_dottedSet :
    usedClusters dottedSet ≤ maxClusters ∧ ∃ (d : VirtualDisk) (m : Machine Unit),
      (VirtualDisk.build dottedSet).runOn { world := () } = (.ok d, m) := by
  have hfits : usedClusters dottedSet ≤ maxClusters ∧
      oversized? dottedSet (visibleFiles dottedSet).1 = none := by
    decide
  obtain ⟨m, hbuild⟩ := build_of_fits (σ := Unit) hfits.2 { world := () }
  exact ⟨hfits.1, _, m, hbuild⟩

theorem names_dottedSet {d : VirtualDisk} {m₀ m₁ : Machine σ}
    (hbuild : (VirtualDisk.build dottedSet).runOn m₀ = (.ok d, m₁)) :
    d.rootFiles.map Listed.name = ["bootmgfw.efi", "README", "README", "bootx64.efi"] := by
  have hnames := congrArg (List.map Prod.fst) (map_rootFiles hbuild)
  rw [List.map_map] at hnames
  exact hnames.trans (by decide)

/-- The two files of the set that look alike, and one that looks like neither. -/
theorem dottedSet_readme_shown_alike :
    ∃ (d : VirtualDisk) (m : Machine Unit) (boot readme dotted other : Listed),
      (VirtualDisk.build dottedSet).runOn { world := () } = (.ok d, m) ∧
        d.rootFiles = [boot, readme, dotted, other] ∧
        readme.StandsFor "README" ∧ dotted.StandsFor "README." ∧
        Text.sameName readme.name dotted.name = true ∧
        Text.sameName boot.name readme.name = false := by
  obtain ⟨-, d, m, hbuild⟩ := build_dottedSet
  obtain ⟨-, hitems, halike, -⟩ := shown_alike_iff hbuild (by decide)
  have hnames : rootNames dottedSet = ["bootmgfw.efi", "README", "README.", "bootx64.efi"] := by
    decide
  rw [hnames] at hitems halike
  simp only [List.forall₂_cons_left_iff, List.forall₂_nil_left_iff] at hitems
  obtain ⟨boot, _, -, ⟨readme, _, hreadme, ⟨dotted, _, hdotted, ⟨other, _, -, rfl, rfl⟩, rfl⟩, rfl⟩,
    hfiles⟩ := hitems
  rw [hfiles] at halike
  simp only [List.zip_cons_cons, List.pairwise_cons, List.mem_cons, forall_eq_or_imp] at halike
  obtain ⟨⟨hboot, -⟩, ⟨hdot, -⟩, -⟩ := halike
  have hloses : LosesDot "README." "README" := by decide
  have hkeeps : ¬ (LosesDot "bootmgfw.efi" "README" ∨ LosesDot "README" "bootmgfw.efi") := by
    decide
  exact ⟨d, m, boot, readme, dotted, other, hbuild, hfiles, hreadme, hdotted,
    hdot.mpr (Or.inr hloses), Bool.eq_false_iff.mpr (mt hboot.mp hkeeps)⟩

/-- Not all entries of a disk look different. -/
theorem dottedSet_not_distinct :
    (∀ file ∈ dottedSet.files, '\x00' ∉ file.name.toList) ∧
    ∃ (d : VirtualDisk) (m : Machine Unit),
      (VirtualDisk.build dottedSet).runOn { world := () } = (.ok d, m) ∧
        (∀ storage : Storage Unit, d.Lists storage d.rootListing) ∧
        ¬ (d.rootListing.filter Listed.isFile).Pairwise fun x y =>
          Text.sameName x.name y.name = false := by
  obtain ⟨hused, d, m, hbuild⟩ := build_dottedSet
  refine ⟨by decide, d, m, hbuild, fun storage => lists_rootListing hbuild hused storage, ?_⟩
  intro hdistinct
  have hnames : (d.rootFiles.map Listed.name).Pairwise fun a b => Text.sameName a b = false :=
    List.pairwise_map.mpr hdistinct
  rw [names_dottedSet hbuild] at hnames
  exact absurd hnames (by decide)

end BootVolume.Image
