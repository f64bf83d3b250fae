import BootVolume.Proofs.Fat.Paths
import BootVolume.Proofs.Image.BootPath

/-!
# Directories that lead back to the root

On a built disk `\BOOT`, `\SOURCES` and `\EFI\BOOT` are the root directory once more.  Their
entries stand in front of those of the files, so no file can take their place, and a path may
pass through them as often as it likes: it leads to the same entry as without them, or to none
(`resolve_alias_directories`).
-/

namespace BootVolume.Image

open Fat Files

variable {σ : Type}

/-- The paths that lead from the root back to it. -/
def waysBack : List String := ["BOOT", "SOURCES", "EFI\\BOOT"]

/-- A path behind others. -/
def pathThrough (steps : List String) (path : String) : String :=
  steps.foldr (fun step rest => step ++ "\\" ++ rest) path

theorem components_pathThrough (steps : List String) (path : String) :
    components (pathThrough steps path) = steps.flatMap components ++ components path := by
  induction steps with
  | nil => rfl
  | cons step rest ih =>
      rw [List.flatMap_cons, List.append_assoc, ← ih]
      exact components_append ..

/-- Of the label and the directories in the root, `\BOOT` and `\SOURCES` answer to their names. -/
theorem find?_wayBack (cluster : UInt32) (rest : List Listed) :
    let root := labelItem :: directoryItem bootDirectory rootCluster ::
      directoryItem sourcesDirectory rootCluster :: directoryItem firmwareDirectory cluster :: rest
    root.find? (Mounted.answers "BOOT") = some (directoryItem bootDirectory rootCluster) ∧
      root.find? (Mounted.answers "SOURCES") =
        some (directoryItem sourcesDirectory rootCluster) := by
  have hlabel : Mounted.answers "BOOT" labelItem = false := by decide
  have hlabel' : Mounted.answers "SOURCES" labelItem = false := by decide
  have hboot : Text.sameName (shownShort bootDirectory 0) "BOOT" = true := by decide
  have hboot' : Text.sameName (shownShort bootDirectory 0) "SOURCES" = false := by decide
  have hsources : Text.sameName (shownShort sourcesDirectory 0) "SOURCES" = true := by decide
  simp only [List.find?_cons, answers_directoryItem, hlabel, hlabel', hboot, hboot', hsources,
    and_self]

namespace Built

variable {set : FileSet} {d : VirtualDisk} {b : ParameterBlock}

/-- One step back to the root, whatever path follows. -/
theorem resolveFrom_wayBack (built : Built set d) (describes : b.Describes d.geometry)
    (storage : Storage σ) {step : String} (hstep : step ∈ waysBack) {path : List String}
    (hpath : path ≠ []) :
    (d.volume storage b).resolveFrom b.rootCluster (components step ++ path) =
      (d.volume storage b).resolveFrom b.rootCluster path := by
  obtain ⟨next, rest, rfl⟩ := List.exists_cons_of_ne_nil hpath
  have hroot := built.directory_root describes storage
  have hback : ∀ short, (d.volume storage b).directoryCluster (directoryItem short rootCluster) =
      b.rootCluster := fun _ => describes.rootCluster.symm
  have hnames : components "BOOT" = ["BOOT"] ∧ components "SOURCES" = ["SOURCES"] ∧
      components "EFI\\BOOT" = ["EFI", "BOOT"] := by decide
  simp only [waysBack, List.mem_cons, List.not_mem_nil, or_false] at hstep
  rcases hstep with rfl | rfl | rfl
  · rw [hnames.1, List.singleton_append,
      Mounted.resolveFrom_next hroot (find?_wayBack ..).1, hback]
  · rw [hnames.2.1, List.singleton_append,
      Mounted.resolveFrom_next hroot (find?_wayBack ..).2, hback]
  · rw [hnames.2.2]
    exact built.resolveFrom_firmwareBoot describes storage next rest

/-- The induction is on the steps: each of them ends where it began, at the root. -/
theorem resolveFrom_waysBack (built : Built set d) (describes : b.Describes d.geometry)
    (storage : Storage σ) {steps : List String}
    (hsteps : ∀ step ∈ steps, ∃ back ∈ waysBack, Text.sameName step back = true)
    {path : List String} (hpath : path ≠ []) :
    (d.volume storage b).resolveFrom b.rootCluster (steps.flatMap components ++ path) =
      (d.volume storage b).resolveFrom b.rootCluster path := by
  induction steps with
  | nil => rfl
  | cons step rest ih =>
      obtain ⟨back, hback, hsame⟩ := hsteps step (List.mem_cons_self ..)
      have hrest := ih fun later hlater => hsteps later (List.mem_cons_of_mem _ hlater)
      have hne : rest.flatMap components ++ path ≠ [] := List.append_ne_nil_of_right_ne_nil _ hpath
      have halike : AlikePaths (components step ++ (rest.flatMap components ++ path))
          (components back ++ (rest.flatMap components ++ path)) :=
        List.rel_append (alikePaths_components hsame)
          (List.forall₂_same.mpr fun name _ => Text.sameName_refl name)
      rw [List.flatMap_cons, List.append_assoc, Mounted.resolveFrom_congr halike,
        built.resolveFrom_wayBack describes storage hback hne, hrest]

end Built

/-- Directories that lead back to the root change nothing about where a path leads: through any
number of them, written in letters of either case, a path leads to the entry that it leads to
without them, and to none if it leads to none. -/
theorem resolve_alias_directories {set : FileSet} {d : VirtualDisk} {m₀ m₁ : Machine σ}
    (hbuild : (VirtualDisk.build set).runOn m₀ = (.ok d, m₁))
    (hused : usedClusters set ≤ maxClusters) (storage : Storage σ) :
    ∃ b : ParameterBlock,
      (BlockDevice.partition d).mount? storage = pure (some (d.volume storage b)) ∧
      ∀ (steps : List String) (path : String),
        (∀ step ∈ steps, ∃ back ∈ waysBack, Text.sameName step back = true) →
        components path ≠ [] →
        (d.volume storage b).resolve (components (pathThrough steps path)) =
          (d.volume storage b).resolve (components path) := by
  have built := built_of_build hbuild hused
  obtain ⟨b, describes, hmount⟩ := built.mount?_eq storage
  refine ⟨b, hmount, fun steps path hsteps hpath => ?_⟩
  rw [components_pathThrough]
  exact built.resolveFrom_waysBack describes storage hsteps hpath

theorem twoManagers_alias_directories :
    ∃ (d : VirtualDisk) (m₁ : Machine Unit) (b : ParameterBlock),
      (VirtualDisk.build twoManagers).runOn { world := () } = (.ok d, m₁) ∧
        usedClusters twoManagers ≤ maxClusters ∧
        (d.volume .absent b).resolve (components "Sources\\efi\\Boot\\boot\\BOOTX64.EFI") =
          (d.volume .absent b).resolve (components "BOOTX64.EFI") := by
  have hused : usedClusters twoManagers ≤ maxClusters := by decide
  have hoversized : oversized? twoManagers (visibleFiles twoManagers).1 = none := by
    decide
  obtain ⟨m₁, hbuild⟩ := build_of_fits (σ := Unit) hoversized { world := () }
  obtain ⟨b, -, hresolve⟩ := resolve_alias_directories hbuild hused .absent
  exact ⟨_, m₁, b, hbuild, hused,
    hresolve ["Sources", "efi\\Boot", "boot"] "BOOTX64.EFI" (by decide) (by decide)⟩

end BootVolume.Image
