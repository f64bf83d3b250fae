import BootVolume.Proofs.Files.Catalog
import BootVolume.Proofs.Files.Gathering
import BootVolume.Proofs.Text.CaseFold

/-!
# The boot target keeps its name

The catalog settles on a boot target when a file with the name of a boot manager
is put into it.  A later file can only take this place if it has the same name up
to the case of letters, and such a file is a boot manager as well; the patches
go to files of other roles.  So the boot target is an unpatched boot manager
along every run of registrations (`Reachable.bootNamed`), also when some of
them fail.
-/

namespace BootVolume.Files

/-! ## Roles -/

theorem isSeparator_toLower (c : Char) : isSeparator c.toLower = isSeparator c :=
  Text.apply_toLower (by decide) c

/-- The last component up to the case of letters. -/
theorem fold_baseName (path : String) :
    Text.fold (baseName path) = ((Text.fold path).reverse.takeWhile (!isSeparator ·)).reverse := by
  have hkept : (fun c => !isSeparator c) ∘ Char.toLower = fun c => !isSeparator c :=
    funext fun c => congrArg (!·) (isSeparator_toLower c)
  unfold Text.fold baseName
  rw [String.toList_ofList, ← List.map_reverse, List.takeWhile_map, hkept, List.map_reverse]

theorem roleOf_eq_of_sameName {name other : String} (h : Text.sameName name other = true) :
    roleOf name = roleOf other := by
  have hbase : Text.fold (baseName name) = Text.fold (baseName other) := by
    rw [fold_baseName, fold_baseName, (Text.sameName_iff _ _).mp h]
  unfold roleOf isContainerName Text.sameName
  simp only [hbase]

namespace Catalog

open Files.Gathering

variable {σ : Type} {c : Catalog} {file : FileEntry}

/-- The boot target has the name of a boot manager and is read as it is. -/
def BootNamed (c : Catalog) : Prop :=
  ∀ p ∈ c.boot, ∃ file, c.files[p.1]? = some file ∧ roleOf file.name = .bootManager ∧
    file.patch = none

namespace BootNamed

theorem empty : BootNamed Catalog.empty := by
  intro p hp
  cases hp

theorem put (h : BootNamed c) (file : FileEntry) (hpatch : file.patch = none) :
    BootNamed (c.put file).catalog := by
  intro p hp
  rw [put_boot] at hp
  obtain ⟨old, hold, hrole, hold_patch⟩ := h p hp
  rcases getElem?_put file hold with ⟨hindex, hsame⟩ | hkept
  · refine ⟨file, ?_, ?_, hpatch⟩
    · rw [hindex]
      exact getElem?_put_index c file
    · rw [← roleOf_eq_of_sameName hsame]
      exact hrole
  · exact ⟨old, hkept, hrole, hold_patch⟩

/-- A boot manager that was just put in may become the boot target. -/
theorem aimed {name : String} (hrole : roleOf name = .bootManager) (source : Source)
    (origin : BootOrigin) : BootNamed ((c.put { name, source }).aimed origin) := by
  intro p hp
  cases hp
  exact ⟨{ name, source }, getElem?_put_index c _, hrole, rfl⟩

theorem claimed (h : BootNamed c) {name : String} (hrole : roleOf name = .bootManager)
    (source : Source) : BootNamed (c.put { name, source }).claimed := by
  unfold Placed.claimed
  rcases hboot : (c.put { name, source }).catalog.boot with _ | ⟨index, _ | _⟩
  · exact aimed hrole source _
  · exact h.put _ rfl
  · exact aimed hrole source _

/-- A file of another role may be patched, which leaves the boot target as it is. -/
theorem getElem?_patchAt {index : Nat} (h : BootNamed c) (hfile : c.files[index]? = some file)
    (hrole : roleOf file.name ≠ .bootManager) (patch : Option Patch) {p : Nat × BootOrigin}
    (hp : p ∈ c.boot) : (c.patchAt index patch).files[p.1]? = c.files[p.1]? := by
  obtain ⟨boot, hboot, hboot_role, -⟩ := h p hp
  have hne : index ≠ p.1 := by
    rintro rfl
    rw [hfile, Option.some.injEq] at hboot
    exact hrole (hboot ▸ hboot_role)
  exact List.getElem?_modify_ne _ _ hne

theorem patchAt {index : Nat} (h : BootNamed c) (hfile : c.files[index]? = some file)
    (hrole : roleOf file.name ≠ .bootManager) (patch : Option Patch) :
    BootNamed (c.patchAt index patch) := by
  intro p hp
  obtain ⟨boot, hboot, hboot_role, hpatch⟩ := h p hp
  exact ⟨boot, (h.getElem?_patchAt hfile hrole patch hp).trans hboot, hboot_role, hpatch⟩

/-- What the catalog was closed into has a boot manager for its boot target. -/
theorem of_finish (h : BootNamed c) {set : FileSet} (hfinish : c.finish = .ok set) :
    roleOf set.bootTarget.name = .bootManager ∧ set.bootTarget.patch = none := by
  unfold finish at hfinish
  split at hfinish
  · rename_i boot origin hboot
    obtain ⟨file, hfile, hrole, hpatch⟩ := h _ hboot
    cases hfinish
    have htarget : file = FileSet.bootTarget ⟨c.files, boot, c.boot_lt _ hboot⟩ := by
      rw [List.getElem?_eq_some_iff] at hfile
      exact hfile.2.symm
    rw [← htarget]
    exact ⟨hrole, hpatch⟩
  · cases hfinish

/-! ## Registrations -/

variable {settings : Settings} {name : String} {source : Source} {m : Machine σ}

theorem storePatched (h : BootNamed c) (hrole : roleOf name = .bootStore) :
    BootNamed ((c.put { name, source }).storePatched settings) := by
  have hput := h.put ⟨name, source, none⟩ rfl
  unfold Placed.storePatched
  split
  · exact hput
  · refine hput.patchAt (getElem?_put_index c _) ?_ _
    rw [hrole]
    decide

theorem containerPatched (h : BootNamed c) (hrole : roleOf name = .container)
    (container : Container σ) {patched : Catalog} {m' : Machine σ}
    (hpatched : (c.put { name, source }).containerPatched container settings source m =
      (patched, m')) : BootNamed patched := by
  have hput := h.put ⟨name, source, none⟩ rfl
  unfold Placed.containerPatched at hpatched
  split at hpatched
  · cases hpatched
    exact hput
  · cases hpatched
    refine hput.patchAt (getElem?_put_index c _) ?_ _
    rw [hrole]
    decide

theorem extractBoot (h : BootNamed c) (container : Container σ) (settings : Settings)
    (name : String) (source : Source) (m : Machine σ) :
    BootNamed ((extractBoot container settings name source).runFrom c m).1.2 := by
  rcases hextract : (container.extract source settings.index containerBootPath).runOn m with
    ⟨cause | _ | inner, m'⟩
  · rw [extractBoot_of_error hextract]
    exact h
  · rw [extractBoot_of_none hextract]
    exact h
  · obtain ⟨m'', hrun, -⟩ := extractBoot_of_some name c hextract
    rw [hrun]
    have hrole : roleOf bootName = .bootManager := by decide
    exact aimed hrole inner _

theorem register (h : BootNamed c) (container : Container σ) (settings : Settings)
    (name : String) (source : Source) (m : Machine σ) :
    BootNamed ((register container settings name source).runFrom c m).1.2 := by
  cases hrole : roleOf name with
  | bootManager =>
      obtain ⟨m', hrun, -⟩ := register_bootManager c m source container settings hrole
      rw [hrun]
      exact h.claimed hrole source
  | bootStore =>
      obtain ⟨m', hrun, -⟩ := register_bootStore c m source container settings hrole
      rw [hrun]
      exact h.storePatched hrole
  | container =>
      obtain ⟨m', -, hrun⟩ := register_container c m source container settings hrole
      rcases hpatched : (c.put { name, source }).containerPatched container settings source m'
        with ⟨patched, m''⟩
      rw [hrun hpatched]
      split
      · exact (h.containerPatched hrole container hpatched).extractBoot container settings _ _ _
      · exact h.containerPatched hrole container hpatched
  | plain =>
      obtain ⟨m', hrun, -⟩ := register_plain c m source container settings hrole
      rw [hrun]
      exact h.put _ rfl

/-- A run of registrations stops at the first that fails. -/
theorem registerRecords (h : BootNamed c) (container : Container σ) (settings : Settings)
    (records : List (Except Newc.ArchiveError Newc.Record)) (m : Machine σ) :
    BootNamed ((registerRecords container settings records).runFrom c m).1.2 := by
  induction records generalizing c m with
  | nil => exact h
  | cons record rest ih =>
      cases record with
      | error cause => exact h
      | ok record =>
          cases hfile : isRegistered record with
          | false =>
              rw [registerRecords_other container settings hfile]
              exact ih h m
          | true =>
              have hnext := h.register container settings (nameOfRecord record)
                (.memory record.data) m
              rw [registerRecords_file container settings hfile, runFrom_bind]
              rcases hrun : (Catalog.register container settings (nameOfRecord record)
                (.memory record.data)).runFrom c m with ⟨⟨cause | value, c'⟩, m'⟩
              · rw [hrun] at hnext
                exact hnext
              · rw [hrun] at hnext
                exact ih hnext m'

end BootNamed

/-- The catalogs that registrations of files and of archives lead to, whether they fail or
not, in whatever machine and with whatever containers each is made. -/
inductive Reachable : Catalog → Prop
  | empty : Reachable Catalog.empty
  | register {σ : Type} {c : Catalog} (h : Reachable c) (container : Container σ)
      (settings : Settings) (name : String) (source : Source) (m : Machine σ) :
      Reachable ((register container settings name source).runFrom c m).1.2
  | unpack {σ : Type} {c : Catalog} (h : Reachable c) (container : Container σ)
      (settings : Settings) (data : Bytes) (m : Machine σ) :
      Reachable ((unpack container settings data).runFrom c m).1.2

theorem Reachable.bootNamed (h : Reachable c) : BootNamed c := by
  induction h with
  | empty => exact BootNamed.empty
  | register h container settings name source m ih =>
      exact ih.register container settings name source m
  | unpack h container settings data m ih => exact ih.registerRecords container settings _ m

end Catalog

end BootVolume.Files
