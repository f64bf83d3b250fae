import BootVolume.Proofs.Files.InTurn
import BootVolume.Proofs.Files.Resolution

/-!
# The catalog as a store with keys

Whatever was registered, and under whatever spelling of its name, the catalog finds
under each name what was registered under it last (`catalog_keeps_last`): the
spelling, the source, and the patch that the file asks for now.  A boot manager that
is taken out of a container counts as registered right behind it.

The invariant (`Catalog.Keeps`) is about the entries that registrations leave, with
their patches.  It is kept by putting in one entry, and a registration is a matter of
putting in entries (`files_change`).
-/

namespace BootVolume.Files

variable {σ : Type} {name : String} {left others : List FileEntry} {settings : Settings}
  {done : List Registered}

/-! ## Entries in the end -/

/-- The last entry with the given name, up to the case of letters. -/
def lastLeft? (name : String) (left : List FileEntry) : Option FileEntry :=
  left.reverse.find? fun file => Text.sameName file.name name

theorem lastLeft?_concat (name : String) (left : List FileEntry) (file : FileEntry) :
    lastLeft? name (left ++ [file]) =
      if Text.sameName file.name name = true then some file else lastLeft? name left := by
  rw [lastLeft?, List.reverse_concat, List.find?_cons]
  cases Text.sameName file.name name <;> rfl

theorem mem_of_lastLeft? {file : FileEntry} (h : lastLeft? name left = some file) : file ∈ left :=
  List.mem_reverse.mp (List.mem_of_find?_eq_some h)

/-- Boot managers taken out of containers are left under their own name alone. -/
theorem lastLeft?_of_ne (hrole : roleOf name ≠ .bootManager) (settings : Settings)
    (done : List Registered) :
    lastLeft? name (done.flatMap (Registered.left settings)) =
      (last? name done).map (Registered.leftEntry settings) := by
  have hown : Text.sameName bootName name = false := by
    rw [← Bool.not_eq_true]
    intro hsame
    have hboot : roleOf bootName = .bootManager := by decide
    exact hrole ((roleOf_eq_of_sameName hsame).symm.trans hboot)
  induction done using List.reverseRecOn with
  | nil => rfl
  | append_singleton done r ih =>
      have hentry : lastLeft? name (done.flatMap (Registered.left settings) ++
          [r.leftEntry settings]) =
            (last? name (done ++ [r])).map (Registered.leftEntry settings) := by
        rw [lastLeft?_concat, last?_concat, ih, Registered.leftEntry_name]
        split <;> rfl
      rw [List.flatMap_append, List.flatMap_singleton, Registered.left]
      cases r.taken? with
      | none => exact hentry
      | some inner =>
          rw [Option.map_some, Option.toList_some, List.append_cons, lastLeft?_concat, hown,
            if_neg Bool.false_ne_true]
          exact hentry

/-- A boot manager is left without a patch. -/
theorem patch_of_bootManager {file : FileEntry}
    (hfile : file ∈ done.flatMap (Registered.left settings))
    (hrole : roleOf file.name = .bootManager) : file.patch = none := by
  obtain ⟨r, -, hfile⟩ := List.mem_flatMap.mp hfile
  rcases List.mem_cons.mp hfile with rfl | hfile
  · rw [Registered.leftEntry_name] at hrole
    rw [Registered.leftEntry_patch, Registered.leftPatch, hrole]
  · obtain ⟨inner, -, rfl⟩ := Option.map_eq_some_iff.mp (Option.mem_toList.mp hfile)
    rfl

/-! ## What a catalog keeps -/

namespace Catalog

variable {c c' : Catalog} {r : Registered} {known : Prop}

/-- The catalog keeps the last of the entries that were left under each name. -/
structure Keeps (left : List FileEntry) (c : Catalog) : Prop where
  holds : c.Holds (left.map FileEntry.content)
  last : ∀ file ∈ c.files, lastLeft? file.name left = some file

namespace Keeps

theorem empty : Keeps [] Catalog.empty := ⟨.empty, List.forall_mem_nil _⟩

theorem put (h : Keeps left c) (file : FileEntry) :
    Keeps (left ++ [file]) (c.put file).catalog where
  holds := by
    rw [List.map_append]
    exact h.holds.put file
  last := by
    intro f hf
    rw [lastLeft?_concat]
    rcases mem_put h.holds.distinct hf with rfl | ⟨hold, hother⟩
    · rw [if_pos (Text.sameName_refl _)]
    · rw [hother, if_neg Bool.false_ne_true]
      exact h.last f hold

theorem putAll (h : Keeps left c) (others : List FileEntry) :
    Keeps (left ++ others) (c.putAll others) := by
  induction others generalizing c left with
  | nil => rwa [List.append_nil]
  | cons file rest ih =>
      rw [List.append_cons]
      exact ih (h.put file)

theorem of_files_eq (h : Keeps left c) (hfiles : c'.files = c.files) : Keeps left c' :=
  ⟨h.holds.of_files_eq hfiles, hfiles ▸ h.last⟩

/-- What a registration preserves. -/
theorem change (h : Keeps left c) (hasked : r.IsAsked settings known) :
    Keeps (left ++ r.left settings) (r.change settings c) :=
  (h.putAll (r.left settings)).of_files_eq (files_change hasked c)

end Keeps

/-- The catalog is a store with the names as keys, which holds what a history of registrations
put in last. -/
structure KeepsLast (settings : Settings) (done : List Registered) (c : Catalog) : Prop where
  /-- No two files have one name up to the case of letters. -/
  distinct : c.files.Pairwise fun file other => Text.sameName file.name other.name = false
  /-- A file is found under every name that was ever registered, and under no other. -/
  known : ∀ name, (c.get? name).isSome = true ↔
    ∃ file ∈ done.flatMap Registered.puts, Text.sameName file.1 name = true
  /-- It has the spelling and the source of the last registration. -/
  found : ∀ name, (c.get? name).map FileEntry.content =
    lastFile? name (done.flatMap Registered.puts)
  /-- The files stand in the order in which their names came up. -/
  names : c.names = namesInTurn (done.flatMap Registered.puts)
  /-- Boot configuration stores are patched, and containers for which a patch was returned when
  they were registered last, unless they are to be left as they are. -/
  patch_iff : ∀ file ∈ c.files, ∀ patch, file.patch = some patch ↔
    (Text.sameName (baseName file.name) storeName = true ∧ settings.rawStore = false ∧
        patch = .bootStore) ∨
      (isContainerName (baseName file.name) = true ∧ settings.rawContainers = false ∧
        ∃ r, last? file.name done = some r ∧ r.patch = some (some patch))

namespace Keeps

variable (h : Keeps (done.flatMap (Registered.left settings)) c)

include h

theorem holds_puts : c.Holds (done.flatMap Registered.puts) := by
  have hputs : (done.flatMap (Registered.left settings)).map FileEntry.content =
      done.flatMap Registered.puts := by
    simp only [List.map_flatMap, Registered.map_content_left]
  rw [← hputs]
  exact h.holds

theorem found (name : String) :
    (c.get? name).map FileEntry.content = lastFile? name (done.flatMap Registered.puts) := by
  have holds := h.holds_puts
  cases hget : c.get? name with
  | some file =>
      have hsame : Text.sameName file.name name = true :=
        (List.find?_eq_some_iff_append.mp hget).1
      rw [← lastFile?_congr hsame, holds.last file (List.mem_of_find?_eq_some hget)]
      rfl
  | none =>
      refine (Option.eq_none_iff_forall_ne_some.mpr fun file hfile => ?_).symm
      have hsame : Text.sameName file.1 name = true := (List.find?_eq_some_iff_append.mp hfile).1
      -- The name of a file that was put in is one of the catalog.
      have hname : Text.fold file.1 ∈ c.names := by
        rw [holds.names, namesInTurn, List.mem_eraseDups]
        exact List.mem_map_of_mem (mem_of_lastFile? hfile)
      obtain ⟨other, hother, hfold⟩ := List.mem_map.mp hname
      have hdiffers := List.find?_eq_none.mp hget other hother
      exact hdiffers (Text.sameName_trans ((Text.sameName_iff _ _).mpr hfold) hsame)

theorem patch_iff (hasked : ∀ r ∈ done, ∃ known, r.IsAsked settings known) {file : FileEntry}
    (hfile : file ∈ c.files) (patch : Patch) :
    file.patch = some patch ↔
      (roleOf file.name = .bootStore ∧ settings.rawStore = false ∧ patch = .bootStore) ∨
        (roleOf file.name = .container ∧ settings.rawContainers = false ∧
          ∃ r, last? file.name done = some r ∧ r.patch = some (some patch)) := by
  have hlast := h.last file hfile
  by_cases hboot : roleOf file.name = .bootManager
  · rw [patch_of_bootManager (mem_of_lastLeft? hlast) hboot, hboot]
    simp
  · rw [lastLeft?_of_ne hboot, Option.map_eq_some_iff] at hlast
    obtain ⟨r, hr, rfl⟩ := hlast
    rw [Registered.leftEntry_name] at hboot hr ⊢
    rw [Registered.leftEntry_patch, Registered.leftPatch, hr]
    cases hrole : roleOf r.name with
    | bootManager => exact absurd hrole hboot
    | plain => simp
    | bootStore =>
        simp only [true_and, reduceCtorEq, false_and, or_false]
        cases settings.rawStore <;> simp [eq_comm]
    | container =>
        have hmem : r ∈ done := List.mem_reverse.mp (List.mem_of_find?_eq_some hr)
        obtain ⟨_, hr⟩ := hasked r hmem
        simp only [reduceCtorEq, false_and, false_or, true_and, Option.join_eq_some_iff,
          Option.some.injEq, exists_eq_left']
        refine ⟨fun hpatch => ⟨?_, hpatch⟩, fun h => h.2⟩
        exact (hr.patch_iff.mp (by rw [hpatch]; rfl)).2

theorem keepsLast (hasked : ∀ r ∈ done, ∃ known, r.IsAsked settings known) :
    KeepsLast settings done c where
  distinct := by
    refine (List.pairwise_map.mp h.holds.distinct).imp fun hne => ?_
    rw [← Bool.not_eq_true, Text.sameName_iff]
    exact hne
  known := by
    intro name
    rw [← Option.isSome_map (f := FileEntry.content), h.found name, lastFile?, List.find?_isSome]
    simp only [List.mem_reverse]
  found := h.found
  names := h.holds_puts.names
  patch_iff := by
    intro file hfile patch
    rw [← roleOf_eq_bootStore_iff, ← roleOf_eq_container_iff]
    exact h.patch_iff hasked hfile patch

end Keeps

end Catalog

/-! ## Runs -/

section Runs

variable {container : Container σ} {m : Machine σ}

theorem IsHistory.exists_isAsked (h : IsHistory container settings m done) :
    ∀ r ∈ done, ∃ known, r.IsAsked settings known := by
  intro r hr
  obtain ⟨before, after, rfl⟩ := List.append_of_mem hr
  exact ⟨_, (h.asked before r ⟨after, by rw [List.append_assoc]; rfl⟩).1⟩

theorem IsHistory.keeps (h : IsHistory container settings m done) {sofar : List Registered}
    (hsofar : sofar <+: done) :
    (catalogAfter container settings m sofar).Keeps
      (sofar.flatMap (Registered.left settings)) := by
  induction sofar using List.reverseRecOn with
  | nil => exact .empty
  | append_singleton before r ih =>
      obtain ⟨hasked, hchange⟩ := h.asked before r hsofar
      rw [hchange, List.flatMap_append, List.flatMap_singleton]
      exact (ih ((List.prefix_append before [r]).trans hsofar)).change hasked

end Runs

/-- Whatever is registered in a fresh catalog, and whether it succeeds or not, the catalog is a
store that keeps what was put in last.  A container is asked for a patch each time it is
registered, unless containers are to be left as they are. -/
theorem catalog_keeps_last (container : Container σ) (settings : Settings) (m : Machine σ)
    (files : List (String × Source)) :
    ∃ done : List Registered,
      done.map Registered.file = files ∧
      (Run.ofFiles container settings m files).outcomes = done.map Registered.outcome ∧
      Calls container (done.flatMap (Registered.calls settings)) m
        (Run.ofFiles container settings m files).machine ∧
      (∀ r ∈ done, r.patch.isSome = true ↔
        isContainerName (baseName r.name) = true ∧ settings.rawContainers = false) ∧
      (Run.ofFiles container settings m files).catalog.KeepsLast settings done := by
  obtain ⟨done, hfiles, hdone⟩ := exists_history container settings m files
  have hasked := hdone.exists_isAsked
  have houtcomes := hdone.outcomes
  have hcalls := hdone.calls
  have hkeeps := (hdone.keeps (List.prefix_refl done)).keepsLast hasked
  rw [catalogAfter, hfiles] at hkeeps
  rw [hfiles] at houtcomes hcalls
  refine ⟨done, hfiles, houtcomes, hcalls, fun r hr => ?_, hkeeps⟩
  obtain ⟨_, hr⟩ := hasked r hr
  rw [hr.patch_iff, roleOf_eq_container_iff]

/-- A container format with a patch for short containers and a boot manager in all of them. -/
def shortContainers : Container Unit where
  patch source _ := pure (if source.length = 1 then some (.rule 7) else none)
  extract _ _ _ := pure (some (.memory [9]))

/-- A container that is registered again keeps its place, but not its patch. -/
example :
    (Run.ofFiles shortContainers {} { world := () }
      [("boot.wim", .memory [1]), ("boot/BCD", .memory [2]), ("BOOT.WIM", .memory [3, 3]),
        ("install.wim", .memory [4])]).catalog.files =
      [{ name := "BOOT.WIM", source := .memory [3, 3] },
        { name := "bootx64.efi", source := .memory [9] },
        { name := "boot/BCD", source := .memory [2], patch := some .bootStore },
        { name := "install.wim", source := .memory [4], patch := some (.rule 7) }] := by
  decide

end BootVolume.Files
