import BootVolume.Proofs.Files.BootTarget
import BootVolume.Proofs.Files.Registered

/-!
# How the boot target is resolved

`target?` says what the boot target is after a history of registrations: the
first file with the name of a boot manager, with the content that its name was
given last; and as long as there is none, the first boot manager that came out
of a container.  The catalog agrees with it along every run (`IsHistory`).

The step lemma `Follows.change` has three cases.  A boot manager becomes the
target, or replaces it in place, or changes nothing about it; a file in which a
boot manager was found adds one while there is none; every other file leaves the
target alone, because it has another name.
-/

namespace BootVolume.Files

variable {σ : Type}

/-! ## The target of a history -/

/-- Whether the file has the name of a boot manager. -/
def Registered.isManager (r : Registered) : Bool := decide (roleOf r.name = .bootManager)

/-- The last registration of a name, up to the case of letters. -/
def last? (name : String) (done : List Registered) : Option Registered :=
  done.reverse.find? fun r => Text.sameName r.name name

/-- The boot target after a history of registrations. -/
def target? (done : List Registered) : Option FileEntry :=
  match done.find? Registered.isManager with
  | some first => (last? first.name done).map Registered.entry
  | none =>
      (done.findSome? Registered.taken?).map fun inner => { name := bootName, source := inner }

/-- A boot manager of its own displaces the extracted one, and keeps its place under another
spelling of its name. -/
example :
    target?
      [{ name := "boot.wim", source := .memory [1], search := some (.ok (some (.memory [9]))) },
        { name := "EFI/bootmgfw.efi", source := .memory [2] },
        { name := "bootx64.efi", source := .memory [3] },
        { name := "efi/BOOTMGFW.EFI", source := .memory [4] }] =
      some { name := "efi/BOOTMGFW.EFI", source := .memory [4] } := by
  decide

section History

variable {done : List Registered} {r first : Registered}

theorem last?_concat (name : String) (done : List Registered) (r : Registered) :
    last? name (done ++ [r]) =
      if Text.sameName r.name name = true then some r else last? name done := by
  rw [last?, List.reverse_concat, List.find?_cons]
  cases Text.sameName r.name name <;> rfl

theorem exists_last (h : first ∈ done) :
    ∃ last, last? first.name done = some last ∧ Text.sameName last.name first.name = true := by
  have hsome : (last? first.name done).isSome = true :=
    List.find?_isSome.mpr ⟨first, List.mem_reverse.mpr h, Text.sameName_refl first.name⟩
  obtain ⟨last, hlast⟩ := Option.isSome_iff_exists.mp hsome
  exact ⟨last, hlast, (List.find?_eq_some_iff_append.mp hlast).1⟩

theorem role_of_find (h : done.find? Registered.isManager = some first) :
    roleOf first.name = .bootManager :=
  of_decide_eq_true (List.find?_eq_some_iff_append.mp h).1

theorem target?_of_first (h : done.find? Registered.isManager = some first) :
    target? done = (last? first.name done).map Registered.entry := by
  rw [target?, h]

theorem target?_of_none (h : done.find? Registered.isManager = none) :
    target? done =
      (done.findSome? Registered.taken?).map
        fun inner => { name := bootName, source := inner } := by
  rw [target?, h]

/-- The target has the name of a boot manager and is read as it is. -/
theorem named_of_target? {file : FileEntry} (h : target? done = some file) :
    roleOf file.name = .bootManager ∧ file.patch = none := by
  cases hfirst : done.find? Registered.isManager with
  | some first =>
      obtain ⟨last, hlast, hsame⟩ := exists_last (List.mem_of_find?_eq_some hfirst)
      rw [target?_of_first hfirst, hlast] at h
      cases h
      exact ⟨(roleOf_eq_of_sameName hsame).trans (role_of_find hfirst), rfl⟩
  | none =>
      rw [target?_of_none hfirst] at h
      obtain ⟨inner, -, rfl⟩ := Option.map_eq_some_iff.mp h
      have hrole : roleOf bootName = .bootManager := by decide
      exact ⟨hrole, rfl⟩

theorem find?_concat_other (hrole : roleOf r.name ≠ .bootManager) :
    (done ++ [r]).find? Registered.isManager = done.find? Registered.isManager := by
  have hother : r.isManager = false := decide_eq_false hrole
  rw [List.find?_append, List.find?_singleton, hother]
  exact Option.or_none

/-- A file that is no boot manager and brings none makes no difference. -/
theorem target?_concat_other (hrole : roleOf r.name ≠ .bootManager) (htaken : r.taken? = none) :
    target? (done ++ [r]) = target? done := by
  cases hfirst : done.find? Registered.isManager with
  | some first =>
      have hdiffers : ¬ Text.sameName r.name first.name = true := fun hsame =>
        hrole ((roleOf_eq_of_sameName hsame).trans (role_of_find hfirst))
      rw [target?_of_first ((find?_concat_other hrole).trans hfirst), target?_of_first hfirst,
        last?_concat, if_neg hdiffers]
  | none =>
      rw [target?_of_none ((find?_concat_other hrole).trans hfirst), target?_of_none hfirst,
        List.findSome?_append, List.findSome?_singleton, htaken, Option.or_none]

end History

/-! ## Catalogs with the same target -/

namespace Catalog

open Registered

variable {c c' : Catalog} {file : FileEntry} {r : Registered} {done : List Registered}
  {settings : Settings}

theorem bootTarget?_eq_some_iff :
    c.bootTarget? = some file ↔ ∃ p, c.boot = some p ∧ c.files[p.1]? = some file :=
  Option.bind_eq_some_iff

theorem bootTarget?_eq_none_iff : c.bootTarget? = none ↔ c.boot = none := by
  constructor
  · intro hnone
    cases hboot : c.boot with
    | none => rfl
    | some p =>
        rw [bootTarget?, hboot] at hnone
        exact absurd (c.boot_lt p hboot) (Nat.not_lt.mpr (List.getElem?_eq_none_iff.mp hnone))
  · intro hboot
    rw [bootTarget?, hboot]
    rfl

/-- Closing a catalog asks for its boot target. -/
theorem finish_bootTarget (c : Catalog) :
    c.finish.map FileSet.bootTarget = c.bootTarget?.elim (.error .noBootTarget) .ok := by
  unfold finish
  split
  · rename_i boot origin hboot
    have hlt : boot < c.files.length := c.boot_lt _ hboot
    have htarget : c.bootTarget? = some c.files[boot] := by
      rw [bootTarget?, hboot]
      exact List.getElem?_eq_getElem hlt
    rw [htarget]
    rfl
  · rename_i hboot
    rw [bootTarget?_eq_none_iff.mpr hboot]
    rfl

/-- The catalog has unique names and the boot target of another one. -/
structure SameTarget (c c' : Catalog) : Prop where
  distinct : c'.Distinct
  boot : c'.boot = c.boot
  target : c'.bootTarget? = c.bootTarget?

/-- The boot target is the same where it keeps its place and its file. -/
theorem bootTarget?_eq_of_kept (hboot : c'.boot = c.boot)
    (hfiles : ∀ p ∈ c.boot, c'.files[p.1]? = c.files[p.1]?) : c'.bootTarget? = c.bootTarget? := by
  rw [bootTarget?, bootTarget?, hboot]
  cases h : c.boot with
  | none => rfl
  | some p => exact hfiles p h

theorem sameTarget_put (hdistinct : c.Distinct) (hnamed : BootNamed c)
    (hrole : roleOf file.name ≠ .bootManager) : SameTarget c (c.put file).catalog := by
  refine ⟨distinct_put hdistinct file, put_boot c file,
    bootTarget?_eq_of_kept (put_boot c file) fun p hp => ?_⟩
  obtain ⟨target, htarget, htarget_role, -⟩ := hnamed p hp
  rcases getElem?_put file htarget with ⟨-, hsame⟩ | hkept
  · exact absurd ((roleOf_eq_of_sameName hsame).symm.trans htarget_role) hrole
  · rw [hkept, htarget]

theorem sameTarget_patchAt (hdistinct : c.Distinct) (hnamed : BootNamed c)
    (hrole : roleOf r.name ≠ .bootManager) (patch : Option Patch) :
    SameTarget c ((c.put r.entry).catalog.patchAt (c.put r.entry).index patch) := by
  obtain ⟨hput, hboot, htarget⟩ : SameTarget c (c.put r.entry).catalog :=
    sameTarget_put hdistinct hnamed hrole
  have hpatched : ((c.put r.entry).catalog.patchAt (c.put r.entry).index patch).bootTarget? =
      (c.put r.entry).catalog.bootTarget? :=
    bootTarget?_eq_of_kept rfl fun p hp =>
      (hnamed.put r.entry rfl).getElem?_patchAt (getElem?_put_index c r.entry) hrole patch hp
  exact ⟨distinct_patchAt hput _ _, hboot, hpatched.trans htarget⟩

theorem sameTarget_patched (hdistinct : c.Distinct) (hnamed : BootNamed c)
    (hrole : roleOf r.name ≠ .bootManager) : SameTarget c (r.patched c) := by
  unfold patched
  split
  · exact sameTarget_patchAt hdistinct hnamed hrole _
  · exact sameTarget_put hdistinct hnamed hrole

theorem sameTarget_storePatched (hdistinct : c.Distinct) (hnamed : BootNamed c)
    (hrole : roleOf r.name ≠ .bootManager) :
    SameTarget c ((c.put r.entry).storePatched settings) := by
  unfold Placed.storePatched
  split
  · exact sameTarget_put hdistinct hnamed hrole
  · exact sameTarget_patchAt hdistinct hnamed hrole _

/-! ## What one registration preserves -/

/-- The catalog has the boot target of a history, and it knows whether a boot manager was
registered. -/
structure Follows (done : List Registered) (c : Catalog) : Prop where
  distinct : c.Distinct
  target : c.bootTarget? = target? done
  registered_iff : (∃ index, c.boot = some (index, .registered)) ↔
    (done.find? isManager).isSome = true

namespace Follows

theorem empty : Follows [] Catalog.empty :=
  ⟨distinct_empty, rfl, by simp [Catalog.empty]⟩

theorem bootNamed (h : Follows done c) : BootNamed c := by
  intro p hp
  have hlt := c.boot_lt p hp
  have htarget : c.bootTarget? = some c.files[p.1] :=
    bootTarget?_eq_some_iff.mpr ⟨p, hp, List.getElem?_eq_getElem hlt⟩
  rw [h.target] at htarget
  exact ⟨_, List.getElem?_eq_getElem hlt, named_of_target? htarget⟩

theorem boot_eq_none_iff (h : Follows done c) : c.boot = none ↔ target? done = none := by
  rw [← h.target, bootTarget?_eq_none_iff]

/-- A file that is no boot manager and brings none. -/
theorem other (h : Follows done c) (hrole : roleOf r.name ≠ .bootManager)
    (htaken : r.taken? = none) (hsame : SameTarget c c') : Follows (done ++ [r]) c' where
  distinct := hsame.distinct
  target := by rw [hsame.target, h.target, target?_concat_other hrole htaken]
  registered_iff := by rw [hsame.boot, find?_concat_other hrole, h.registered_iff]

/-- The first boot manager. -/
theorem firstManager (h : Follows done c) (hrole : roleOf r.name = .bootManager)
    (hnone : done.find? isManager = none) : Follows (done ++ [r]) (c.put r.entry).claimed := by
  have hfirst : (done ++ [r]).find? isManager = some r := by
    have hmanager : r.isManager = true := decide_eq_true hrole
    rw [List.find?_append, hnone, List.find?_singleton, hmanager]
    rfl
  have hclaimed : (c.put r.entry).claimed = (c.put r.entry).aimed .registered := by
    unfold Placed.claimed
    split
    · rename_i index hboot
      rw [put_boot] at hboot
      have hsome := h.registered_iff.mp ⟨index, hboot⟩
      rw [hnone] at hsome
      cases hsome
    · rfl
  rw [hclaimed]
  refine ⟨distinct_put h.distinct r.entry, ?_, ?_⟩
  · rw [target?_of_first hfirst, last?_concat, if_pos (Text.sameName_refl r.name)]
    exact getElem?_put_index c r.entry
  · rw [hfirst]
    exact iff_of_true ⟨_, rfl⟩ rfl

/-- A boot manager when one was registered before. -/
theorem laterManager (h : Follows done c) {first : Registered}
    (hfirst : done.find? isManager = some first) :
    Follows (done ++ [r]) (c.put r.entry).claimed := by
  obtain ⟨index, hboot⟩ := h.registered_iff.mpr (by rw [hfirst]; rfl)
  have hput : (c.put r.entry).catalog.boot = some (index, .registered) :=
    (put_boot c r.entry).trans hboot
  have hclaimed : (c.put r.entry).claimed = (c.put r.entry).catalog := by
    unfold Placed.claimed
    rw [hput]
  have hfirst' : (done ++ [r]).find? isManager = some first := by
    rw [List.find?_append, hfirst]
    rfl
  obtain ⟨last, hlast, hsame⟩ := exists_last (List.mem_of_find?_eq_some hfirst)
  have hold : c.files[index]? = some last.entry := by
    have htarget := h.target
    rw [target?_of_first hfirst, hlast, bootTarget?, hboot] at htarget
    exact htarget
  rw [hclaimed]
  refine ⟨distinct_put h.distinct r.entry, ?_, ?_⟩
  · rw [target?_of_first hfirst', last?_concat, bootTarget?, hput]
    by_cases hagain : Text.sameName r.name first.name = true
    · -- The name of the target: the file takes its place.
      rw [if_pos hagain]
      refine getElem?_put_of_sameName h.distinct hold ?_
      exact Text.sameName_trans hsame ((Text.sameName_comm _ _).trans hagain)
    · rw [if_neg hagain, hlast]
      rcases getElem?_put r.entry hold with ⟨-, hlast_same⟩ | hkept
      · refine absurd (Text.sameName_trans ?_ hsame) hagain
        exact (Text.sameName_comm _ _).trans hlast_same
      · exact hkept
  · rw [hput, hfirst']
    exact iff_of_true ⟨_, rfl⟩ rfl

/-- A boot manager that is taken out of a container while there is no target. -/
theorem taken (h : Follows done c) (hrole : roleOf r.name ≠ .bootManager)
    (hboot : c.boot = none) {inner : Source} (htaken : r.taken? = some inner) :
    Follows (done ++ [r])
      (((r.patched c).put { name := bootName, source := inner }).aimed .extracted) := by
  have htarget : target? done = none := h.boot_eq_none_iff.mp hboot
  have hfirst : done.find? isManager = none := by
    by_contra hsome
    obtain ⟨first, hfirst⟩ := Option.ne_none_iff_exists'.mp hsome
    obtain ⟨last, hlast, -⟩ := exists_last (List.mem_of_find?_eq_some hfirst)
    rw [target?_of_first hfirst, hlast] at htarget
    cases htarget
  have hothers : done.findSome? taken? = none := by
    rw [target?_of_none hfirst] at htarget
    exact Option.map_eq_none_iff.mp htarget
  have hsame := sameTarget_patched (r := r) h.distinct h.bootNamed hrole
  have hfirst' : (done ++ [r]).find? isManager = none :=
    (find?_concat_other hrole).trans hfirst
  refine ⟨distinct_put hsame.distinct _, ?_, ?_⟩
  · rw [target?_of_none hfirst', List.findSome?_append, hothers, List.findSome?_singleton, htaken]
    exact getElem?_put_index (r.patched c) _
  · rw [hfirst']
    refine iff_of_false ?_ nofun
    rintro ⟨index, hindex⟩
    cases hindex

/-- What a registration preserves. -/
theorem change (h : Follows done c) (hasked : r.IsAsked settings (c.boot ≠ none)) :
    Follows (done ++ [r]) (r.change settings c) := by
  unfold Registered.change
  cases hrole : roleOf r.name with
  | bootManager =>
      cases hfirst : done.find? isManager with
      | none => exact h.firstManager hrole hfirst
      | some first => exact h.laterManager hfirst
  | bootStore =>
      have hne : roleOf r.name ≠ .bootManager := by rw [hrole]; decide
      exact h.other hne (hasked.taken?_eq_none (by rw [hrole]; decide))
        (sameTarget_storePatched h.distinct h.bootNamed hne)
  | plain =>
      have hne : roleOf r.name ≠ .bootManager := by rw [hrole]; decide
      exact h.other hne (hasked.taken?_eq_none (by rw [hrole]; decide))
        (sameTarget_put h.distinct h.bootNamed hne)
  | container =>
      have hne : roleOf r.name ≠ .bootManager := by rw [hrole]; decide
      cases htaken : r.taken? with
      | none => exact h.other hne htaken (sameTarget_patched h.distinct h.bootNamed hne)
      | some inner => exact h.taken hne (not_not.mp (hasked.of_taken htaken).2) htaken

/-- After a search that failed the file is there with its patch, and no boot target. -/
theorem failed (h : Follows done c) (hasked : r.IsAsked settings (c.boot ≠ none))
    {cause : ReadError} (hfailed : r.search = some (.error cause)) :
    (r.change settings c).get? r.name =
        some { name := r.name, source := r.source, patch := r.patch.join } ∧
      (r.change settings c).boot = none := by
  obtain ⟨hrole, hboot⟩ := hasked.search_iff.mp (by rw [hfailed]; rfl)
  have hne : roleOf r.name ≠ .bootManager := by rw [hrole]; decide
  have htaken : r.taken? = none := by rw [taken?, hfailed]
  have hchange : r.change settings c = r.patched c := by
    rw [Registered.change, hrole, htaken]
  have hsame := sameTarget_patched (r := r) h.distinct h.bootNamed hne
  have hfile : (r.patched c).files[(c.put r.entry).index]? =
      some { name := r.name, source := r.source, patch := r.patch.join } := by
    unfold patched
    cases r.patch with
    | none => exact getElem?_put_index c r.entry
    | some answer =>
        show ((c.put r.entry).catalog.files.modify (c.put r.entry).index _)[_]? = _
        rw [List.getElem?_modify_eq, getElem?_put_index]
        rfl
  have hfound := get?_of_getElem? hsame.distinct hfile
  rw [hchange]
  exact ⟨hfound, hsame.boot.trans (not_not.mp hboot)⟩

end Follows

end Catalog

/-! ## Runs -/

/-- A catalog that is being filled, with what came of each registration. -/
structure Run (σ : Type) where
  outcomes : List (Except Failure Unit) := []
  catalog : Catalog := Catalog.empty
  machine : Machine σ

/-- The run with one more registration, whatever came of those before. -/
def Run.register (container : Container σ) (settings : Settings) (run : Run σ)
    (file : String × Source) : Run σ :=
  let ((outcome, catalog), machine) :=
    (Catalog.register container settings file.1 file.2).runFrom run.catalog run.machine
  { outcomes := run.outcomes ++ [outcome], catalog, machine }

/-- Files registered one after the other in a fresh catalog. -/
def Run.ofFiles (container : Container σ) (settings : Settings) (m : Machine σ)
    (files : List (String × Source)) : Run σ :=
  files.foldl (Run.register container settings) { machine := m }

section Runs

variable (container : Container σ) (settings : Settings) (m : Machine σ)

/-- The catalog after a history. -/
abbrev catalogAfter (done : List Registered) : Catalog :=
  (Run.ofFiles container settings m (done.map Registered.file)).catalog

/-- A history of registrations that were made: their outcomes, the calls to the container
format, and what each of them was asked for and changed. -/
structure IsHistory (done : List Registered) : Prop where
  outcomes : (Run.ofFiles container settings m (done.map Registered.file)).outcomes =
    done.map Registered.outcome
  calls : Calls container (done.flatMap (Registered.calls settings)) m
    (Run.ofFiles container settings m (done.map Registered.file)).machine
  follows : ∀ sofar, sofar <+: done →
    Catalog.Follows sofar (catalogAfter container settings m sofar)
  asked : ∀ before r, before ++ [r] <+: done →
    r.IsAsked settings ((catalogAfter container settings m before).boot ≠ none) ∧
      catalogAfter container settings m (before ++ [r]) =
        r.change settings (catalogAfter container settings m before)

theorem isHistory_nil : IsHistory container settings m [] where
  outcomes := rfl
  calls := .nil (.refl m)
  follows sofar hsofar := by
    rw [List.prefix_nil.mp hsofar]
    exact .empty
  asked before r hprefix := by
    have hlength := hprefix.length_le
    simp at hlength

variable {container settings m} in
theorem IsHistory.concat {done : List Registered} (h : IsHistory container settings m done)
    (name : String) (source : Source) :
    ∃ r, r.file = (name, source) ∧ IsHistory container settings m (done ++ [r]) := by
  set run := Run.ofFiles container settings m (done.map Registered.file) with hrun
  obtain ⟨r, m', hfile, hregister, hcalls, hasked⟩ :=
    Catalog.register_eq container settings run.catalog name source run.machine
  have hnext : Run.ofFiles container settings m ((done ++ [r]).map Registered.file) =
      { outcomes := run.outcomes ++ [r.outcome], catalog := r.change settings run.catalog,
        machine := m' } := by
    rw [Run.ofFiles, List.map_append, List.map_singleton, List.foldl_concat, hfile, ← Run.ofFiles,
      ← hrun, Run.register, hregister]
  have hcatalog : catalogAfter container settings m (done ++ [r]) =
      r.change settings (catalogAfter container settings m done) := by
    rw [catalogAfter, hnext]
  refine ⟨r, hfile, ?_, ?_, ?_, ?_⟩
  · rw [hnext, h.outcomes, List.map_append, List.map_singleton]
  · rw [hnext, List.flatMap_append, List.flatMap_singleton]
    exact h.calls.append hcalls
  · intro sofar hsofar
    rcases List.prefix_concat_iff.mp hsofar with rfl | hsofar
    · rw [hcatalog]
      exact (h.follows done (List.prefix_refl done)).change hasked
    · exact h.follows sofar hsofar
  · intro before s hprefix
    rcases List.prefix_concat_iff.mp hprefix with heq | hprefix
    · obtain ⟨rfl, hlast⟩ := List.append_inj' heq rfl
      cases hlast
      exact ⟨hasked, hcatalog⟩
    · exact h.asked before s hprefix

/-- Every run of registrations has a history. -/
theorem exists_history (files : List (String × Source)) :
    ∃ done, done.map Registered.file = files ∧ IsHistory container settings m done := by
  induction files using List.reverseRecOn with
  | nil => exact ⟨[], rfl, isHistory_nil container settings m⟩
  | append_singleton files file ih =>
      obtain ⟨done, hfiles, hdone⟩ := ih
      obtain ⟨r, hfile, hnext⟩ := hdone.concat file.1 file.2
      exact ⟨done ++ [r], by rw [List.map_append, hfiles, List.map_singleton, hfile], hnext⟩

/-- How the boot target is resolved over a run of registrations in a fresh catalog, some of
which may fail.  After each of them the boot target is that of the history, and closing the
catalog fails for want of one if there is none; it has the name of a boot manager and no patch.
The container format is asked for a boot manager once for each container that is registered
while there is no target, and never otherwise, whoever watches.  A search that fails is
reported under the name of the file, which is registered with its patch, and there still is no
target. -/
theorem boot_target_resolved (files : List (String × Source)) :
    ∃ done : List Registered,
      done.map Registered.file = files ∧
      (Run.ofFiles container settings m files).outcomes = done.map Registered.outcome ∧
      Calls container (done.flatMap (Registered.calls settings)) m
        (Run.ofFiles container settings m files).machine ∧
      (∀ log, Logs container log →
        log (Run.ofFiles container settings m files).machine =
          log m ++ done.flatMap (Registered.calls settings)) ∧
      (∀ sofar, sofar <+: done →
        (catalogAfter container settings m sofar).bootTarget? = target? sofar ∧
        (catalogAfter container settings m sofar).finish.map FileSet.bootTarget =
          (target? sofar).elim (.error .noBootTarget) .ok ∧
        ∀ target ∈ target? sofar, roleOf target.name = .bootManager ∧ target.patch = none) ∧
      ∀ before r, before ++ [r] <+: done →
        r.IsAsked settings (target? before ≠ none) ∧
        ∀ cause, r.search = some (.error cause) →
          r.outcome = .error (.read r.name cause) ∧
          (catalogAfter container settings m (before ++ [r])).get? r.name =
            some { name := r.name, source := r.source, patch := r.patch.join } ∧
          (catalogAfter container settings m (before ++ [r])).boot = none := by
  obtain ⟨done, hfiles, hdone⟩ := exists_history container settings m files
  have hcalls := hdone.calls
  have houtcomes := hdone.outcomes
  rw [hfiles] at hcalls houtcomes
  refine ⟨done, hfiles, houtcomes, hcalls, fun log hlog => hlog.calls hcalls, ?_, ?_⟩
  · intro sofar hsofar
    have hfollows := hdone.follows sofar hsofar
    refine ⟨hfollows.target, ?_, fun target htarget => named_of_target? htarget⟩
    rw [Catalog.finish_bootTarget, hfollows.target]
  · intro before r hprefix
    obtain ⟨hasked, hchange⟩ := hdone.asked before r hprefix
    have hbefore := hdone.follows before ((List.prefix_append before [r]).trans hprefix)
    have hknown : (catalogAfter container settings m before).boot ≠ none ↔ target? before ≠ none :=
      not_congr hbefore.boot_eq_none_iff
    refine ⟨propext hknown ▸ hasked, fun cause hfailed => ?_⟩
    rw [hchange]
    exact ⟨by rw [Registered.outcome, hfailed], hbefore.failed hasked hfailed⟩

end Runs

end BootVolume.Files
