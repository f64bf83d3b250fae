import BootVolume.Proofs.Files.BootTarget
import BootVolume.Proofs.Files.Registered

/-!
# What a registration leaves in a catalog

A registration puts a file into the catalog and then sets its patch, and a boot
manager taken out of a container is put in behind it.  As far as the files go, this
is the same as putting in the entries that are left in the end, each with its patch
(`files_change`).
-/

namespace BootVolume.Files

variable {name : String} {settings : Settings}

/-! ## Roles -/

theorem roleOf_eq_bootStore_iff :
    roleOf name = .bootStore ↔ Text.sameName (baseName name) storeName = true := by
  constructor
  · intro h
    unfold roleOf at h
    simp only at h
    split at h
    · cases h
    · split at h
      · rename_i hstore
        exact hstore
      · split at h <;> cases h
  · intro h
    have hother : ∀ other ∈ [bootName, genericBootName],
        Text.sameName (baseName name) other = false := by
      have hstore : ∀ other ∈ [bootName, genericBootName],
          Text.sameName storeName other = false := by
        decide
      intro other hmem
      rw [← hstore other hmem, Text.sameName, Text.sameName, (Text.sameName_iff _ _).mp h]
    simp only [List.forall_mem_cons] at hother
    simp [roleOf, hother, h]

theorem roleOf_eq_container_iff :
    roleOf name = .container ↔ isContainerName (baseName name) = true := by
  constructor
  · intro h
    unfold roleOf at h
    simp only at h
    split at h
    · cases h
    · split at h
      · cases h
      · split at h
        · rename_i hcontainer
          exact hcontainer
        · cases h
  · intro h
    have hother : ∀ other ∈ [bootName, genericBootName, storeName],
        Text.sameName (baseName name) other = false := by
      have hplain : ∀ other ∈ [bootName, genericBootName, storeName],
          isContainerName other = false := by
        decide
      intro other hmem
      rw [← Bool.not_eq_true, Text.sameName_iff]
      intro hfold
      have hsame : isContainerName (baseName name) = isContainerName other := by
        rw [isContainerName, hfold, ← isContainerName]
      rw [h, hplain other hmem] at hsame
      cases hsame
    simp only [List.forall_mem_cons] at hother
    simp [roleOf, hother, h]

/-! ## Entries that are left -/

/-- The name and the source of a file. -/
def FileEntry.content (file : FileEntry) : String × Source := (file.name, file.source)

namespace Registered

/-- The patch of the file in the end. -/
def leftPatch (settings : Settings) (r : Registered) : Option Patch :=
  match roleOf r.name with
  | .bootStore => if settings.rawStore then none else some .bootStore
  | .container => r.patch.join
  | _ => none

/-- The entry of the file in the end. -/
def leftEntry (settings : Settings) (r : Registered) : FileEntry :=
  { r.entry with patch := r.leftPatch settings }

@[simp] theorem leftEntry_name (settings : Settings) (r : Registered) :
    (r.leftEntry settings).name = r.name := rfl

@[simp] theorem leftEntry_patch (settings : Settings) (r : Registered) :
    (r.leftEntry settings).patch = r.leftPatch settings := by
  rw [leftEntry]

/-- The entries that are left: that of the file, and the boot manager taken out of it. -/
def left (settings : Settings) (r : Registered) : List FileEntry :=
  r.leftEntry settings ::
    (r.taken?.map fun inner => ({ name := bootName, source := inner } : FileEntry)).toList

/-- The files that a registration puts into the catalog. -/
def puts (r : Registered) : List (String × Source) :=
  r.file :: (r.taken?.map fun inner => (bootName, inner)).toList

theorem map_content_left (settings : Settings) (r : Registered) :
    (r.left settings).map FileEntry.content = r.puts := by
  unfold left puts
  cases r.taken? <;> rfl

end Registered

namespace Catalog

open Registered

variable {c c' : Catalog} {r : Registered} {file : FileEntry} {known : Prop}

/-- The catalog with files put in one after the other. -/
def putAll (c : Catalog) (files : List FileEntry) : Catalog :=
  files.foldl (fun c file => (c.put file).catalog) c

theorem files_put_congr (h : c.files = c'.files) (file : FileEntry) :
    (c.put file).catalog.files = (c'.put file).catalog.files := by
  have hposition : c.position? file.name = c'.position? file.name := by
    rw [position?, h, ← position?]
  cases hfound : c'.position? file.name with
  | none =>
      rw [(put_of_new hfound).1, (put_of_new (hposition.trans hfound)).1]
      exact congrArg (· ++ [file]) h
  | some index =>
      rw [(put_of_known hfound).1, (put_of_known (hposition.trans hfound)).1]
      exact congrArg (List.set · index file) h

/-- A file that is put in and then patched might as well be put in with its patch. -/
theorem files_put_patchAt (c : Catalog) (file : FileEntry) (patch : Option Patch) :
    ((c.put file).catalog.patchAt (c.put file).index patch).files =
      (c.put { file with patch }).catalog.files := by
  have hmodify : ((c.put file).catalog.patchAt (c.put file).index patch).files =
      (c.put file).catalog.files.set (c.put file).index { file with patch } := by
    show (c.put file).catalog.files.modify (c.put file).index _ = _
    rw [List.modify_eq_set_getElem?, getElem?_put_index]
    rfl
  rw [hmodify]
  cases hfound : c.position? file.name with
  | none =>
      have hpatched : c.position? ({ file with patch } : FileEntry).name = none := hfound
      rw [(put_of_new hfound).1, (put_of_new hfound).2, (put_of_new hpatched).1, append, append,
        List.set_append_right _ _ (Nat.le_refl _), Nat.sub_self]
      rfl
  | some index =>
      have hpatched : c.position? ({ file with patch } : FileEntry).name = some index := hfound
      rw [(put_of_known hfound).1, (put_of_known hfound).2, (put_of_known hpatched).1, replace,
        replace, List.set_set]

theorem files_patched (c : Catalog) (r : Registered) :
    (r.patched c).files =
      (c.put { r.entry with patch := r.patch.join }).catalog.files := by
  unfold patched
  cases r.patch with
  | none => rfl
  | some answer => exact files_put_patchAt c r.entry answer

/-- As far as the files go, a registration puts in the entries that are left. -/
theorem files_change (hasked : r.IsAsked settings known) (c : Catalog) :
    (r.change settings c).files = (c.putAll (r.left settings)).files := by
  have hplain : roleOf r.name ≠ .container →
      c.putAll (r.left settings) = (c.put (r.leftEntry settings)).catalog := by
    intro hrole
    rw [left, hasked.taken?_eq_none hrole]
    rfl
  unfold Registered.change
  cases hrole : roleOf r.name with
  | bootManager =>
      rw [hplain (by rw [hrole]; decide), leftEntry, leftPatch, hrole]
      simp only [Placed.claimed]
      split <;> rfl
  | bootStore =>
      rw [hplain (by rw [hrole]; decide), leftEntry, leftPatch, hrole]
      simp only [Placed.storePatched]
      split
      · rfl
      · exact files_put_patchAt c r.entry (some .bootStore)
  | plain =>
      rw [hplain (by rw [hrole]; decide), leftEntry, leftPatch, hrole]
      rfl
  | container =>
      have hpatch : r.leftPatch settings = r.patch.join := by rw [leftPatch, hrole]
      rw [left, leftEntry, hpatch]
      cases htaken : r.taken? with
      | none => exact files_patched c r
      | some inner => exact files_put_congr (files_patched c r) _

end Catalog

end BootVolume.Files
