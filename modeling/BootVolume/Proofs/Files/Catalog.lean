import Mathlib
import BootVolume.Files.Catalog

/-!
# Files put into a catalog

A file that is put into a catalog takes the place of the one with its name, or
stands behind all others.  Every other file stays where it is, and so does the
boot target.  So names stay unique up to the case of letters (`Distinct`), and a
file is where its name was before.
-/

namespace BootVolume.Files.Catalog

variable {c : Catalog} {file : FileEntry}

theorem put_of_known {index : Nat} (h : c.position? file.name = some index) :
    (c.put file).catalog = c.replace index file ∧ (c.put file).index = index := by
  unfold put
  split
  · rename_i index' hindex'
    rw [hindex', Option.some.injEq] at h
    subst h
    exact ⟨rfl, rfl⟩
  · rename_i hnone
    rw [hnone] at h
    cases h

theorem put_of_new (h : c.position? file.name = none) :
    (c.put file).catalog = c.append file ∧ (c.put file).index = c.files.length := by
  unfold put
  split
  · rename_i index hindex
    rw [hindex] at h
    cases h
  · exact ⟨rfl, rfl⟩

@[simp] theorem put_boot (c : Catalog) (file : FileEntry) :
    (c.put file).catalog.boot = c.boot := by
  cases h : c.position? file.name with
  | none => rw [(put_of_new h).1]; rfl
  | some index => rw [(put_of_known h).1]; rfl

theorem getElem?_put_index (c : Catalog) (file : FileEntry) :
    (c.put file).catalog.files[(c.put file).index]? = some file := by
  cases h : c.position? file.name with
  | none =>
      rw [(put_of_new h).1, (put_of_new h).2]
      exact List.getElem?_concat_length
  | some index =>
      have hlt : index < c.files.length := (List.findIdx?_eq_some_iff_findIdx_eq.mp h).1
      rw [(put_of_known h).1, (put_of_known h).2]
      exact List.getElem?_set_self hlt

/-- A file stays where it is unless the file put in has its name. -/
theorem getElem?_put (file : FileEntry) {i : Nat} {old : FileEntry} (h : c.files[i]? = some old) :
    (i = (c.put file).index ∧ Text.sameName old.name file.name = true) ∨
      (c.put file).catalog.files[i]? = some old := by
  cases hposition : c.position? file.name with
  | none =>
      refine Or.inr ?_
      obtain ⟨hlt, -⟩ := List.getElem?_eq_some_iff.mp h
      rw [(put_of_new hposition).1, append, List.getElem?_append_left hlt]
      exact h
  | some index =>
      rw [(put_of_known hposition).1, (put_of_known hposition).2]
      by_cases hi : i = index
      · refine Or.inl ⟨hi, ?_⟩
        obtain ⟨hlt, hsame, -⟩ := List.findIdx?_eq_some_iff_getElem.mp hposition
        obtain ⟨hlt', hold⟩ := List.getElem?_eq_some_iff.mp h
        subst hi
        rw [← hold]
        exact hsame
      · refine Or.inr ?_
        rw [replace, List.getElem?_set_ne (Ne.symm hi)]
        exact h

/-- Besides the file put in a catalog holds what it held. -/
theorem getElem?_of_put {i : Nat} {f : FileEntry} (h : (c.put file).catalog.files[i]? = some f) :
    i = (c.put file).index ∧ f = file ∨ c.files[i]? = some f := by
  by_cases hi : i = (c.put file).index
  · rw [hi, getElem?_put_index, Option.some.injEq] at h
    exact Or.inl ⟨hi, h.symm⟩
  · refine Or.inr ?_
    cases hposition : c.position? file.name with
    | none =>
        rw [(put_of_new hposition).2] at hi
        rw [(put_of_new hposition).1, append] at h
        obtain ⟨hlt, -⟩ := List.getElem?_eq_some_iff.mp h
        rw [List.length_append, List.length_singleton] at hlt
        rwa [List.getElem?_append_left (by omega)] at h
    | some index =>
        rw [(put_of_known hposition).2] at hi
        rwa [(put_of_known hposition).1, replace, List.getElem?_set_ne (Ne.symm hi)] at h

/-! ## Unique names -/

/-- The names of the files up to the case of letters. -/
def names (c : Catalog) : List (List Char) := c.files.map fun file => Text.fold file.name

theorem names_put_of_new (h : c.position? file.name = none) :
    (c.put file).catalog.names = c.names ++ [Text.fold file.name] ∧
      Text.fold file.name ∉ c.names := by
  constructor
  · rw [names, (put_of_new h).1, append, List.map_append]
    rfl
  · intro hmem
    obtain ⟨old, hold, hsame⟩ := List.mem_map.mp hmem
    have hdiffers := List.findIdx?_eq_none_iff.mp h old hold
    rw [(Text.sameName_iff _ _).mpr hsame] at hdiffers
    cases hdiffers

theorem names_put_of_known {index : Nat} (h : c.position? file.name = some index) :
    (c.put file).catalog.names = c.names ∧ Text.fold file.name ∈ c.names := by
  obtain ⟨hlt, hsame, -⟩ := List.findIdx?_eq_some_iff_getElem.mp h
  have hbound : index < c.names.length := by rwa [names, List.length_map]
  have hname : c.names[index] = Text.fold file.name := by
    simp only [names, List.getElem_map]
    exact (Text.sameName_iff _ _).mp hsame
  constructor
  · rw [names, (put_of_known h).1, replace, List.map_set, ← names, ← hname, List.set_getElem_self]
  · rw [← hname]
    exact List.getElem_mem hbound

theorem names_patchAt (c : Catalog) (index : Nat) (patch : Option Patch) :
    (c.patchAt index patch).names = c.names := by
  refine List.ext_getElem (by simp [names, patchAt]) fun i hi hi' => ?_
  simp only [names, patchAt, List.getElem_map, List.getElem_modify]
  split <;> rfl

/-- No two files have one name up to the case of letters. -/
def Distinct (c : Catalog) : Prop := c.names.Nodup

theorem distinct_empty : Catalog.empty.Distinct := List.nodup_nil

theorem distinct_put (h : c.Distinct) (file : FileEntry) : (c.put file).catalog.Distinct := by
  unfold Distinct
  cases hposition : c.position? file.name with
  | none =>
      obtain ⟨hnames, hnew⟩ := names_put_of_new hposition
      rw [hnames]
      exact List.nodup_append_comm.mp (List.nodup_cons.mpr ⟨hnew, h⟩)
  | some index =>
      rw [(names_put_of_known hposition).1]
      exact h

theorem distinct_patchAt (h : c.Distinct) (index : Nat) (patch : Option Patch) :
    (c.patchAt index patch).Distinct := by
  unfold Distinct
  rw [names_patchAt]
  exact h

section

variable {old : FileEntry} {i j : Nat}

theorem index_eq_of_sameName (h : c.Distinct) (hi : c.files[i]? = some old)
    (hj : c.files[j]? = some file) (hsame : Text.sameName old.name file.name = true) : i = j := by
  obtain ⟨hi, rfl⟩ := List.getElem?_eq_some_iff.mp hi
  obtain ⟨hj, rfl⟩ := List.getElem?_eq_some_iff.mp hj
  have hi' : i < c.names.length := by rwa [names, List.length_map]
  have hj' : j < c.names.length := by rwa [names, List.length_map]
  refine (@List.Nodup.getElem_inj_iff _ _ h i hi' j hj').mp ?_
  simp only [names, List.getElem_map]
  exact (Text.sameName_iff _ _).mp hsame

/-- A file is found under its name. -/
theorem get?_of_getElem? (h : c.Distinct) (hi : c.files[i]? = some file) :
    c.get? file.name = some file := by
  have hsome : (c.get? file.name).isSome = true :=
    List.find?_isSome.mpr ⟨file, List.mem_of_getElem? hi, Text.sameName_refl file.name⟩
  obtain ⟨found, hfound⟩ := Option.isSome_iff_exists.mp hsome
  obtain ⟨k, hk⟩ := List.mem_iff_getElem?.mp (List.mem_of_find?_eq_some hfound)
  have hsame : Text.sameName found.name file.name = true :=
    (List.find?_eq_some_iff_append.mp hfound).1
  have hindex : k = i := index_eq_of_sameName h hk hi hsame
  rw [hindex, hi] at hk
  rw [hfound, hk]

/-- A file that has the name of one in the catalog takes its place. -/
theorem getElem?_put_of_sameName (h : c.Distinct) (hi : c.files[i]? = some old)
    (hsame : Text.sameName old.name file.name = true) :
    (c.put file).catalog.files[i]? = some file := by
  rcases getElem?_put file hi with ⟨rfl, -⟩ | hkept
  · exact getElem?_put_index c file
  · have hindex :=
      index_eq_of_sameName (distinct_put h file) hkept (getElem?_put_index c file) hsame
    rw [hindex]
    exact getElem?_put_index c file

/-- The other files that a catalog holds have other names than the one put in. -/
theorem mem_put (h : c.Distinct) {f : FileEntry} (hf : f ∈ (c.put file).catalog.files) :
    f = file ∨ f ∈ c.files ∧ Text.sameName file.name f.name = false := by
  obtain ⟨i, hi⟩ := List.mem_iff_getElem?.mp hf
  rcases getElem?_of_put hi with ⟨-, rfl⟩ | hold
  · exact Or.inl rfl
  · by_cases hsame : Text.sameName file.name f.name = true
    · have hfile := getElem?_put_of_sameName h hold ((Text.sameName_comm _ _).trans hsame)
      rw [hi, Option.some.injEq] at hfile
      exact Or.inl hfile
    · exact Or.inr ⟨List.mem_of_getElem? hold, Bool.eq_false_iff.mpr hsame⟩

end

/-! ## Closing -/

theorem files_of_finish {set : FileSet} (h : c.finish = .ok set) : set.files = c.files := by
  unfold finish at h
  split at h <;> cases h
  rfl

/-- A catalog with a boot target is closed into its files. -/
theorem finish_eq_ok {set : FileSet} (hfiles : c.files = set.files)
    (hboot : c.boot.map Prod.fst = some set.boot) : c.finish = .ok set := by
  obtain ⟨files, boot, boot_lt⟩ := set
  obtain rfl : c.files = files := hfiles
  unfold finish
  split
  · rename_i index origin hindex
    rw [hindex, Option.map_some, Option.some.injEq] at hboot
    obtain rfl : index = boot := hboot
    rfl
  · rename_i hnone
    rw [hnone] at hboot
    cases hboot

end BootVolume.Files.Catalog
