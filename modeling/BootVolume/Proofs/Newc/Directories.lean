import Mathlib
import BootVolume.Newc.Directories

/-!
# New directories of a path

The directories that are new for a path are the last of its ancestors, and their
paths have no characters that the path itself does not have.
-/

namespace BootVolume.Newc

theorem mem_ancestorsFrom {read segment rest : List Char} {dir : Ancestor}
    (h : dir ∈ ancestorsFrom read segment rest) {c : Char} (hc : c ∈ dir.path.toList) :
    c ∈ read ∨ c ∈ rest := by
  induction rest generalizing read segment with
  | nil => cases h
  | cons first rest ih =>
      have hstep : ∀ {segment}, dir ∈ ancestorsFrom (first :: read) segment rest →
          c ∈ read ∨ c ∈ first :: rest := by
        intro segment hmem
        rcases ih hmem with hread | hrest
        · rcases List.mem_cons.mp hread with rfl | hread
          · exact Or.inr (List.mem_cons_self ..)
          · exact Or.inl hread
        · exact Or.inr (List.mem_cons_of_mem _ hrest)
      rw [ancestorsFrom] at h
      split at h
      · split at h
        · exact hstep h
        · rcases List.mem_cons.mp h with rfl | h
          · rw [String.toList_ofList, List.mem_reverse] at hc
            exact Or.inl hc
          · exact hstep h
      · exact hstep h

theorem mem_of_mem_ancestors {path : String} {dir : Ancestor} (h : dir ∈ ancestors path)
    {c : Char} (hc : c ∈ dir.path.toList) : c ∈ path.toList := by
  rcases mem_ancestorsFrom h hc with hread | hrest
  · cases hread
  · exact hrest

namespace Directories

theorem insertBelow?_suffix {dirs grown : Directories} {chain created : List Ancestor}
    (h : dirs.insertBelow? chain = some (grown, created)) : created <:+ chain := by
  induction dirs generalizing chain grown created with
  | none => cases h
  | node name children siblings hchildren hsiblings =>
      cases chain with
      | nil => cases h
      | cons a rest =>
          rw [insertBelow?] at h
          split at h
          · split at h
            · rename_i grown' created' hbelow
              cases h
              exact (hchildren hbelow).trans (List.suffix_cons ..)
            · cases h
              exact List.suffix_cons ..
          · obtain ⟨⟨grown', created'⟩, hbeside, heq⟩ := Option.map_eq_some_iff.mp h
            cases heq
            exact hsiblings hbeside

theorem insert_suffix (dirs : Directories) (chain : List Ancestor) :
    (dirs.insert chain).2 <:+ chain := by
  unfold insert
  cases h : dirs.insertBelow? chain with
  | none => exact List.suffix_refl _
  | some result => exact insertBelow?_suffix h

/-- The path of a new directory has no characters but those of the path it was made for. -/
theorem not_mem_of_mem_insertParents {dirs : Directories} {path : String} {dir : Ancestor}
    (h : dir ∈ (dirs.insertParents path).2) {c : Char} (hc : c ∉ path.toList) :
    c ∉ dir.path.toList := fun hmem =>
  hc (mem_of_mem_ancestors ((insert_suffix dirs _).subset h) hmem)

end Directories

end BootVolume.Newc
