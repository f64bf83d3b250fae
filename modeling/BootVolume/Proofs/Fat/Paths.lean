import BootVolume.Proofs.Fat.Mounted
import BootVolume.Proofs.Text.CaseFold

/-!
# Paths in letters of either case

A backslash between two paths joins their components.  Paths that differ in the case of
letters only have components that differ in nothing else, and they lead to the same entry.
-/

namespace BootVolume.Fat

/-- Paths whose components have the same names. -/
abbrev AlikePaths (path other : List String) : Prop :=
  List.Forall₂ (fun a b => Text.sameName a b = true) path other

theorem componentsFrom_append (xs ys word : List Char) :
    componentsFrom word (xs ++ '\\' :: ys) = componentsFrom word xs ++ componentsFrom [] ys := by
  induction xs generalizing word with
  | nil =>
      rw [List.nil_append, componentsFrom, componentsFrom, if_pos rfl]
      split <;> rfl
  | cons c rest ih =>
      rw [List.cons_append, componentsFrom, componentsFrom, ih, ih]
      split_ifs <;> rfl

theorem components_append (path rest : String) :
    components (path ++ "\\" ++ rest) = components path ++ components rest := by
  have hlist : (path ++ "\\" ++ rest).toList = path.toList ++ '\\' :: rest.toList := by
    rw [String.toList_append, String.toList_append, List.append_assoc]
    rfl
  rw [components, hlist, componentsFrom_append, components, components]

/-- A separator has no other case. -/
theorem eq_backslash_of_toLower_eq {c c' : Char} (h : c.toLower = c'.toLower) :
    c = '\\' ↔ c' = '\\' := by
  have hkept := Text.apply_toLower (f := (· == '\\')) (by decide)
  rw [← beq_iff_eq, ← hkept c, h, hkept c', beq_iff_eq]

theorem sameName_ofList_reverse {word word' : List Char}
    (h : word.map Char.toLower = word'.map Char.toLower) :
    Text.sameName (String.ofList word.reverse) (String.ofList word'.reverse) = true := by
  rw [Text.sameName_iff, Text.fold, Text.fold, String.toList_ofList, String.toList_ofList,
    List.map_reverse, List.map_reverse, h]

theorem alikePaths_componentsFrom {xs ys word word' : List Char}
    (hword : word.map Char.toLower = word'.map Char.toLower)
    (h : xs.map Char.toLower = ys.map Char.toLower) :
    AlikePaths (componentsFrom word xs) (componentsFrom word' ys) := by
  have hempty : word.isEmpty = word'.isEmpty := by
    rw [← List.isEmpty_map (f := Char.toLower), hword, List.isEmpty_map]
  induction xs generalizing ys word word' with
  | nil =>
      obtain rfl : ys = [] := List.map_eq_nil_iff.mp h.symm
      rw [componentsFrom, componentsFrom, hempty]
      split
      · exact .nil
      · exact .cons (sameName_ofList_reverse hword) .nil
  | cons c rest ih =>
      obtain ⟨c', rest', rfl, hc, hrest⟩ := List.map_eq_cons_iff.mp h.symm
      simp only [componentsFrom, eq_backslash_of_toLower_eq hc.symm, hempty]
      split_ifs
      · exact ih rfl hrest.symm rfl
      · exact .cons (sameName_ofList_reverse hword) (ih rfl hrest.symm rfl)
      · exact ih (congrArg₂ List.cons hc.symm hword) hrest.symm rfl

theorem alikePaths_components {path other : String} (h : Text.sameName path other = true) :
    AlikePaths (components path) (components other) :=
  alikePaths_componentsFrom rfl ((Text.sameName_iff ..).mp h)

namespace Mounted

variable {m : Type → Type} [Monad m] {v : Mounted m}

theorem answers_congr {component other : String} (h : Text.sameName component other = true) :
    answers component = answers other := by
  funext item
  rw [answers, answers, Text.sameName, Text.sameName, (Text.sameName_iff ..).mp h]

theorem resolveFrom_congr {path other : List String} (h : AlikePaths path other) (cluster : Nat) :
    v.resolveFrom cluster path = v.resolveFrom cluster other := by
  induction h generalizing cluster with
  | nil => rfl
  | @cons component component' rest rest' hsame hrest ih =>
      have hempty : rest.isEmpty = rest'.isEmpty := by
        cases hrest <;> rfl
      simp only [resolveFrom, answers_congr hsame, hempty, ih]

end Mounted

end BootVolume.Fat
