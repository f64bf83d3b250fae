import Mathlib
import BootVolume.Image.Visible

/-!
# The files that are shown

`Shows` collects what holds of the visible files after some files of a set have
been taken in: each stands for a file of the set that may be shown, no two have
the same last component of their names, and every file that may be shown is
visible itself or has given its place to a later one.  Taking in one more file
keeps all of this (`Shows.takeIn`), and so it holds of a whole set
(`shows_visibleFiles`).
-/

namespace BootVolume.Image

open Fat Files

variable {boot index : Nat} {file : FileEntry} {stored : StoredName}

/-- The name of a visible file up to the case of its letters. -/
def Visible.key (v : Visible) : List Char := Text.fold v.file.baseName

/-- What holds of the visible files `shown` when the files `taken` have been taken in. -/
structure Shows (boot : Nat) (taken : List FileEntry) (shown : List Visible) : Prop where
  at_index : ∀ v ∈ shown, taken[v.index]? = some v.file
  accepted : ∀ v ∈ shown, accept boot v.index v.file = .ok v.stored
  distinct : (shown.map Visible.key).Nodup
  covered : ∀ i file stored, taken[i]? = some file → accept boot i file = .ok stored →
    ∃ v ∈ shown, v.key = Text.fold file.baseName ∧ i ≤ v.index

/-! ## Accepted files -/

theorem accept_eq_ok_iff :
    accept boot index file = .ok stored ↔
      storedName? file.baseName = some stored ∧ isReserved stored.short = false ∧
        ¬ (index ≠ boot ∧ Text.sameName file.baseName bootName = true) := by
  unfold accept
  cases hname : storedName? file.baseName with
  | none => simp
  | some n =>
      simp only [Option.some.injEq]
      cases hreserved : isReserved n.short with
      | true =>
          simp only [if_true, reduceCtorEq, false_iff, not_and]
          rintro rfl hfalse
          rw [hreserved] at hfalse
          cases hfalse
      | false =>
          by_cases hother : index ≠ boot ∧ Text.sameName file.baseName bootName = true
          · simp [hother]
          · simp only [Bool.false_eq_true, if_false, if_neg hother, Except.ok.injEq]
            constructor
            · rintro rfl
              exact ⟨rfl, hreserved, hother⟩
            · exact fun h => h.1

/-! ## Taking files in -/

theorem takeIn_of_error {shown : List Visible} {omission : Omission}
    (h : accept boot index file = .error omission) :
    takeIn boot index shown file = (shown, some (omission.warning file)) := by
  unfold takeIn
  simp only [h]

/-- A file with a new name is shown behind all others. -/
theorem takeIn_of_new {shown : List Visible} (h : accept boot index file = .ok stored)
    (hnew : ∀ v ∈ shown, v.key ≠ Text.fold file.baseName) :
    takeIn boot index shown file = (shown ++ [⟨index, file, stored⟩], none) := by
  have hfind : shown.find? (fun v => Text.sameName v.file.baseName file.baseName) = none := by
    refine List.find?_eq_none.mpr fun v hv hsame => hnew v hv ?_
    exact (Text.sameName_iff _ _).mp hsame
  unfold takeIn
  simp only [h, hfind]

/-- A file with a name that is shown already takes the place of the other one. -/
theorem takeIn_of_known {shown : List Visible} (h : accept boot index file = .ok stored)
    {old : Visible} (hold : old ∈ shown) (hkey : old.key = Text.fold file.baseName) :
    ∃ before after old', shown = before ++ old' :: after ∧
      old'.key = Text.fold file.baseName ∧
      takeIn boot index shown file = (before ++ ⟨index, file, stored⟩ :: after,
        some (file.name ++ " replaces " ++ old'.file.name)) := by
  set same : Visible → Bool := fun v => Text.sameName v.file.baseName file.baseName with hsame
  have hex : ∃ v ∈ shown, same v = true := ⟨old, hold, (Text.sameName_iff _ _).mpr hkey⟩
  have hlt : shown.findIdx same < shown.length := List.findIdx_lt_length.mpr hex
  have hat : same shown[shown.findIdx same] = true := List.findIdx_getElem
  have hfound : shown.find? same = some shown[shown.findIdx same] := by
    rw [List.find?_eq_getElem?_findIdx, List.getElem?_eq_getElem hlt]
  refine ⟨shown.take (shown.findIdx same), shown.drop (shown.findIdx same + 1),
    shown[shown.findIdx same], ?_, (Text.sameName_iff _ _).mp hat, ?_⟩
  · rw [List.getElem_cons_drop, List.take_append_drop]
  · unfold takeIn
    simp only [h, ← hsame, hfound]
    rw [List.set_eq_take_append_cons_drop, if_pos hlt]

theorem showFrom_nil (boot index : Nat) (shown : List Visible) :
    showFrom boot index shown [] = (shown, []) := rfl

theorem showFrom_cons (boot index : Nat) (shown : List Visible) (file : FileEntry)
    (rest : List FileEntry) :
    showFrom boot index shown (file :: rest) =
      ((showFrom boot (index + 1) (takeIn boot index shown file).1 rest).1,
        (takeIn boot index shown file).2.toList ++
          (showFrom boot (index + 1) (takeIn boot index shown file).1 rest).2) := by
  rw [showFrom]

namespace Shows

variable {taken : List FileEntry} {shown : List Visible}

theorem nil : Shows boot [] [] where
  at_index := List.forall_mem_nil _
  accepted := List.forall_mem_nil _
  distinct := List.nodup_nil
  covered i file stored hfile := by
    rw [List.getElem?_nil] at hfile
    cases hfile

theorem index_lt (shows : Shows boot taken shown) {v : Visible} (hv : v ∈ shown) :
    v.index < taken.length := by
  obtain ⟨hlt, -⟩ := List.getElem?_eq_some_iff.mp (shows.at_index v hv)
  exact hlt

theorem getElem?_append (shows : Shows boot taken shown) {v : Visible} (hv : v ∈ shown)
    (others : List FileEntry) : (taken ++ others)[v.index]? = some v.file := by
  rw [List.getElem?_append_left (shows.index_lt hv)]
  exact shows.at_index v hv

theorem getElem?_concat_cases {i : Nat} {f : FileEntry} (h : (taken ++ [file])[i]? = some f) :
    taken[i]? = some f ∨ i = taken.length ∧ f = file := by
  by_cases hi : i < taken.length
  · rw [List.getElem?_append_left hi] at h
    exact Or.inl h
  · obtain ⟨hlt, -⟩ := List.getElem?_eq_some_iff.mp h
    rw [List.length_append, List.length_singleton] at hlt
    obtain rfl : i = taken.length := by omega
    rw [List.getElem?_concat_length] at h
    exact Or.inr ⟨rfl, (Option.some.inj h).symm⟩

theorem leave (shows : Shows boot taken shown) {omission : Omission}
    (haccept : accept boot taken.length file = .error omission) :
    Shows boot (taken ++ [file]) shown where
  at_index v hv := shows.getElem?_append hv _
  accepted := shows.accepted
  distinct := shows.distinct
  covered i f s hf hs := by
    rcases getElem?_concat_cases hf with hf | ⟨rfl, rfl⟩
    · exact shows.covered i f s hf hs
    · rw [haccept] at hs
      cases hs

theorem extend (shows : Shows boot taken shown)
    (haccept : accept boot taken.length file = .ok stored)
    (hnew : ∀ v ∈ shown, v.key ≠ Text.fold file.baseName) :
    Shows boot (taken ++ [file]) (shown ++ [⟨taken.length, file, stored⟩]) where
  at_index v hv := by
    rcases List.mem_append.mp hv with hv | hv
    · exact shows.getElem?_append hv _
    · rw [List.mem_singleton.mp hv]
      exact List.getElem?_concat_length
  accepted v hv := by
    rcases List.mem_append.mp hv with hv | hv
    · exact shows.accepted v hv
    · rw [List.mem_singleton.mp hv]
      exact haccept
  distinct := by
    rw [List.map_append, List.nodup_append]
    refine ⟨shows.distinct, List.nodup_singleton _, ?_⟩
    intro key hkey key' hkey'
    obtain ⟨v, hv, rfl⟩ := List.mem_map.mp hkey
    rw [List.mem_singleton.mp hkey']
    exact hnew v hv
  covered i f s hf hs := by
    rcases getElem?_concat_cases hf with hf | ⟨rfl, rfl⟩
    · obtain ⟨v, hv, hvkey, hle⟩ := shows.covered i f s hf hs
      exact ⟨v, List.mem_append_left _ hv, hvkey, hle⟩
    · exact ⟨_, List.mem_append_right _ (List.mem_singleton_self _), rfl, Nat.le_refl _⟩

theorem replace {before after : List Visible} {old : Visible}
    (shows : Shows boot taken (before ++ old :: after))
    (haccept : accept boot taken.length file = .ok stored)
    (hkey : old.key = Text.fold file.baseName) :
    Shows boot (taken ++ [file]) (before ++ ⟨taken.length, file, stored⟩ :: after) where
  at_index v hv := by
    rcases List.mem_append.mp hv with hv | hv
    · exact shows.getElem?_append (List.mem_append_left _ hv) _
    · rcases List.mem_cons.mp hv with rfl | hv
      · exact List.getElem?_concat_length
      · exact shows.getElem?_append (List.mem_append_right _ (List.mem_cons_of_mem _ hv)) _
  accepted v hv := by
    rcases List.mem_append.mp hv with hv | hv
    · exact shows.accepted v (List.mem_append_left _ hv)
    · rcases List.mem_cons.mp hv with rfl | hv
      · exact haccept
      · exact shows.accepted v (List.mem_append_right _ (List.mem_cons_of_mem _ hv))
  distinct := by
    -- The names stay the same, one after the other.
    have hdistinct := shows.distinct
    rw [List.map_append, List.map_cons, hkey] at hdistinct
    rw [List.map_append, List.map_cons]
    exact hdistinct
  covered i f s hf hs := by
    rcases getElem?_concat_cases hf with hf | ⟨rfl, rfl⟩
    · obtain ⟨v, hv, hvkey, hle⟩ := shows.covered i f s hf hs
      have hlt := shows.index_lt hv
      rcases List.mem_append.mp hv with hv | hv
      · exact ⟨v, List.mem_append_left _ hv, hvkey, hle⟩
      · rcases List.mem_cons.mp hv with rfl | hv
        · exact ⟨_, List.mem_append_right _ (List.mem_cons_self ..), hkey.symm.trans hvkey,
            Nat.le_of_lt (Nat.lt_of_le_of_lt hle hlt)⟩
        · exact ⟨v, List.mem_append_right _ (List.mem_cons_of_mem _ hv), hvkey, hle⟩
    · exact ⟨_, List.mem_append_right _ (List.mem_cons_self ..), rfl, Nat.le_refl _⟩

theorem takeIn (shows : Shows boot taken shown) (file : FileEntry) :
    Shows boot (taken ++ [file]) (takeIn boot taken.length shown file).1 := by
  cases haccept : accept boot taken.length file with
  | error omission =>
      rw [takeIn_of_error haccept]
      exact shows.leave haccept
  | ok stored =>
      by_cases hknown : ∃ v ∈ shown, v.key = Text.fold file.baseName
      · obtain ⟨old, hold, hkey⟩ := hknown
        obtain ⟨before, after, old', rfl, hkey', htaken⟩ := takeIn_of_known haccept hold hkey
        rw [htaken]
        exact shows.replace haccept hkey'
      · push Not at hknown
        rw [takeIn_of_new haccept hknown]
        exact shows.extend haccept hknown

theorem showFrom (shows : Shows boot taken shown) (rest : List FileEntry) :
    Shows boot (taken ++ rest) (showFrom boot taken.length shown rest).1 := by
  induction rest generalizing taken shown with
  | nil =>
      rw [List.append_nil, showFrom_nil]
      exact shows
  | cons file rest ih =>
      have hnext := ih (shows.takeIn file)
      rw [List.length_append, List.length_singleton, List.append_assoc] at hnext
      rw [showFrom_cons]
      exact hnext

end Shows

theorem shows_visibleFiles (set : FileSet) :
    Shows set.boot set.files (visibleFiles set).1 :=
  Shows.nil.showFrom set.files

/-- If every file of a set may be shown and no two have the same last component of their names,
then all of them are visible. -/
theorem length_visibleFiles {set : FileSet}
    (hdistinct : (set.files.map fun file => Text.fold file.baseName).Nodup)
    (haccept : ∀ i file, set.files[i]? = some file → (accept set.boot i file).toBool = true) :
    (visibleFiles set).1.length = set.files.length := by
  have shows := shows_visibleFiles set
  have hshown : (visibleFiles set).1.map Visible.key ⊆
      set.files.map fun file => Text.fold file.baseName := by
    intro key hkey
    obtain ⟨v, hv, rfl⟩ := List.mem_map.mp hkey
    exact List.mem_map_of_mem (List.mem_of_getElem? (shows.at_index v hv))
  have hcovered : (set.files.map fun file => Text.fold file.baseName) ⊆
      (visibleFiles set).1.map Visible.key := by
    intro key hkey
    obtain ⟨file, hfile, rfl⟩ := List.mem_map.mp hkey
    obtain ⟨i, hi⟩ := List.mem_iff_getElem?.mp hfile
    have hok := haccept i file hi
    cases hstored : accept set.boot i file with
    | error omission =>
        rw [hstored] at hok
        cases hok
    | ok stored =>
        obtain ⟨v, hv, hkey, -⟩ := shows.covered i file stored hi hstored
        rw [← hkey]
        exact List.mem_map_of_mem hv
  have hle := (shows.distinct.subperm hshown).length_le
  have hge := (hdistinct.subperm hcovered).length_le
  rw [List.length_map, List.length_map] at hle hge
  exact Nat.le_antisymm hle hge

/-- Two visible files are not the same file of the set. -/
theorem Shows.index_injective {taken : List FileEntry} {shown : List Visible}
    (shows : Shows boot taken shown) {v w : Visible} (hv : v ∈ shown) (hw : w ∈ shown)
    (h : v.index = w.index) : v = w := by
  have hfile : v.file = w.file := by
    have hv' := shows.at_index v hv
    rw [h, shows.at_index w hw] at hv'
    exact (Option.some.inj hv').symm
  have hkey : v.key = w.key := by
    unfold Visible.key
    rw [hfile]
  exact List.inj_on_of_nodup_map shows.distinct hv hw hkey

theorem Shows.nodup_index {taken : List FileEntry} {shown : List Visible}
    (shows : Shows boot taken shown) : (shown.map Visible.index).Nodup :=
  shows.distinct.of_map.map_on fun _ hv _ hw h => shows.index_injective hv hw h

end BootVolume.Image
