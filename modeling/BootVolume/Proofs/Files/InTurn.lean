import BootVolume.Proofs.Files.Left

/-!
# Names in turn

A catalog keeps its files in the order in which their names came up, and each of
them with the content that its name was given last (`Catalog.Holds`).  So there
are two notions of a later file: registering a name again makes its content
later, but leaves its place where it was.  The boot manager that is taken out of
a container counts as one more file, put in behind its container.
-/

namespace BootVolume.Files

variable {σ : Type} {name : String} {files others : List (String × Source)}

/-! ## Names and contents of a history -/

/-- The names, up to the case of letters, in the order in which they came up. -/
def namesInTurn (files : List (String × Source)) : List (List Char) :=
  (files.map fun file => Text.fold file.1).eraseDups

/-- The last file with the given name, up to the case of letters. -/
def lastFile? (name : String) (files : List (String × Source)) : Option (String × Source) :=
  files.reverse.find? fun file => Text.sameName file.1 name

theorem namesInTurn_concat (files : List (String × Source)) (file : String × Source) :
    namesInTurn (files ++ [file]) =
      if Text.fold file.1 ∈ namesInTurn files then namesInTurn files
      else namesInTurn files ++ [Text.fold file.1] := by
  have hmem : Text.fold file.1 ∈ namesInTurn files ↔
      Text.fold file.1 ∈ files.map fun file => Text.fold file.1 := List.mem_eraseDups
  rw [namesInTurn, List.map_append, List.eraseDups_append, ← namesInTurn, List.map_singleton]
  by_cases hknown : Text.fold file.1 ∈ namesInTurn files
  · have hnothing : [Text.fold file.1].removeAll (files.map fun file => Text.fold file.1) = [] :=
      List.filter_cons_of_neg (by simpa using hmem.mp hknown)
    rw [if_pos hknown, hnothing]
    exact List.append_nil _
  · have hkept : [Text.fold file.1].removeAll (files.map fun file => Text.fold file.1) =
        [Text.fold file.1] :=
      List.filter_cons_of_pos (by simpa using mt hmem.mpr hknown)
    rw [if_neg hknown, hkept]
    rfl

theorem lastFile?_concat (name : String) (files : List (String × Source))
    (file : String × Source) :
    lastFile? name (files ++ [file]) =
      if Text.sameName file.1 name = true then some file else lastFile? name files := by
  rw [lastFile?, List.reverse_concat, List.find?_cons]
  cases Text.sameName file.1 name <;> rfl

theorem lastFile?_congr {other : String} (h : Text.sameName name other = true)
    (files : List (String × Source)) : lastFile? name files = lastFile? other files := by
  unfold lastFile? Text.sameName
  rw [(Text.sameName_iff _ _).mp h]

theorem mem_of_lastFile? {file : String × Source} (h : lastFile? name files = some file) :
    file ∈ files :=
  List.mem_reverse.mp (List.mem_of_find?_eq_some h)

/-! ## What a catalog holds -/

namespace Catalog

open Files.Gathering Registered

variable {c c' : Catalog} {file : FileEntry} {r : Registered} {settings : Settings}

/-- The catalog holds the files of a history, in turn and with their last contents. -/
structure Holds (files : List (String × Source)) (c : Catalog) : Prop where
  distinct : c.Distinct
  names : c.names = namesInTurn files
  last : ∀ file ∈ c.files, lastFile? file.name files = some (file.name, file.source)

namespace Holds

theorem empty : Holds [] Catalog.empty where
  distinct := distinct_empty
  names := rfl
  last := List.forall_mem_nil _

theorem put (h : Holds files c) (file : FileEntry) :
    Holds (files ++ [(file.name, file.source)]) (c.put file).catalog where
  distinct := distinct_put h.distinct file
  names := by
    rw [namesInTurn_concat, ← h.names]
    cases hposition : c.position? file.name with
    | none =>
        obtain ⟨hnames, hnew⟩ := names_put_of_new hposition
        rw [hnames, if_neg hnew]
    | some index =>
        obtain ⟨hnames, hknown⟩ := names_put_of_known hposition
        rw [hnames, if_pos hknown]
  last := by
    intro f hf
    rw [lastFile?_concat]
    rcases mem_put h.distinct hf with rfl | ⟨hold, hother⟩
    · rw [if_pos (Text.sameName_refl _)]
    · rw [hother, if_neg Bool.false_ne_true]
      exact h.last f hold

theorem putAll (h : Holds files c) (left : List FileEntry) :
    Holds (files ++ left.map FileEntry.content) (c.putAll left) := by
  induction left generalizing c files with
  | nil => rwa [List.map_nil, List.append_nil]
  | cons file rest ih =>
      rw [List.map_cons, List.append_cons]
      exact ih (h.put file)

/-- Where the boot target stands makes no difference. -/
theorem of_files_eq (h : Holds files c) (hfiles : c'.files = c.files) : Holds files c' := by
  have hnames : c'.names = c.names := by rw [Catalog.names, hfiles, ← Catalog.names]
  refine ⟨?_, hnames.trans h.names, hfiles ▸ h.last⟩
  unfold Distinct
  rw [hnames]
  exact h.distinct

/-- What one registration adds. -/
theorem change (h : Holds files c) {known : Prop} (hasked : r.IsAsked settings known) :
    Holds (files ++ r.puts) (r.change settings c) := by
  rw [← map_content_left settings]
  exact (h.putAll (r.left settings)).of_files_eq (files_change hasked c)

end Holds

/-- A run of registrations that all succeed fills the catalog with what they put in. -/
theorem holds_of_registerAll {container : Container σ} {m m' : Machine σ}
    (hrun : (registerAll container settings files).runFrom c m = ((.ok (), c'), m'))
    (h : Holds others c) :
    ∃ done : List Registered, done.map Registered.file = files ∧
      Holds (others ++ done.flatMap Registered.puts) c' := by
  -- On the files still to come: `others` is what was put in before them.
  induction files generalizing c m others with
  | nil =>
      cases hrun
      exact ⟨[], rfl, by rwa [List.flatMap_nil, List.append_nil]⟩
  | cons file rest ih =>
      obtain ⟨r, m₁, hfile, hregister, -, hasked⟩ :=
        register_eq container settings c file.1 file.2 m
      rw [registerAll] at hrun
      cases houtcome : r.outcome with
      | error failure =>
          rw [houtcome] at hregister
          rw [runFrom_bind_error hregister] at hrun
          cases hrun
      | ok =>
          rw [houtcome] at hregister
          rw [runFrom_bind_ok hregister] at hrun
          obtain ⟨done, hdone, hholds⟩ := ih hrun (h.change hasked)
          refine ⟨r :: done, ?_, ?_⟩
          · rw [List.map_cons, hdone, hfile]
          · rwa [List.flatMap_cons, ← List.append_assoc]

end Catalog

/-! ## Files in one directory -/

section Under

variable {base : String}

/-- The files whose names have the given last component, up to the case of letters. -/
def filesUnder (base : String) (files : List (String × Source)) : List (String × Source) :=
  files.filter fun file => Text.sameName (baseName file.1) base

/-- The last component of a name whose letters are folded. -/
def foldedBase (name : List Char) : List Char := (name.reverse.takeWhile (!isSeparator ·)).reverse

/-- The name that came up last among those with the given last component. -/
def newestName? (base : String) (files : List (String × Source)) : Option (List Char) :=
  (namesInTurn (filesUnder base files)).getLast?

theorem sameName_baseName_iff :
    Text.sameName (baseName name) base = true ↔ foldedBase (Text.fold name) = Text.fold base := by
  rw [Text.sameName_iff, fold_baseName]
  rfl

theorem mem_filesUnder {file : String × Source} :
    file ∈ filesUnder base files ↔
      file ∈ files ∧ Text.sameName (baseName file.1) base = true := by
  rw [filesUnder, List.mem_filter]

theorem filesUnder_append (base : String) (files others : List (String × Source)) :
    filesUnder base (files ++ others) = filesUnder base files ++ filesUnder base others :=
  List.filter_append ..

theorem filesUnder_concat (base : String) (files : List (String × Source))
    (file : String × Source) :
    filesUnder base (files ++ [file]) =
      if Text.sameName (baseName file.1) base = true then filesUnder base files ++ [file]
      else filesUnder base files := by
  rw [filesUnder_append]
  by_cases hbase : Text.sameName (baseName file.1) base = true
  · have hfile : filesUnder base [file] = [file] := List.filter_cons_of_pos hbase
    rw [if_pos hbase, hfile]
  · have hfile : filesUnder base [file] = [] := List.filter_cons_of_neg hbase
    rw [if_neg hbase, hfile, List.append_nil]

theorem namesInTurn_filesUnder (base : String) (files : List (String × Source)) :
    (namesInTurn files).filter (fun name => foldedBase name == Text.fold base) =
      namesInTurn (filesUnder base files) := by
  induction files using List.reverseRecOn with
  | nil => rfl
  | append_singleton files file ih =>
      have hmem : Text.fold file.1 ∈ namesInTurn (filesUnder base files) ↔
          Text.fold file.1 ∈ namesInTurn files ∧ Text.sameName (baseName file.1) base = true := by
        rw [← ih, List.mem_filter, beq_iff_eq, sameName_baseName_iff]
      -- A file with this last component has a new name among its like just if it has one at all.
      rw [namesInTurn_concat, filesUnder_concat]
      by_cases hbase : Text.sameName (baseName file.1) base = true
      · have hown : [Text.fold file.1].filter (fun name => foldedBase name == Text.fold base) =
            [Text.fold file.1] :=
          List.filter_cons_of_pos (beq_iff_eq.mpr (sameName_baseName_iff.mp hbase))
        rw [if_pos hbase, namesInTurn_concat]
        by_cases hknown : Text.fold file.1 ∈ namesInTurn files
        · rw [if_pos hknown, if_pos (hmem.mpr ⟨hknown, hbase⟩), ih]
        · rw [if_neg hknown, if_neg fun hin => hknown (hmem.mp hin).1, List.filter_append, ih, hown]
      · have hother : [Text.fold file.1].filter (fun name => foldedBase name == Text.fold base) =
            [] :=
          List.filter_cons_of_neg (by rwa [beq_iff_eq, ← sameName_baseName_iff])
        rw [if_neg hbase]
        split
        · exact ih
        · rw [List.filter_append, ih, hother, List.append_nil]

theorem lastFile?_filesUnder (hbase : Text.sameName (baseName name) base = true)
    (files : List (String × Source)) :
    lastFile? name (filesUnder base files) = lastFile? name files := by
  induction files using List.reverseRecOn with
  | nil => rfl
  | append_singleton files file ih =>
      rw [filesUnder_concat, lastFile?_concat]
      by_cases hsame : Text.sameName file.1 name = true
      · have hunder : Text.sameName (baseName file.1) base = true := by
          rw [sameName_baseName_iff] at hbase ⊢
          rw [(Text.sameName_iff _ _).mp hsame, hbase]
        rw [if_pos hsame, if_pos hunder, lastFile?_concat, if_pos hsame]
      · rw [if_neg hsame, ← ih]
        split
        · rw [lastFile?_concat, if_neg hsame]
        · rfl

/-- Boot managers taken out of containers stand under their own name alone. -/
theorem filesUnder_puts (hbase : Text.sameName bootName base = false) (done : List Registered) :
    filesUnder base (done.flatMap Registered.puts) =
      filesUnder base (done.map Registered.file) := by
  have hown : baseName bootName = bootName := by decide
  induction done with
  | nil => rfl
  | cons r rest ih =>
      have htaken : filesUnder base (r.taken?.map fun inner => (bootName, inner)).toList = [] := by
        apply List.filter_eq_nil_iff.mpr
        intro file hfile
        obtain ⟨inner, -, rfl⟩ := Option.map_eq_some_iff.mp (Option.mem_toList.mp hfile)
        rw [hown, hbase]
        exact Bool.false_ne_true
      calc filesUnder base ((r :: rest).flatMap Registered.puts)
          = filesUnder base [r.file] ++
              filesUnder base (r.taken?.map fun inner => (bootName, inner)).toList ++
                filesUnder base (rest.flatMap Registered.puts) := by
            rw [← filesUnder_append, ← filesUnder_append]
            rfl
        _ = filesUnder base [r.file] ++ filesUnder base (rest.map Registered.file) := by
            rw [htaken, List.append_nil, ih]
        _ = filesUnder base ((r :: rest).map Registered.file) := by
            rw [← filesUnder_append]
            rfl

end Under

end BootVolume.Files
