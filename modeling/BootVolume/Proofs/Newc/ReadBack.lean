import BootVolume.Proofs.Newc.Forest
import BootVolume.Proofs.Newc.Rendered

/-!
# Reading undoes rendering

What the reader finds in an archive can be said without the forest that the
writer keeps: a directory is new if no directory of the same segments was
written in the run (`newDirectories`), and each entry brings its new directories
and itself, or its own records (`entryRecords`).  The forest remembers exactly
the segments of the directories that were written (`Directories.Remembers`), so
this is what was laid out (`laidOutRecords_eq`), and so what is read.
-/

namespace BootVolume.Newc

variable {σ : Type} {storage : Storage σ} {good : Machine σ → Prop} {content : Entry → Bytes}

/-! ## The records of entries -/

/-- The directories above a file whose segments were not seen, outermost first. -/
def newDirectories (seen : List (List String)) (name : String) : List String :=
  (directoriesAbove name).filter fun dir => segments dir ∉ seen

/-- The records of the rest of a list of entries, at no place in particular, where `seen` are
the segments of the directories written in the current run and `inRun` says whether a run is
open. -/
def entryRecords (content : Entry → Bytes) (seen : List (List String)) (inRun : Bool) :
    List Entry → List Record
  | [] => if inRun then [trailerRecord] else []
  | entry :: rest =>
      match entry.name with
      | some name =>
          (newDirectories seen name).map (fun dir => writtenRecord dir modeDirectory []) ++
            writtenRecord name modeFile (content entry) ::
              entryRecords content (seen ++ (directoriesAbove name).map segments) true rest
      | none =>
          (if inRun then [trailerRecord] else []) ++ archiveRecords (content entry) ++
            entryRecords content [] false rest

theorem entryRecords_named {seen : List (List String)} {inRun : Bool} {entry : Entry}
    {name : String} (hname : entry.name = some name) (rest : List Entry) :
    entryRecords content seen inRun (entry :: rest) =
      (newDirectories seen name).map (fun dir => writtenRecord dir modeDirectory []) ++
        writtenRecord name modeFile (content entry) ::
          entryRecords content (seen ++ (directoriesAbove name).map segments) true rest := by
  rw [entryRecords]
  simp only [hname]

theorem entryRecords_raw {seen : List (List String)} {inRun : Bool} {entry : Entry}
    (hname : entry.name = none) (rest : List Entry) :
    entryRecords content seen inRun (entry :: rest) =
      (if inRun then [trailerRecord] else []) ++
        (archiveRecords (content entry) ++ entryRecords content [] false rest) := by
  rw [entryRecords]
  simp only [hname, List.append_assoc]

/-! ## What the forest remembers -/

/-- The forest holds the paths that were seen. -/
structure Directories.Remembers (dirs : Directories) (seen : List (List String)) : Prop where
  distinct : dirs.Distinct
  mem_iff : ∀ path, path ∈ dirs.paths ↔ path ∈ seen

namespace Directories.Remembers

variable {dirs : Directories} {seen : List (List String)}

theorem empty : Directories.empty.Remembers [] := ⟨trivial, fun _ => Iff.rfl⟩

theorem insertParents (h : dirs.Remembers seen) (name : String) :
    (dirs.insertParents name).1.Remembers (seen ++ (directoriesAbove name).map segments) := by
  have hgrows := insert_grows h.distinct (ancestors name)
  refine ⟨hgrows.distinct, fun path => ?_⟩
  have habove : path ∈ (directoriesAbove name).map segments ↔
      path ≠ [] ∧ path <+: (ancestors name).map Ancestor.name := by
    rw [← map_path_ancestors, List.map_map, List.mem_map]
    refine (exists_segments_iff (follows_ancestors name) path).trans ⟨?_, fun hpath => ?_⟩
    · rintro ⟨below, hne, hbelow, rfl⟩
      exact ⟨hne, hbelow⟩
    · exact ⟨path, hpath.1, hpath.2, rfl⟩
  rw [Directories.insertParents, hgrows.paths, List.mem_append, habove, h.mem_iff]

/-- The directories that the forest finds new are those whose segments were not seen. -/
theorem created_eq (h : dirs.Remembers seen) (name : String) :
    (dirs.insertParents name).2 = newIn seen (ancestors name) := by
  have hknown : ∀ path, path ≠ [] → decide (path ∈ dirs.paths) = decide (path ∈ seen) :=
    fun path _ => decide_eq_decide.mpr (h.mem_iff path)
  rw [Directories.insertParents, (insert_grows h.distinct (ancestors name)).created,
    unknown_congr hknown]
  simp only [newIn, List.contains_eq_mem]
  exact unknown_eq_filter (follows_ancestors name) fun path => decide (path ∈ seen)

theorem map_path_created (h : dirs.Remembers seen) (name : String) :
    (dirs.insertParents name).2.map Ancestor.path = newDirectories seen name := by
  rw [h.created_eq, newDirectories, ← map_path_ancestors, List.filter_map]
  simp [newIn, Function.comp_def]

end Directories.Remembers

/-- What is laid out are the records of the entries. -/
theorem laidOutRecords_eq {dirs : Directories} {seen : List (List String)}
    (h : dirs.Remembers seen) (inRun : Bool) (entries : List Entry) :
    laidOutRecords content dirs inRun entries = entryRecords content seen inRun entries := by
  induction entries generalizing dirs seen inRun with
  | nil => rfl
  | cons entry rest ih =>
      cases hname : entry.name with
      | some name =>
          rw [laidOutRecords_named hname, entryRecords_named hname, ih (h.insertParents name),
            ← h.map_path_created name, List.map_map]
          rfl
      | none =>
          rw [laidOutRecords_raw hname, entryRecords_raw hname, ih .empty false]

/-! ## Reading and rendering -/

/-- Reading undoes rendering.  If names have no NUL bytes, sources are honest and the entries
without a name are archives that can be read to their end, each record at a multiple of four,
then an archive that can be measured is rendered into every buffer of at least this size, and
the reader finds in it the records of the entries and nothing else.  Each record and its content
start at multiples of four. -/
theorem records_of_rendered {entries : List Entry} {size : UInt64}
    (hnames : ∀ entry ∈ entries, ∀ name, entry.name = some name → '\x00' ∉ name.toList)
    (honest : ∀ entry ∈ entries, Honest storage good entry.source (content entry))
    (hraw : ∀ entry ∈ entries, entry.name = none → IsAligned (content entry))
    (hmeasure : measure entries = .ok size)
    (hlimit : ∀ total, exactStop 0 (layout entries) = some total → total < 2 ^ 64)
    {buffer : Bytes} (hbuffer : size.toNat ≤ buffer.length) {m : Machine σ} (hm : good m) :
    ∃ (out : Rendered) (m' : Machine σ) (rs : List Record),
      (render storage entries buffer).runOn m = (.ok out, m') ∧
      out.written = size.toNat ∧
      records (out.buffer.take out.written) = rs.map .ok ∧
      rs.map (·.moveTo 0) = entryRecords content [] false entries ∧
      ∀ r ∈ rs, r.offset % 4 = 0 ∧ r.contentOffset % 4 = 0 ∧
        r.data = Bytes.slice (out.buffer.take out.written) r.contentOffset
          r.header.filesize.toNat := by
  have hsize := exactStop_of_measure hmeasure hlimit
  have hreadable : ∀ entry ∈ entries, entry.Readable (content entry) := fun entry hentry =>
    ⟨(honest entry hentry).length_eq, hnames entry hentry, hraw entry hentry⟩
  obtain ⟨m', hrender, -, hlength⟩ := runOn_render hsize buffer hbuffer honest hm
  obtain ⟨rs, hrecords, hexpected, haligned⟩ := reads_layout hreadable hsize
  have hrecords : records (bytesFrom content 0 (layout entries)) = rs.map .ok := hrecords
  refine ⟨_, m', rs, hrender, rfl, ?_, ?_, ?_⟩
  · rw [List.take_left' hlength]
    exact hrecords
  · rw [hexpected]
    exact laidOutRecords_eq .empty false entries
  · intro r hr
    have hstart : recordStart r.header.namesize.toNat % 4 = 0 := align4_mod _
    have hoffset := haligned r hr
    refine ⟨hoffset, ?_, ?_⟩
    · unfold Record.contentOffset
      omega
    · rw [List.take_left' hlength]
      exact data_of_mem hrecords hr

/-- A file for an archive of its own. -/
def innerInput : Entry := { name := some "boot/inner", path := "inner", source := .memory [7] }

/-- An archive without a name that holds a file in a directory. -/
def splicedInput : Entry :=
  { name := none, path := "extra", source :=
      .memory (bytesFrom (·.source.held) 0 (layout [innerInput])) }

theorem reads_splicedInput :
    Reads 0 splicedInput.source.held
      [writtenRecord "boot" modeDirectory [], writtenRecord "boot/inner" modeFile [7],
        trailerRecord] := by
  have hsize : exactStop 0 (layout [innerInput]) = some 360 := by decide +kernel
  have hinner : innerInput.Readable innerInput.source.held :=
    ⟨rfl, fun name hname => by cases hname; decide, nofun⟩
  exact reads_layout (fun input hinput => List.mem_singleton.mp hinput ▸ hinner) hsize

/-- An archive between files that stand in one directory. -/
def splitRun : List Entry :=
  [{ name := some "boot/one", path := "one", source := .memory [1, 2, 3] },
    splicedInput,
    { name := some "/boot//two", path := "two", source := .memory [4] },
    { name := some "boot/three", path := "three", source := .memory [] }]

/-- The archive closes the run, so the directory is written again behind it, with the name
that the next file gives it. -/
theorem splitRun_records :
    ∃ (out : Rendered) (m' : Machine Unit) (rs : List Record),
      measure splitRun = .ok 1200 ∧
      (render .absent splitRun (Bytes.zeros 1200)).runOn { world := () } = (.ok out, m') ∧
      out.written = 1200 ∧
      records (out.buffer.take out.written) = rs.map .ok ∧
      rs.map (fun r => (r.name, r.data)) =
        [("boot", []), ("boot/one", [1, 2, 3]), (trailerName, []),
          ("boot", []), ("boot/inner", [7]), (trailerName, []),
          ("/boot", []), ("/boot//two", [4]), ("boot/three", []), (trailerName, [])] ∧
      ∀ r ∈ rs, r.offset % 4 = 0 ∧ r.contentOffset % 4 = 0 := by
  have hnames : ∀ entry ∈ splitRun, ∀ name, entry.name = some name → '\x00' ∉ name.toList := by
    have hall : splitRun.all fun entry =>
        entry.name.all fun name => !name.toList.contains '\x00' := by
      decide
    intro entry hentry name hname
    have hentry := List.all_eq_true.mp hall entry hentry
    rw [hname] at hentry
    simpa using hentry
  have honest : ∀ entry ∈ splitRun, Honest .absent (fun _ : Machine Unit => True) entry.source
      entry.source.held := by
    simp only [splitRun, List.forall_mem_cons]
    exact ⟨honest_memory _ _ _, honest_memory _ _ _, honest_memory _ _ _, honest_memory _ _ _,
      nofun⟩
  have hraw : ∀ entry ∈ splitRun, entry.name = none → IsAligned entry.source.held := by
    simp only [splitRun, List.forall_mem_cons]
    exact ⟨nofun, fun _ => reads_splicedInput.isAligned, nofun, nofun, nofun⟩
  have hmeasure : measure splitRun = .ok 1200 := by decide +kernel
  have hlimit : ∀ total, exactStop 0 (layout splitRun) = some total → total < 2 ^ 64 := by
    have hsize : exactStop 0 (layout splitRun) = some 1200 := by decide +kernel
    intro total htotal
    rw [hsize] at htotal
    exact Option.some.inj htotal ▸ by decide
  have hexpected :
      (entryRecords (·.source.held) [] false splitRun).map (fun r => (r.name, r.data)) =
      [("boot", []), ("boot/one", [1, 2, 3]), (trailerName, []),
        ("boot", []), ("boot/inner", [7]), (trailerName, []),
        ("/boot", []), ("/boot//two", [4]), ("boot/three", []), (trailerName, [])] := by
    obtain ⟨rs, hrecords, hspliced, -⟩ := reads_splicedInput
    rw [splitRun, entryRecords_named rfl, entryRecords_raw rfl,
      (archiveRecords_eq hrecords).trans hspliced]
    decide
  have hbuffer : (1200 : UInt64).toNat ≤ (Bytes.zeros 1200).length :=
    Nat.le_of_eq (Bytes.length_zeros 1200).symm
  obtain ⟨out, m', rs, hrender, hwritten, hrecords, hrs, haligned⟩ :=
    records_of_rendered hnames honest hraw hmeasure hlimit hbuffer
      (trivial : (fun _ : Machine Unit => True) { world := () })
  refine ⟨out, m', rs, hmeasure, hrender, hwritten, hrecords, ?_, fun r hr =>
    ⟨(haligned r hr).1, (haligned r hr).2.1⟩⟩
  rw [← hexpected, ← hrs, List.map_map]
  rfl

end BootVolume.Newc
