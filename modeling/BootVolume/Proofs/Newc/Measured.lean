import BootVolume.Proofs.Files.Entry
import BootVolume.Proofs.Newc.Ancestors
import BootVolume.Proofs.Newc.Directories
import BootVolume.Proofs.Newc.Layout

/-!
# The measured size is the rendered size

Measuring and rendering go through the same pieces.  Measuring stops at the
first entry that has no record (`findSome?_layoutFrom_eq_none_iff`); rendering
reads the entries in their order and does nothing else to the outside world
(`runOn_renderFrom_error`), and a buffer that is too small is noticed at the
first piece that reaches past its end (`runOn_renderFrom_small`).
-/

namespace BootVolume.Newc

variable {σ : Type} {storage : Storage σ} {good : Machine σ → Prop}

/-! ## Entries without a record -/

/-- An entry has a record if its length and that of its name are words of 32 bits; an archive
needs none. -/
def Entry.HasRecord (entry : Entry) : Prop :=
  ∀ name, entry.name = some name →
    entry.source.length < Bytes.limit32 ∧ (Text.utf8 name).length < Bytes.limit32

/-- Why nothing can be written at a piece. -/
def Piece.refusal? : Piece → Option ArchiveError
  | .refusal cause => some cause
  | _ => none

theorem measureFrom_eq_error {pieces : List Piece} {cause : ArchiveError}
    (h : pieces.findSome? Piece.refusal? = some cause) (position : UInt64) :
    measureFrom position pieces = .error cause := by
  induction pieces generalizing position with
  | nil => cases h
  | cons piece rest ih =>
      cases piece with
      | align => exact ih h _
      | bytes data => exact ih h _
      | content entry => exact ih h _
      | refusal first =>
          cases h
          rfl

theorem exists_measureFrom {pieces : List Piece} (h : pieces.findSome? Piece.refusal? = none)
    (position : UInt64) : ∃ size, measureFrom position pieces = .ok size := by
  induction pieces generalizing position with
  | nil => exact ⟨position, rfl⟩
  | cons piece rest ih =>
      cases piece with
      | align => exact ih h _
      | bytes data => exact ih h _
      | content entry => exact ih h _
      | refusal first => cases h

theorem findSome?_align (pieces : List Piece) :
    (.align :: pieces).findSome? Piece.refusal? = pieces.findSome? Piece.refusal? := rfl

theorem findSome?_content (entry : Entry) (pieces : List Piece) :
    (.content entry :: pieces).findSome? Piece.refusal? = pieces.findSome? Piece.refusal? := rfl

theorem refusal?_recordHead {name : String} (h : (Text.utf8 name).length < Bytes.limit32)
    (mode filesize : UInt32) :
    (recordHead name mode filesize).findSome? Piece.refusal? = none := by
  rw [recordHead_of_lt h]
  rfl

/-- A directory above a file has no longer a path than the file. -/
theorem length_utf8_le_of_mem_insertParents {dirs : Directories} {name : String} {dir : Ancestor}
    (h : dir ∈ (dirs.insertParents name).2) :
    (Text.utf8 dir.path).length ≤ (Text.utf8 name).length := by
  have hmem : dir.path ∈ directoriesAbove name := by
    rw [← map_path_ancestors]
    exact List.mem_map_of_mem ((Directories.insert_suffix dirs _).subset h)
  obtain ⟨i, -, hpath⟩ := List.mem_map.mp hmem
  have hsplit : Text.utf8 name = Text.utf8 dir.path ++
      (name.toList.drop i).flatMap String.utf8EncodeChar := by
    rw [← hpath, Text.utf8, Text.utf8, String.toList_ofList, ← List.flatMap_append,
      List.take_append_drop]
  rw [hsplit, List.length_append]
  exact Nat.le_add_right ..

theorem refusal?_directories {dirs : Directories} {name : String}
    (h : (Text.utf8 name).length < Bytes.limit32) :
    ((dirs.insertParents name).2.flatMap directoryHead).findSome? Piece.refusal? = none := by
  rw [List.findSome?_eq_none_iff]
  intro piece hpiece
  obtain ⟨dir, hdir, hpiece⟩ := List.mem_flatMap.mp hpiece
  have hlength := length_utf8_le_of_mem_insertParents hdir
  exact List.findSome?_eq_none_iff.mp (refusal?_recordHead (Nat.lt_of_le_of_lt hlength h) _ _)
    piece hpiece

theorem refusal?_fileHead {name : String} {length : Nat}
    (h : (Text.utf8 name).length < Bytes.limit32) :
    (fileHead name length).findSome? Piece.refusal? =
      if length < Bytes.limit32 then none else some (.fileTooLarge length) := by
  unfold fileHead
  split
  · exact refusal?_recordHead h _ _
  · rfl

section Entries

variable {dirs : Directories} {inRun : Bool} {entry : Entry} {rest : List Entry}

/-- What stands before an entry without a name can be written. -/
theorem refusal?_layoutFrom_raw (hname : entry.name = none) :
    (layoutFrom dirs inRun (entry :: rest)).findSome? Piece.refusal? =
      (layoutFrom .empty false rest).findSome? Piece.refusal? := by
  have htrailer : trailer.findSome? Piece.refusal? = none := refusal?_recordHead (by decide) _ _
  rw [layoutFrom_raw hname, findSome?_align, List.findSome?_append, findSome?_content]
  cases inRun with
  | false => rfl
  | true => rw [if_pos rfl, htrailer, Option.none_or]

theorem refusal?_layoutFrom_named {name : String} (hname : entry.name = some name)
    (h : (Text.utf8 name).length < Bytes.limit32) :
    (layoutFrom dirs inRun (entry :: rest)).findSome? Piece.refusal? =
      if entry.source.length < Bytes.limit32 then
        (layoutFrom (dirs.insertParents name).1 true rest).findSome? Piece.refusal?
      else some (.fileTooLarge entry.source.length) := by
  rw [layoutFrom_named hname, findSome?_align, List.findSome?_append, refusal?_directories h,
    List.findSome?_append, refusal?_fileHead h, findSome?_content, Option.none_or]
  split
  · exact Option.none_or
  · exact Option.some_or

/-- Only an entry without a record keeps an archive from being written. -/
theorem findSome?_layoutFrom_eq_none_iff {entries : List Entry} :
    (layoutFrom dirs inRun entries).findSome? Piece.refusal? = none ↔
      ∀ entry ∈ entries, entry.HasRecord := by
  induction entries generalizing dirs inRun with
  | nil =>
      refine iff_of_true ?_ nofun
      cases inRun with
      | false => rfl
      | true =>
          exact (findSome?_align _).trans (@refusal?_recordHead trailerName (by decide) 0 0)
  | cons entry rest ih =>
      rw [List.forall_mem_cons]
      cases hname : entry.name with
      | none =>
          have hrecord : entry.HasRecord := fun name h => by rw [hname] at h; cases h
          rw [refusal?_layoutFrom_raw hname, ih]
          exact (and_iff_right hrecord).symm
      | some name =>
          by_cases hshort : (Text.utf8 name).length < Bytes.limit32
          · have hrecord : entry.HasRecord ↔ entry.source.length < Bytes.limit32 := by
              unfold Entry.HasRecord
              simp [hname, hshort]
            rw [refusal?_layoutFrom_named hname hshort, hrecord]
            split
            · rename_i hlength
              rw [ih, and_iff_right hlength]
            · rename_i hlength
              exact iff_of_false nofun fun h => hlength h.1
          · refine iff_of_false (fun hnone => hshort ?_) fun h => hshort (h.1 name hname).2
            have hhead : ∀ cause, .refusal cause ∉ fileHead name entry.source.length := by
              intro cause hmem
              have hpiece : .refusal cause ∈ layoutFrom dirs inRun (entry :: rest) := by
                rw [layoutFrom_named hname]
                exact List.mem_cons_of_mem _
                  (List.mem_append_right _ (List.mem_append_left _ hmem))
              cases List.findSome?_eq_none_iff.mp hnone _ hpiece
            exact (lt_of_fileHead hhead).2

/-- The first entry without a record is the one that is reported. -/
theorem findSome?_layoutFrom_of_tooLarge {before after : List Entry} {name : String}
    (hbefore : ∀ entry ∈ before, entry.HasRecord) (hname : entry.name = some name)
    (hshort : (Text.utf8 name).length < Bytes.limit32)
    (hlarge : Bytes.limit32 ≤ entry.source.length) :
    (layoutFrom dirs inRun (before ++ entry :: after)).findSome? Piece.refusal? =
      some (.fileTooLarge entry.source.length) := by
  induction before generalizing dirs inRun with
  | nil =>
      rw [List.nil_append, refusal?_layoutFrom_named hname hshort, if_neg (Nat.not_lt.mpr hlarge)]
  | cons first before ih =>
      obtain ⟨hfirst, hothers⟩ := List.forall_mem_cons.mp hbefore
      rw [List.cons_append]
      cases hfirst_name : first.name with
      | none =>
          rw [refusal?_layoutFrom_raw hfirst_name]
          exact ih hothers
      | some first_name =>
          obtain ⟨hlength, hutf8⟩ := hfirst first_name hfirst_name
          rw [refusal?_layoutFrom_named hfirst_name hutf8, if_pos hlength]
          exact ih hothers

end Entries

/-! ## Reading the entries -/

/-- The entry whose content stands at a piece. -/
def Piece.entry? : Piece → Option Entry
  | .content entry => some entry
  | _ => none

theorem entry?_recordHead (name : String) (mode filesize : UInt32) :
    (recordHead name mode filesize).filterMap Piece.entry? = [] := by
  unfold recordHead
  simp only
  split <;> rfl

theorem entry?_fileHead (name : String) (length : Nat) :
    (fileHead name length).filterMap Piece.entry? = [] := by
  unfold fileHead
  split
  · exact entry?_recordHead _ _ _
  · rfl

/-- The contents of an archive are those of its entries, in their order. -/
theorem entry?_layoutFrom (dirs : Directories) (inRun : Bool) (entries : List Entry) :
    (layoutFrom dirs inRun entries).filterMap Piece.entry? = entries := by
  have htrailer : ∀ inRun : Bool,
      (if inRun then trailer else []).filterMap Piece.entry? = [] := by
    intro inRun
    cases inRun with
    | false => rfl
    | true => exact entry?_recordHead trailerName 0 0
  have hcontent : ∀ (entry : Entry) (pieces : List Piece),
      (.content entry :: pieces).filterMap Piece.entry? =
        entry :: pieces.filterMap Piece.entry? := fun _ _ => rfl
  induction entries generalizing dirs inRun with
  | nil =>
      cases inRun with
      | false => rfl
      | true => exact htrailer true
  | cons entry rest ih =>
      cases hname : entry.name with
      | none =>
          rw [layoutFrom_raw hname, List.filterMap_cons_none rfl, List.filterMap_append, htrailer,
            List.nil_append, hcontent, ih]
      | some name =>
          have hdirectories : ∀ created : List Ancestor,
              (created.flatMap directoryHead).filterMap Piece.entry? = [] := by
            intro created
            rw [List.filterMap_eq_nil_iff]
            intro piece hpiece
            obtain ⟨dir, -, hpiece⟩ := List.mem_flatMap.mp hpiece
            exact List.filterMap_eq_nil_iff.mp (entry?_recordHead dir.path modeDirectory 0) piece
              hpiece
          rw [layoutFrom_named hname, List.filterMap_cons_none rfl, List.filterMap_append,
            hdirectories, List.nil_append, List.filterMap_append, entry?_fileHead, List.nil_append,
            hcontent, ih]

/-- Read entries as a whole, one after the other, as far as this succeeds. -/
def readEntries (storage : Storage σ) : List Entry → Action σ RenderError (List Bytes)
  | [] => pure []
  | entry :: rest => do
      let data ← Action.mapError (.read entry.path)
        (entry.source.readExact storage 0 entry.source.length)
      let others ← readEntries storage rest
      return data :: others

theorem readEntries_append (storage : Storage σ) (before after : List Entry) :
    readEntries storage (before ++ after) =
      readEntries storage before >>= fun contents =>
        readEntries storage after >>= fun others => pure (contents ++ others) := by
  induction before with
  | nil => simp only [List.nil_append, readEntries, pure_bind, bind_pure]
  | cons entry rest ih =>
      simp only [List.cons_append, readEntries, ih, bind_assoc, pure_bind]

/-- The first entry that cannot be read ends the reading under its path. -/
theorem readEntries_of_unreadable {before : List Entry} {m m₁ m₂ : Machine σ}
    {contents : List Bytes} (hbefore : (readEntries storage before).runOn m = (.ok contents, m₁))
    {entry : Entry} {cause : ReadError}
    (hentry : (entry.source.readExact storage 0 entry.source.length).runOn m₁ = (.error cause, m₂))
    (after : List Entry) :
    (readEntries storage (before ++ entry :: after)).runOn m =
      (.error (.read entry.path cause), m₂) := by
  rw [readEntries_append, Action.runOn_bind_ok hbefore, readEntries]
  have hmapped := Action.runOn_mapError_error (RenderError.read entry.path) hentry
  exact Action.runOn_bind_error (Action.runOn_bind_error hmapped _) _

/-- In a buffer that is large enough rendering fails with the reading of the entries. -/
theorem runOn_renderFrom_error {pieces : List Piece} {position stop available : Nat}
    (hstop : exactStop position pieces = some stop) (hfits : stop ≤ available)
    {m m' : Machine σ} {cause : RenderError}
    (h : (readEntries storage (pieces.filterMap Piece.entry?)).runOn m = (.error cause, m')) :
    (renderFrom storage available position pieces).runOn m = (.error cause, m') := by
  induction pieces generalizing position m with
  | nil => cases h
  | cons piece rest ih =>
      obtain ⟨middle, hmiddle, hrest⟩ := exactStop_cons hstop
      rw [renderFrom, Piece.render_eq hmiddle,
        if_pos (Nat.le_trans (le_of_exactStop hrest) hfits)]
      -- Only the content of an entry is read; other pieces pass the failure on.
      have hlater : ∀ {data : Bytes} {m₁ : Machine σ},
          (piece.fill storage position).runOn m = (.ok data, m₁) →
          (readEntries storage (rest.filterMap Piece.entry?)).runOn m₁ = (.error cause, m') →
          (piece.fill storage position >>= fun head =>
            renderFrom storage available (position + head.length) rest >>= fun tail =>
              pure (head ++ tail)).runOn m = (.error cause, m') := by
        intro data m₁ hfill hothers
        rw [Action.runOn_bind_ok hfill, Piece.length_of_fill hmiddle hfill]
        exact Action.runOn_bind_error (ih hrest hothers) _
      cases piece with
      | align => exact hlater rfl h
      | bytes data => exact hlater rfl h
      | content entry =>
          rw [List.filterMap_cons_some (rfl : Piece.entry? (.content entry) = some entry),
            readEntries] at h
          rcases Action.runOn_bind_eq_error h with herror | ⟨data, m₁, hdata, hothers⟩
          · exact Action.runOn_bind_error herror _
          · rcases Action.runOn_bind_eq_error hothers with hothers | ⟨_, _, -, hpure⟩
            · exact hlater hdata hothers
            · cases hpure
      | refusal first => cases hmiddle

/-! ## Buffers that are too small -/

theorem Piece.runOn_render_small {piece : Piece} {position stop available : Nat}
    (hstop : piece.stopAt position = some stop) (hsmall : available < stop)
    (hlimit : stop < 2 ^ 64) (storage : Storage σ) (m : Machine σ) :
    (piece.render storage available position).runOn m =
      (.error (.bufferTooSmall stop available), m) := by
  rw [Piece.render_eq hstop, if_neg (Nat.not_le.mpr hsmall), Nat.min_eq_left (by omega),
    Action.runOn_throw]

/-- The first piece that reaches past the end of the buffer is reported, with the place where
it ends. -/
theorem runOn_renderFrom_small {content : Entry → Bytes} {pieces : List Piece}
    {position stop available : Nat} (hstop : exactStop position pieces = some stop)
    (hposition : position ≤ available) (hsmall : available < stop) (hlimit : stop < 2 ^ 64)
    (honest : ∀ entry, .content entry ∈ pieces →
      Honest storage good entry.source (content entry)) {m : Machine σ} (hm : good m) :
    ∃ needed m', (renderFrom storage available position pieces).runOn m =
        (.error (.bufferTooSmall needed available), m') ∧ available < needed ∧ needed ≤ stop := by
  induction pieces generalizing position m with
  | nil =>
      cases hstop
      omega
  | cons piece rest ih =>
      obtain ⟨middle, hmiddle, hrest⟩ := exactStop_cons hstop
      have hle := le_of_exactStop hrest
      by_cases hfits : middle ≤ available
      · obtain ⟨m₁, hpiece, hm₁, hlength⟩ := Piece.runOn_render content hmiddle hfits
          (fun entry hentry => honest entry (hentry ▸ List.mem_cons_self ..)) hm
        obtain ⟨needed, m', hothers, hneeded⟩ := ih hrest hfits
          (fun entry hentry => honest entry (List.mem_cons_of_mem _ hentry)) hm₁
        refine ⟨needed, m', ?_, hneeded⟩
        rw [renderFrom, Action.runOn_bind_ok hpiece, hlength]
        exact Action.runOn_bind_error hothers _
      · have hover := Nat.not_le.mp hfits
        refine ⟨middle, m, ?_, hover, hle⟩
        rw [renderFrom]
        exact Action.runOn_bind_error (Piece.runOn_render_small hmiddle hover
          (Nat.lt_of_le_of_lt hle hlimit) storage m) _

/-! ## Both sizes -/

/-- Measuring agrees with rendering, for entries whose exact total is a word of 64 bits.  The
size is known just if every entry has a record, and a file that is too long is reported under
its length if it is the first entry without one.  With honest sources the archive is a fixed
byte string of the measured size: it is written to the start of every buffer that holds it, and
leaves the rest as it was; any other buffer is reported as too small, with a need that it does
not meet and that the measured size does.  In a buffer that is large enough the first entry that
cannot be read is reported under its path. -/
theorem measured_size_rendered {entries : List Entry}
    (hlimit : ∀ total, exactStop 0 (layout entries) = some total → total < 2 ^ 64) :
    ((∃ size, measure entries = .ok size) ↔ ∀ entry ∈ entries, entry.HasRecord) ∧
    (∀ before entry after name, entries = before ++ entry :: after →
      (∀ other ∈ before, other.HasRecord) → entry.name = some name →
      (Text.utf8 name).length < Bytes.limit32 → Bytes.limit32 ≤ entry.source.length →
      measure entries = .error (.fileTooLarge entry.source.length)) ∧
    ∀ size, measure entries = .ok size →
      exactStop 0 (layout entries) = some size.toNat ∧
      (∀ {σ : Type} (storage : Storage σ) (good : Machine σ → Prop) (content : Entry → Bytes),
        (∀ entry ∈ entries, Honest storage good entry.source (content entry)) →
        ∃ archive : Bytes, archive.length = size.toNat ∧
          ∀ (buffer : Bytes) (m : Machine σ), good m →
            (size.toNat ≤ buffer.length →
              ∃ m', (render storage entries buffer).runOn m =
                (.ok ⟨archive ++ buffer.drop size.toNat, size.toNat⟩, m') ∧ good m') ∧
            (buffer.length < size.toNat →
              ∃ needed m', (render storage entries buffer).runOn m =
                  (.error (.bufferTooSmall needed buffer.length), m') ∧
                buffer.length < needed ∧ needed ≤ size.toNat)) ∧
      ∀ {σ : Type} (storage : Storage σ) (before : List Entry) (entry : Entry) (after : List Entry)
        (buffer : Bytes) (m m₁ m₂ : Machine σ) (contents : List Bytes) (cause : ReadError),
        entries = before ++ entry :: after → size.toNat ≤ buffer.length →
        (readEntries storage before).runOn m = (.ok contents, m₁) →
        (entry.source.readExact storage 0 entry.source.length).runOn m₁ = (.error cause, m₂) →
        (render storage entries buffer).runOn m = (.error (.read entry.path cause), m₂) := by
  refine ⟨?_, ?_, ?_⟩
  · constructor
    · rintro ⟨size, hsize⟩
      apply findSome?_layoutFrom_eq_none_iff.mp
      by_contra hsome
      obtain ⟨cause, hcause⟩ := Option.ne_none_iff_exists'.mp hsome
      rw [measure, layout, measureFrom_eq_error hcause] at hsize
      cases hsize
    · intro hrecords
      exact exists_measureFrom (findSome?_layoutFrom_eq_none_iff.mpr hrecords) 0
  · rintro before entry after name rfl hbefore hname hshort hlarge
    exact measureFrom_eq_error (findSome?_layoutFrom_of_tooLarge hbefore hname hshort hlarge) 0
  · intro size hmeasure
    have hsize := exactStop_of_measure hmeasure hlimit
    refine ⟨hsize, ?_, ?_⟩
    · intro σ storage good content honest
      have hcontents : ∀ entry, .content entry ∈ layout entries →
          Honest storage good entry.source (content entry) := fun entry hentry =>
        honest entry (mem_of_content_mem hentry)
      have hlength := add_length_bytesFrom hsize fun entry hentry =>
        (hcontents entry hentry).length_eq
      refine ⟨bytesFrom content 0 (layout entries), (Nat.zero_add _).symm.trans hlength,
        fun buffer m hm => ⟨fun hfits => ?_, fun hsmall => ?_⟩⟩
      · obtain ⟨m', hrender, hm', -⟩ := runOn_render hsize buffer hfits honest hm
        exact ⟨m', hrender, hm'⟩
      · obtain ⟨needed, m', hrender, hneeded⟩ := runOn_renderFrom_small hsize (Nat.zero_le _) hsmall
          size.toNat_lt hcontents hm
        refine ⟨needed, m', ?_, hneeded⟩
        rw [render]
        exact Action.runOn_bind_error hrender _
    · rintro σ storage before entry after buffer m m₁ m₂ contents cause rfl hfits hbefore hentry
      have hread := readEntries_of_unreadable hbefore hentry after
      rw [← entry?_layoutFrom .empty false (before ++ entry :: after)] at hread
      rw [render]
      exact Action.runOn_bind_error (runOn_renderFrom_error hsize hfits hread) _

/-- A file in memory. -/
def heldFile : Entry := { name := some "boot/one", path := "one", source := .memory [1, 2, 3] }

/-- A file that its provider does not have. -/
def lostFile : Entry := { name := some "boot/two", path := "two", source := .provider 0 5 }

/-- A file one byte longer than a record can say. -/
def hugeFile : Entry :=
  { name := some "huge", path := "huge", source := .provider 0 0x100000000 }

/-- A file in memory takes the same 360 bytes in a larger buffer and does not fit into a hundred;
with a lost file behind it nothing is rendered, and with a huge one nothing is measured. -/
theorem heldFile_rendered :
    (∃ archive : Bytes, archive.length = 360 ∧
      (∃ m', (render .absent [heldFile] (Bytes.zeros 400)).runOn { world := () } =
        (.ok ⟨archive ++ (Bytes.zeros 400).drop 360, 360⟩, m')) ∧
      ∃ needed m', (render .absent [heldFile] (Bytes.zeros 100)).runOn { world := () } =
          (.error (.bufferTooSmall needed 100), m') ∧ 100 < needed ∧ needed ≤ 360) ∧
    (∃ m', (render .absent [heldFile, lostFile] (Bytes.zeros 500)).runOn { world := () } =
      (.error (.read "two" (.device Status.notFound)), m')) ∧
    measure [heldFile, hugeFile] = .error (.fileTooLarge Bytes.limit32) := by
  have hlimit : ∀ entries size, exactStop 0 (layout entries) = some size → size < 2 ^ 64 →
      ∀ total, exactStop 0 (layout entries) = some total → total < 2 ^ 64 := by
    intro entries size hsize hsmall total htotal
    rw [hsize] at htotal
    exact Option.some.inj htotal ▸ hsmall
  have hheld : heldFile.HasRecord := by
    intro name hname
    cases hname
    decide +kernel
  refine ⟨?_, ?_, ?_⟩
  · have hsize : exactStop 0 (layout [heldFile]) = some 360 := by decide +kernel
    have hmeasure : measure [heldFile] = .ok 360 := by decide +kernel
    have honest : ∀ entry ∈ [heldFile], Honest .absent (fun _ : Machine Unit => True) entry.source
        entry.source.held := by
      intro entry hentry
      rw [List.mem_singleton.mp hentry]
      exact honest_memory _ _ _
    obtain ⟨archive, hlength, hrender⟩ := ((measured_size_rendered (hlimit _ _ hsize (by decide))).2.2
      360 hmeasure).2.1 .absent _ _ honest
    have hlarge := (hrender (Bytes.zeros 400) { world := () } trivial).1
    have hsmall := (hrender (Bytes.zeros 100) { world := () } trivial).2
    rw [Bytes.length_zeros] at hlarge hsmall
    obtain ⟨m', hlarge, -⟩ := hlarge (by decide)
    exact ⟨archive, hlength, ⟨m', hlarge⟩, hsmall (by decide)⟩
  · have hsize : exactStop 0 (layout [heldFile, lostFile]) = some 488 := by decide +kernel
    have hmeasure : measure [heldFile, lostFile] = .ok 488 := by decide +kernel
    have hbuffer : (488 : UInt64).toNat ≤ (Bytes.zeros 500).length := by
      rw [Bytes.length_zeros]
      decide
    obtain ⟨m₁, hread, -⟩ := (honest_memory .absent (fun _ : Machine Unit => True)
      [1, 2, 3]).readExact_whole (m := { world := () }) trivial
    have hfirst : (readEntries .absent [heldFile]).runOn { world := () } =
        (.ok [[1, 2, 3]], m₁) :=
      Action.runOn_bind_ok (Action.runOn_mapError_ok hread _) _
    have hsecond : (lostFile.source.readExact .absent 0 5).runOn m₁ =
        (.error (.device Status.notFound), m₁) := by
      rw [Source.readExact, Source.readRest, if_pos (by decide)]
      exact Action.runOn_bind_error rfl _
    exact ⟨m₁, ((measured_size_rendered (hlimit _ _ hsize (by decide))).2.2 488 hmeasure).2.2
      .absent [heldFile] lostFile [] (Bytes.zeros 500) _ _ _ _ _ rfl hbuffer hfirst hsecond⟩
  · have hsize : (exactStop 0 (layout [heldFile, hugeFile])).isNone = true := by decide +kernel
    have hnone : ∀ total, exactStop 0 (layout [heldFile, hugeFile]) = some total →
        total < 2 ^ 64 := by
      intro total htotal
      rw [htotal] at hsize
      cases hsize
    have hbefore : ∀ other ∈ [heldFile], other.HasRecord := by
      intro other hother
      rw [List.mem_singleton.mp hother]
      exact hheld
    exact (measured_size_rendered hnone).2.1 [heldFile] hugeFile [] "huge" rfl hbefore rfl
      (by decide +kernel) (by decide)

end BootVolume.Newc
