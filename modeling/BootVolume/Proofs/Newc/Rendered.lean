import BootVolume.Proofs.Newc.Directories
import BootVolume.Proofs.Newc.Layout
import BootVolume.Proofs.Newc.Stream

/-!
# Rendered archives are read back

The reader finds in the bytes of an archive what was laid out: the records of
new directories and of files, the trailers that close runs, and in the place of
each entry without a name the records of this entry (`reads_layout`).  Each
record starts at a multiple of four.  So does each entry without a name, and
what is missing behind its last record is filled up before the next entry.
-/

namespace BootVolume.Newc

/-! ## What is to be read -/

/-- A record as this library writes it, at no place in particular. -/
def writtenRecord (name : String) (mode : UInt32) (data : Bytes) : Record :=
  (WrittenRecord.plain name mode data).found 0

/-- The bytes of a record before its content. -/
def headBytes (name : String) (mode filesize : UInt32) : Bytes :=
  (Header.make mode filesize (UInt32.ofNat (Text.utf8 name).length)).encode ++
    (Text.utf8 name ++ Bytes.zeros (padding (headerLength + (Text.utf8 name).length)))

theorem length_headBytes (name : String) (mode filesize : UInt32) :
    (headBytes name mode filesize).length = recordStart (Text.utf8 name).length := by
  rw [headBytes, List.length_append, List.length_append, Header.length_encode,
    Bytes.length_zeros, recordStart, ← add_padding, Nat.add_assoc]

/-- The records of an archive up to its first error, at no place in particular. -/
def archiveRecords (data : Bytes) : List Record :=
  (records data).filterMap fun outcome => outcome.toOption.map (·.moveTo 0)

theorem archiveRecords_eq {data : Bytes} {rs : List Record} (h : records data = rs.map .ok) :
    archiveRecords data = rs.map (·.moveTo 0) := by
  rw [archiveRecords, h, List.filterMap_map]
  exact congrFun List.filterMap_eq_map' rs

/-- The record that closes a run. -/
def trailerRecord : Record := writtenRecord trailerName 0 []

/-- The records of the rest of an archive, at no place in particular. -/
def laidOutRecords (content : Entry → Bytes) (dirs : Directories) (inRun : Bool) :
    List Entry → List Record
  | [] => if inRun then [trailerRecord] else []
  | entry :: rest =>
      match entry.name with
      | some name =>
          let (dirs, created) := dirs.insertParents name
          created.map (fun dir => writtenRecord dir.path modeDirectory []) ++
            writtenRecord name modeFile (content entry) :: laidOutRecords content dirs true rest
      | none =>
          (if inRun then [trailerRecord] else []) ++ archiveRecords (content entry) ++
            laidOutRecords content .empty false rest

theorem laidOutRecords_named {content : Entry → Bytes} {dirs : Directories} {inRun : Bool}
    {entry : Entry} {name : String} (hname : entry.name = some name) (rest : List Entry) :
    laidOutRecords content dirs inRun (entry :: rest) =
      (dirs.insertParents name).2.map (fun dir => writtenRecord dir.path modeDirectory []) ++
        writtenRecord name modeFile (content entry) ::
          laidOutRecords content (dirs.insertParents name).1 true rest := by
  rw [laidOutRecords]
  simp only [hname]

theorem laidOutRecords_raw {content : Entry → Bytes} {dirs : Directories} {inRun : Bool}
    {entry : Entry} (hname : entry.name = none) (rest : List Entry) :
    laidOutRecords content dirs inRun (entry :: rest) =
      (if inRun then [trailerRecord] else []) ++
        (archiveRecords (content entry) ++ laidOutRecords content .empty false rest) := by
  rw [laidOutRecords]
  simp only [hname, List.append_assoc]

/-- An archive that is read to its end without an error, each record at a multiple of four. -/
def IsAligned (data : Bytes) : Prop :=
  ∃ rs : List Record, records data = rs.map .ok ∧ ∀ r ∈ rs, r.offset % 4 = 0

/-- The bytes from a position on hold exactly the expected records, each at a multiple of
four. -/
def Reads (position : Nat) (data : Bytes) (expected : List Record) : Prop :=
  ∃ rs : List Record, recordsFrom position data = rs.map .ok ∧ rs.map (·.moveTo 0) = expected ∧
    ∀ r ∈ rs, r.offset % 4 = 0

theorem IsAligned.reads {data : Bytes} (h : IsAligned data) :
    Reads 0 data (archiveRecords data) := by
  obtain ⟨rs, hrecords, haligned⟩ := h
  exact ⟨rs, hrecords, (archiveRecords_eq hrecords).symm, haligned⟩

namespace Reads

variable {position : Nat} {data tail : Bytes} {expected : List Record}

theorem isAligned (h : Reads 0 data expected) : IsAligned data := by
  obtain ⟨rs, hrecords, -, haligned⟩ := h
  exact ⟨rs, hrecords, haligned⟩

theorem nil (position : Nat) : Reads position [] [] :=
  ⟨[], recordsFrom_nil _, rfl, by simp⟩

theorem cons {r : Record} (begins : r.Begins data) (hposition : r.offset = position)
    (haligned : position % 4 = 0)
    (h : Reads (position + r.span) (data.drop r.span) expected) :
    Reads position data (r.moveTo 0 :: expected) := by
  obtain ⟨rs, hrecords, hexpected, hoffsets⟩ := h
  refine ⟨r :: rs, ?_, ?_, ?_⟩
  · rw [recordsFrom_of_begins begins hposition, hrecords, List.map_cons]
  · rw [List.map_cons, hexpected]
  · intro r' hr'
    rcases List.mem_cons.mp hr' with rfl | hr'
    · rw [hposition, haligned]
    · exact hoffsets r' hr'

/-- An archive at a multiple of four, with what follows at the next one. -/
theorem archive (hdata : IsAligned data) (haligned : position % 4 = 0)
    (hfills : Fills (position + data.length) tail)
    (h : Reads (align4 (position + data.length)) (tail.drop (padding (position + data.length)))
      expected) :
    Reads position (data ++ tail) (archiveRecords data ++ expected) := by
  obtain ⟨inner, hinner, hinneraligned⟩ := hdata
  obtain ⟨rs, hrecords, hexpected, hoffsets⟩ := h
  have hplaced := recordsFrom_in_place hinner hinneraligned haligned hfills
  rw [Nat.add_zero, hrecords] at hplaced
  refine ⟨inner.map (fun r => r.moveTo (position + r.offset)) ++ rs, ?_, ?_, ?_⟩
  · rw [hplaced, List.map_append, List.map_map]
    rfl
  · rw [List.map_append, hexpected, archiveRecords_eq hinner, List.map_map]
    rfl
  · intro r hr
    rcases List.mem_append.mp hr with hr | hr
    · obtain ⟨r', hr', rfl⟩ := List.mem_map.mp hr
      show (position + r'.offset) % 4 = 0
      have := hinneraligned r' hr'
      omega
    · exact hoffsets r hr

/-- A record of this library at a multiple of four, with what follows at the next one. -/
theorem written {name : String} {mode : UInt32} (data : Bytes) (haligned : position % 4 = 0)
    (hnul : '\x00' ∉ name.toList) (hname : (Text.utf8 name).length < Bytes.limit32)
    (hdata : data.length < Bytes.limit32)
    (h : Reads (align4 (position + recordStart (Text.utf8 name).length + data.length))
      (tail.drop (padding (position + recordStart (Text.utf8 name).length + data.length)))
      expected) :
    Reads position (headBytes name mode (UInt32.ofNat data.length) ++ (data ++ tail))
      (writtenRecord name mode data :: expected) := by
  have proper := WrittenRecord.plain_isProper hnul hname hdata mode
  have hnamesize : (WrittenRecord.plain name mode data).header.namesize.toNat =
      (Text.utf8 name).length := UInt32.toNat_ofNat_of_lt hname
  have begins : ((WrittenRecord.plain name mode data).found position).Begins
      (headBytes name mode (UInt32.ofNat data.length) ++ (data ++ tail)) := by
    have hbegins := WrittenRecord.found_begins proper
      (Or.inl (by rw [hnamesize]; exact Bytes.length_zeros _)) position tail
    -- A name of this library has no NUL bytes behind it.
    rw [show Bytes.zeros (WrittenRecord.plain name mode data).nuls = [] from rfl,
      List.append_nil] at hbegins
    rw [headBytes, List.append_assoc, List.append_assoc]
    exact hbegins
  have hspan : ((WrittenRecord.plain name mode data).found position).span =
      recordStart (Text.utf8 name).length + align4 data.length := by
    show recordStart (WrittenRecord.plain name mode data).header.namesize.toNat +
      align4 (WrittenRecord.plain name mode data).header.filesize.toNat = _
    rw [hnamesize, proper.data_size]
    rfl
  have hstart : recordStart (Text.utf8 name).length % 4 = 0 := align4_mod _
  have hbehind : align4 data.length =
      data.length + padding (position + recordStart (Text.utf8 name).length + data.length) := by
    unfold padding align4
    omega
  have hplace : position + (recordStart (Text.utf8 name).length + align4 data.length) =
      align4 (position + recordStart (Text.utf8 name).length + data.length) := by
    rw [hbehind, ← add_padding]
    omega
  have hdrop := Bytes.drop_middle (headBytes name mode (UInt32.ofNat data.length)) data tail
    (padding (position + recordStart (Text.utf8 name).length + data.length))
  rw [length_headBytes, ← hbehind] at hdrop
  refine cons begins rfl haligned ?_
  rw [hspan, hplace, hdrop]
  exact h

end Reads

/-! ## Pieces -/

/-- From any multiple of four on, the bytes of the pieces hold exactly the expected records. -/
def PiecesRead (content : Entry → Bytes) (pieces : List Piece) (expected : List Record) : Prop :=
  ∀ position, position % 4 = 0 → Reads position (bytesFrom content position pieces) expected

section Pieces

variable {content : Entry → Bytes} {position : Nat} {rest : List Piece} {expected : List Record}
  {name : String}

/-- What comes first fills up to a multiple of four, if anything comes. -/
theorem fills_bytesFrom (content : Entry → Bytes) (position : Nat)
    (h : rest = [] ∨ ∃ others, rest = .align :: others) :
    Fills position (bytesFrom content position rest) ∧
      (bytesFrom content position rest).drop (padding position) =
        bytesFrom content (align4 position) rest := by
  rcases h with rfl | ⟨others, rfl⟩
  · exact ⟨Or.inl rfl, List.drop_nil⟩
  · have hzero : padding (align4 position) = 0 := by
      rw [padding, align4_eq_self (align4_mod position), Nat.sub_self]
    have hbytes : bytesFrom content position (.align :: others) =
        Bytes.zeros (padding position) ++ bytesFrom content (align4 position) others := by
      rw [bytesFrom, Piece.bytesAt, Bytes.length_zeros, add_padding]
    have hagain : bytesFrom content (align4 position) (.align :: others) =
        bytesFrom content (align4 position) others := by
      rw [bytesFrom, Piece.bytesAt, hzero]
      rfl
    refine ⟨Or.inr ⟨_, hbytes⟩, ?_⟩
    rw [hbytes, hagain, List.drop_left' (Bytes.length_zeros _)]

theorem bytesFrom_recordHead (haligned : position % 4 = 0)
    (hname : (Text.utf8 name).length < Bytes.limit32) (mode filesize : UInt32) :
    bytesFrom content position (recordHead name mode filesize ++ rest) =
      headBytes name mode filesize ++
        bytesFrom content (position + recordStart (Text.utf8 name).length) rest := by
  have hpadding : padding (position + headerLength + (Text.utf8 name).length) =
      padding (headerLength + (Text.utf8 name).length) := by
    unfold padding align4
    omega
  have hstop : position + headerLength + (Text.utf8 name).length +
      padding (headerLength + (Text.utf8 name).length) =
        position + recordStart (Text.utf8 name).length := by
    rw [recordStart, ← add_padding]
    omega
  rw [recordHead_of_lt hname]
  simp only [List.cons_append, List.nil_append, bytesFrom, Piece.bytesAt, Header.length_encode,
    Bytes.length_zeros, hpadding, hstop, headBytes, List.append_assoc]

namespace PiecesRead

theorem nil (content : Entry → Bytes) : PiecesRead content [] [] := fun position _ => .nil position

theorem align (h : PiecesRead content rest expected) :
    PiecesRead content (.align :: rest) expected := by
  intro position haligned
  have hzero : padding position = 0 := by rw [padding, align4_eq_self haligned, Nat.sub_self]
  rw [bytesFrom, Piece.bytesAt, hzero]
  exact h position haligned

/-- A record without content. -/
theorem head {mode : UInt32} (hnul : '\x00' ∉ name.toList)
    (hname : (Text.utf8 name).length < Bytes.limit32) (h : PiecesRead content rest expected) :
    PiecesRead content (recordHead name mode 0 ++ rest)
      (writtenRecord name mode [] :: expected) := by
  intro position haligned
  have hstart : recordStart (Text.utf8 name).length % 4 = 0 := align4_mod _
  have hstop : (position + recordStart (Text.utf8 name).length) % 4 = 0 := by omega
  rw [bytesFrom_recordHead haligned hname]
  refine Reads.written [] haligned hnul hname (by decide) ?_
  rw [List.length_nil, Nat.add_zero, padding, align4_eq_self hstop, Nat.sub_self, List.drop_zero]
  exact h _ hstop

theorem directories {created : List Ancestor} (hnul : ∀ dir ∈ created, '\x00' ∉ dir.path.toList)
    (hname : ∀ dir ∈ created, (Text.utf8 dir.path).length < Bytes.limit32)
    (h : PiecesRead content rest expected) :
    PiecesRead content (created.flatMap directoryHead ++ rest)
      (created.map (fun dir => writtenRecord dir.path modeDirectory []) ++ expected) := by
  induction created with
  | nil => exact h
  | cons dir others ih =>
      rw [List.flatMap_cons, List.append_assoc, List.map_cons, List.cons_append]
      exact head (hnul dir (List.mem_cons_self ..)) (hname dir (List.mem_cons_self ..))
        (ih (fun dir hdir => hnul dir (List.mem_cons_of_mem _ hdir))
          (fun dir hdir => hname dir (List.mem_cons_of_mem _ hdir)))

/-- A file record with the content of its entry. -/
theorem file {entry : Entry} (hnul : '\x00' ∉ name.toList)
    (hname : (Text.utf8 name).length < Bytes.limit32)
    (hcontent : (content entry).length < Bytes.limit32)
    (hrest : rest = [] ∨ ∃ others, rest = .align :: others)
    (h : PiecesRead content rest expected) :
    PiecesRead content (fileHead name (content entry).length ++ .content entry :: rest)
      (writtenRecord name modeFile (content entry) :: expected) := by
  intro position haligned
  obtain ⟨hfills, hdrop⟩ := fills_bytesFrom content
    (position + recordStart (Text.utf8 name).length + (content entry).length) hrest
  rw [fileHead, if_pos hcontent, bytesFrom_recordHead haligned hname, bytesFrom, Piece.bytesAt]
  refine Reads.written _ haligned hnul hname hcontent ?_
  rw [hdrop]
  exact h _ (align4_mod _)

/-- An entry without a name. -/
theorem archive {entry : Entry} (hcontent : IsAligned (content entry))
    (hrest : rest = [] ∨ ∃ others, rest = .align :: others)
    (h : PiecesRead content rest expected) :
    PiecesRead content (.content entry :: rest) (archiveRecords (content entry) ++ expected) := by
  intro position haligned
  obtain ⟨hfills, hdrop⟩ := fills_bytesFrom content (position + (content entry).length) hrest
  refine Reads.archive hcontent haligned hfills ?_
  rw [Piece.bytesAt, hdrop]
  exact h _ (align4_mod _)

end PiecesRead

end Pieces

/-! ## Archives -/

/-- What an entry must be like so that its archive can be read back. -/
structure Entry.Readable (entry : Entry) (data : Bytes) : Prop where
  length_eq : data.length = entry.source.length
  name_ok : ∀ name, entry.name = some name → '\x00' ∉ name.toList
  archive_ok : entry.name = none → IsAligned data

/-- The reader finds in the bytes of an archive what was laid out. -/
theorem piecesRead_layoutFrom {content : Entry → Bytes} {dirs : Directories} {inRun : Bool}
    {entries : List Entry} (hentries : ∀ entry ∈ entries, entry.Readable (content entry))
    (hno : ∀ cause, .refusal cause ∉ layoutFrom dirs inRun entries) :
    PiecesRead content (layoutFrom dirs inRun entries)
      (laidOutRecords content dirs inRun entries) := by
  have htrailer : ∀ {rest expected}, PiecesRead content rest expected →
      PiecesRead content (trailer ++ rest) (trailerRecord :: expected) := fun h =>
    PiecesRead.head (by decide) (by decide) h
  induction entries generalizing dirs inRun with
  | nil =>
      cases inRun with
      | false => exact PiecesRead.nil content
      | true =>
          have h := (htrailer (PiecesRead.nil content)).align
          rw [List.append_nil] at h
          exact h
  | cons entry rest ih =>
      have hreadable := hentries entry (List.mem_cons_self ..)
      have hothers : ∀ entry ∈ rest, entry.Readable (content entry) := fun entry hentry =>
        hentries entry (List.mem_cons_of_mem _ hentry)
      cases hname : entry.name with
      | some name =>
          have hnul := hreadable.name_ok name hname
          rw [layoutFrom_named hname] at hno ⊢
          rw [laidOutRecords_named hname]
          simp only [List.mem_cons, List.mem_append, not_or] at hno
          obtain ⟨hlength, hutf8⟩ := lt_of_fileHead fun cause => (hno cause).2.2.1
          have hdirs : ∀ dir ∈ (dirs.insertParents name).2,
              (Text.utf8 dir.path).length < Bytes.limit32 := fun dir hdir =>
            name_lt_of_recordHead fun cause hmem =>
              (hno cause).2.1 (List.mem_flatMap.mpr ⟨dir, hdir, hmem⟩)
          have hnext := ih hothers fun cause => (hno cause).2.2.2.2
          rw [← hreadable.length_eq] at hlength ⊢
          exact (PiecesRead.directories
            (fun dir hdir => Directories.not_mem_of_mem_insertParents hdir hnul) hdirs
            (PiecesRead.file hnul hutf8 hlength (layoutFrom_cases ..) hnext)).align
      | none =>
          rw [layoutFrom_raw hname] at hno ⊢
          rw [laidOutRecords_raw hname]
          simp only [List.mem_cons, List.mem_append, not_or] at hno
          have hnext := PiecesRead.archive (hreadable.archive_ok hname) (layoutFrom_cases ..)
            (ih hothers fun cause => (hno cause).2.2.2)
          cases inRun with
          | false => exact hnext.align
          | true => exact (htrailer hnext).align

/-- The records in the bytes of an archive. -/
theorem reads_layout {content : Entry → Bytes} {entries : List Entry}
    (hentries : ∀ entry ∈ entries, entry.Readable (content entry)) {size : Nat}
    (hsize : exactStop 0 (layout entries) = some size) :
    Reads 0 (bytesFrom content 0 (layout entries))
      (laidOutRecords content .empty false entries) :=
  piecesRead_layoutFrom hentries (refusal_not_mem hsize) 0 rfl

end BootVolume.Newc
