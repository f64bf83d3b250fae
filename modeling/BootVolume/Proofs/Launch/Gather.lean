import BootVolume.Launch.Sequence
import BootVolume.Proofs.Files.Simulation
import BootVolume.Proofs.Newc.Rendered

/-!
# Gathering in memory or on demand

Inputs may be written into one archive in memory and taken from there, or taken
one by one.  Both ways register the same files in the same order
(`inputFiles`): in memory because the reader finds in the archive what was laid
out, and on demand by definition.  So they lead to catalogs that are alike, and
to the same outcome.
-/

namespace BootVolume

open Files Newc

variable {σ : Type} {storage : Storage σ} {good : Machine σ → Prop} {fw : Firmware σ}
  {container : Container σ} {content : Entry → Bytes}

/-- The firmware always has as much memory as it is asked for. -/
def Firmware.Grants (fw : Firmware σ) (good : Machine σ → Prop) : Prop :=
  ∀ (pages : Nat) ⦃m : Machine σ⦄, good m → ∃ granted m',
    (fw.allocatePages pages).runOn m = (.ok granted, m') ∧ pages * pageSize ≤ granted ∧ good m'

/-- An input that both ways understand alike: its source serves exactly its content; its name,
if it has one, is kept by an archive and is not that of a trailer; and without a name it is
an archive that can be read to its end in any place. -/
structure IsPortable (storage : Storage σ) (good : Machine σ → Prop) (input : Entry)
    (data : Bytes) : Prop where
  honest : Honest storage good input.source data
  name_ok : ∀ name, input.name = some name →
    name ≠ "" ∧ '\x00' ∉ name.toList ∧ name.toList.head? ≠ some '/' ∧ name ≠ trailerName
  archive_ok : input.name = none → IsAligned data

/-! ## Loading and writing -/

theorem runOn_allocate (hfw : fw.Grants good) (length : Nat) (what : String) {m : Machine σ}
    (hm : good m) :
    ∃ granted m', (allocate fw length what).runOn m = (.ok granted, m') ∧ good m' := by
  obtain ⟨granted, m', hgranted, henough, hm'⟩ := hfw (pagesFor length) hm
  have hpages : length ≤ pagesFor length * pageSize := by
    unfold pagesFor pageSize
    omega
  refine ⟨granted, m', ?_, hm'⟩
  rw [allocate, Action.runOn_bind_ok (Action.runOn_mapError_ok hgranted _), if_neg (by omega)]
  rfl

/-- An honest input is copied into memory. -/
theorem runOn_loadWhole (hfw : fw.Grants good) {input : Entry} {data : Bytes}
    (honest : Honest storage good input.source data) {m : Machine σ} (hm : good m) :
    ∃ m', (loadWhole storage fw input).runOn m = (.ok data, m') ∧ good m' := by
  obtain ⟨granted, m₁, hallocate, hm₁⟩ := runOn_allocate hfw input.source.length "input file" hm
  obtain ⟨m₂, hread, hm₂⟩ := honest.readExact_whole hm₁
  refine ⟨m₂, ?_, hm₂⟩
  rw [loadWhole, Action.runOn_bind_ok hallocate, Action.runOn_mapError_ok hread]

/-- Honest inputs are written into one archive. -/
theorem runOn_renderInputs (hgood : KeptByReports good) (hfw : fw.Grants good)
    {inputs : List Entry}
    (honest : ∀ input ∈ inputs, Honest storage good input.source (content input)) {size : Nat}
    (hsize : exactStop 0 (layout inputs) = some size) (hlimit : size < 2 ^ 64) {m : Machine σ}
    (hm : good m) :
    ∃ m', (renderInputs storage fw inputs).runOn m =
      (.ok (bytesFrom content 0 (layout inputs)), m') ∧ good m' := by
  have hword : (UInt64.ofNat size).toNat = size := UInt64.toNat_ofNat_of_lt hlimit
  obtain ⟨granted, m₁, hallocate, hm₁⟩ := runOn_allocate hfw size "archive" hm
  obtain ⟨m₂, hrender, hm₂, hlength⟩ := runOn_render hsize (Bytes.zeros size)
    (Nat.le_of_eq (Bytes.length_zeros size).symm) honest hm₁
  refine ⟨m₂.report .debug ("rendered " ++ toString inputs.length ++ " inputs into " ++
    toString size ++ " bytes"), ?_, hgood _ _ _ hm₂⟩
  rw [renderInputs, measure_eq hsize hlimit]
  simp only [hword]
  rw [Action.runOn_bind_ok hallocate, Action.runOn_bind_ok (Action.runOn_mapError_ok hrender _),
    Action.runOn_bind_ok (Action.runOn_lift _ _), Action.runOn_pure, List.take_left' hlength]
  rfl

/-! ## The files of the inputs -/

/-- The files that the inputs stand for. -/
def inputFiles (content : Entry → Bytes) : List Entry → List (String × Bytes)
  | [] => []
  | input :: rest =>
      (match input.name with
        | some name => [(name, content input)]
        | none => Catalog.registeredFiles (archiveRecords (content input))) ++
      inputFiles content rest

theorem isRegistered_of_not_isRegular {r : Record} (h : r.header.isRegular = false) :
    Catalog.isRegistered r = false := by
  rw [Catalog.isRegistered, Record.isFile, h]
  rfl

/-- A file record is registered under its own name. -/
theorem registeredFiles_file {name : String} (hempty : name ≠ "")
    (hslash : name.toList.head? ≠ some '/') (htrailer : name ≠ trailerName) (data : Bytes)
    (rs : List Record) :
    Catalog.registeredFiles (writtenRecord name modeFile data :: rs) =
      (name, data) :: Catalog.registeredFiles rs := by
  have hname : Catalog.nameOfRecord (writtenRecord name modeFile data) = name := by
    have hkept : name.toList.dropWhile (· == '/') = name.toList := by
      cases hchars : name.toList with
      | nil => rfl
      | cons c rest =>
          rw [hchars, List.head?_cons] at hslash
          exact List.dropWhile_cons_of_neg (by simpa using hslash)
    show String.ofList (name.toList.dropWhile (· == '/')) = name
    rw [hkept, String.ofList_toList]
  have hfile : Catalog.isRegistered (writtenRecord name modeFile data) = true := by
    have hregular : (writtenRecord name modeFile data).header.isRegular = true := by
      show (modeFile &&& 0o170000 == 0o100000) = true
      decide
    have hplain : (writtenRecord name modeFile data).isTrailer = false := beq_false_of_ne htrailer
    rw [Catalog.isRegistered, Record.isFile, hregular, hplain, hname]
    exact bne_iff_ne.mpr hempty
  rw [Catalog.registeredFiles, List.filter_cons_of_pos hfile, List.map_cons, hname]
  rfl

theorem registeredFiles_other {r : Record} (h : r.header.isRegular = false) (rs : List Record) :
    Catalog.registeredFiles (r :: rs) = Catalog.registeredFiles rs := by
  rw [Catalog.registeredFiles,
    List.filter_cons_of_neg (by rw [isRegistered_of_not_isRegular h]; decide)]
  rfl

theorem registeredFiles_append (rs others : List Record) :
    Catalog.registeredFiles (rs ++ others) =
      Catalog.registeredFiles rs ++ Catalog.registeredFiles others := by
  rw [Catalog.registeredFiles, List.filter_append, List.map_append]
  rfl

/-- An archive holds the files that its inputs stand for; directories and trailers are none. -/
theorem registeredFiles_laidOutRecords {inputs : List Entry}
    (h : ∀ input ∈ inputs, IsPortable storage good input (content input)) (dirs : Directories)
    (inRun : Bool) :
    Catalog.registeredFiles (laidOutRecords content dirs inRun inputs) =
      inputFiles content inputs := by
  have hdirectory : ∀ (created : List Ancestor) (rs : List Record),
      Catalog.registeredFiles
        (created.map (fun dir => writtenRecord dir.path modeDirectory []) ++ rs) =
          Catalog.registeredFiles rs := by
    intro created rs
    induction created with
    | nil => rfl
    | cons dir rest ih =>
        have hregular : (writtenRecord dir.path modeDirectory []).header.isRegular = false := by
          show (modeDirectory &&& 0o170000 == 0o100000) = false
          decide
        rw [List.map_cons, List.cons_append, registeredFiles_other hregular, ih]
  have htrailer : ∀ (inRun : Bool) (rs : List Record),
      Catalog.registeredFiles ((if inRun then [trailerRecord] else []) ++ rs) =
        Catalog.registeredFiles rs := by
    intro inRun rs
    cases inRun with
    | false => rfl
    | true => exact registeredFiles_other (by decide) rs
  induction inputs generalizing dirs inRun with
  | nil =>
      have hnone := htrailer inRun []
      rw [List.append_nil] at hnone
      rw [laidOutRecords, hnone]
      rfl
  | cons input rest ih =>
      have hothers := ih fun input hinput => h input (List.mem_cons_of_mem _ hinput)
      cases hname : input.name with
      | some name =>
          obtain ⟨hempty, -, hslash, htrailer⟩ := (h input (List.mem_cons_self ..)).name_ok _ hname
          rw [laidOutRecords_named hname, hdirectory, registeredFiles_file hempty hslash htrailer,
            hothers, inputFiles, hname]
          rfl
      | none =>
          rw [laidOutRecords_raw hname, htrailer, registeredFiles_append, hothers, inputFiles,
            hname]

/-! ## Both ways -/

theorem runFrom_lift_action {α : Type} {act : Action σ Failure α} {m m' : Machine σ}
    {outcome : Except Failure α} (h : act.runOn m = (outcome, m')) (c : Catalog) :
    (Gathering.lift act).runFrom c m = ((outcome, c), m') := by
  have hrun : Gathering.runFrom (liftM act.run : Gathering σ (Except Failure α)) c m =
      ((.ok outcome, c), m') := Gathering.runFrom_lift h c
  rw [Gathering.lift, Gathering.runFrom_bind_ok hrun]
  cases outcome <;> rfl

/-- A step on the machine alone that always brings the same value may come first. -/
theorem simulates_lift_right {α β : Type} {act : Gathering σ β} {step : Action σ Failure α}
    {a : α} (hstep : ∀ ⦃m⦄, good m → ∃ m', step.runOn m = (.ok a, m') ∧ good m')
    {f : α → Gathering σ β} (h : Simulates storage good act (f a)) :
    Simulates storage good act (Gathering.lift step >>= f) := by
  intro c c' m m' hcatalog hm hm'
  obtain ⟨m₁, hrun, hm₁⟩ := hstep hm'
  rw [Gathering.runFrom_bind_ok (runFrom_lift_action hrun c')]
  exact h hcatalog hm hm₁

theorem simulates_lift_left {α β : Type} {act : Gathering σ β} {step : Action σ Failure α}
    {a : α} (hstep : ∀ ⦃m⦄, good m → ∃ m', step.runOn m = (.ok a, m') ∧ good m')
    {f : α → Gathering σ β} (h : Simulates storage good (f a) act) :
    Simulates storage good (Gathering.lift step >>= f) act := by
  intro c c' m m' hcatalog hm hm'
  obtain ⟨m₁, hrun, hm₁⟩ := hstep hm
  rw [Gathering.runFrom_bind_ok (runFrom_lift_action hrun c)]
  exact h hcatalog hm₁ hm'

theorem unpack_of_reads (container : Container σ) (settings : Settings) {data : Bytes}
    {expected : List Record} (h : Reads 0 data expected) :
    Catalog.unpack container settings data =
      Catalog.registerAll container settings
        (Catalog.inMemoryFiles (Catalog.registeredFiles expected)) := by
  obtain ⟨rs, hrecords, rfl, -⟩ := h
  have hrecords : records data = rs.map .ok := hrecords
  rw [Catalog.unpack, hrecords, Catalog.registerRecords_eq, Catalog.registeredFiles_map_moveTo]

theorem sameFile_inMemoryFiles (storage : Storage σ) (good : Machine σ → Prop)
    (files : List (String × Bytes)) :
    List.Forall₂ (Catalog.SameFile storage good) (Catalog.inMemoryFiles files)
      (Catalog.inMemoryFiles files) := by
  refine List.forall₂_same.mpr fun file hfile => ?_
  obtain ⟨⟨name, data⟩, -, rfl⟩ := List.mem_map.mp hfile
  exact ⟨rfl, data, honest_memory _ _ _, honest_memory _ _ _⟩

theorem takeInputs_named {settings : Settings} {input : Entry} {name : String}
    (hname : input.name = some name) (rest : List Entry) :
    takeInputs storage fw settings container (input :: rest) =
      Catalog.register container settings name input.source >>= fun _ =>
        takeInputs storage fw settings container rest := by
  rw [takeInputs]
  simp only [hname]

theorem takeInputs_raw {settings : Settings} {input : Entry} (hname : input.name = none)
    (rest : List Entry) :
    takeInputs storage fw settings container (input :: rest) =
      Gathering.lift (loadWhole storage fw input) >>= fun data =>
        Catalog.unpack container settings data >>= fun _ =>
          takeInputs storage fw settings container rest := by
  rw [takeInputs]
  simp only [hname]

/-- Taking inputs one by one agrees with registering their files from memory. -/
theorem simulates_takeInputs (hgood : KeptByReports good) (hfw : fw.Grants good)
    (hcontainer : AnswersByContent storage good container) (settings : Settings)
    {inputs : List Entry} (h : ∀ input ∈ inputs, IsPortable storage good input (content input)) :
    Simulates storage good
      (Catalog.registerAll container { settings with inMemory := true }
        (Catalog.inMemoryFiles (inputFiles content inputs)))
      (takeInputs storage fw { settings with inMemory := false } container inputs) := by
  induction inputs with
  | nil => exact simulates_pure ()
  | cons input rest ih =>
      have hinput := h input (List.mem_cons_self ..)
      have hothers := ih fun input hinput => h input (List.mem_cons_of_mem _ hinput)
      cases hname : input.name with
      | some name =>
          rw [inputFiles, hname, takeInputs_named hname]
          exact simulates_bind
            (Catalog.simulates_register hgood hcontainer (honest_memory _ _ _) hinput.honest
              settings true false name) fun _ => hothers
      | none =>
          have hfiles : Catalog.inMemoryFiles (inputFiles content (input :: rest)) =
              Catalog.inMemoryFiles (Catalog.registeredFiles (archiveRecords (content input))) ++
                Catalog.inMemoryFiles (inputFiles content rest) := by
            rw [inputFiles, hname, Catalog.inMemoryFiles, List.map_append]
            rfl
          rw [hfiles, Catalog.registerAll_append, takeInputs_raw hname]
          refine simulates_lift_right (fun _ hm => runOn_loadWhole hfw hinput.honest hm) ?_
          rw [unpack_of_reads _ _ (hinput.archive_ok hname).reads]
          exact simulates_bind
            (Catalog.simulates_registerAll hgood hcontainer settings true false
              (sameFile_inMemoryFiles ..)) fun _ => hothers

theorem gather_of_ne_nil {settings : Settings} {inputs : List Entry} (hne : inputs ≠ []) :
    gather storage fw settings container inputs =
      if settings.inMemory then
        Gathering.lift (renderInputs storage fw inputs) >>= fun archive =>
          Catalog.unpack container settings archive
      else takeInputs storage fw settings container inputs := by
  cases inputs with
  | nil => exact absurd rfl hne
  | cons input rest => rfl

theorem simulates_gather (hgood : KeptByReports good) (hfw : fw.Grants good)
    (hcontainer : AnswersByContent storage good container) (settings : Settings)
    {inputs : List Entry} (h : ∀ input ∈ inputs, IsPortable storage good input (content input))
    {size : Nat} (hsize : exactStop 0 (layout inputs) = some size) (hlimit : size < 2 ^ 64) :
    Simulates storage good (gather storage fw { settings with inMemory := true } container inputs)
      (gather storage fw { settings with inMemory := false } container inputs) := by
  by_cases hne : inputs = []
  · subst hne
    exact fun _ _ _ _ hcatalog hm hm' =>
      ⟨.error (.input .noFiles), _, _, _, _, rfl, rfl, hcatalog, hm, hm'⟩
  · have hreadable : ∀ input ∈ inputs, input.Readable (content input) := fun input hinput =>
      ⟨(h input hinput).honest.length_eq,
        fun name hname => ((h input hinput).name_ok name hname).2.1,
        (h input hinput).archive_ok⟩
    rw [gather_of_ne_nil hne, gather_of_ne_nil hne, if_pos rfl, if_neg Bool.false_ne_true]
    refine simulates_lift_left (fun _ hm => runOn_renderInputs hgood hfw
      (fun input hinput => (h input hinput).honest) hsize hlimit hm) ?_
    rw [unpack_of_reads _ _ (reads_layout hreadable hsize),
      registeredFiles_laidOutRecords h]
    exact simulates_takeInputs hgood hfw hcontainer settings h

/-- Gathering in memory and on demand agree: both succeed or fail with one cause, and they
leave catalogs with the same names, lengths and patched files in the same order, the same boot
target, and the same outcome of every read inside a file. -/
theorem gathered_alike (hgood : KeptByReports good) (hfw : fw.Grants good)
    (hcontainer : AnswersByContent storage good container) (settings : Settings)
    {inputs : List Entry} (h : ∀ input ∈ inputs, IsPortable storage good input (content input))
    {size : Nat} (hsize : exactStop 0 (layout inputs) = some size) (hlimit : size < 2 ^ 64)
    {m m' : Machine σ} (hm : good m) (hm' : good m') :
    ∃ (outcome : Except Failure Unit) (c c' : Catalog) (n n' : Machine σ),
      (gather storage fw { settings with inMemory := true } container inputs).runFrom
        Catalog.empty m = ((outcome, c), n) ∧
      (gather storage fw { settings with inMemory := false } container inputs).runFrom
        Catalog.empty m' = ((outcome, c'), n') ∧
      c.files.map (fun file => (file.name, file.length, file.patch.isSome)) =
        c'.files.map (fun file => (file.name, file.length, file.patch.isSome)) ∧
      c.boot = c'.boot ∧
      ∀ (i : Nat) (file file' : FileEntry), c.files[i]? = some file → c'.files[i]? = some file' →
        ∀ offset count, offset + count ≤ file.length → ∀ k k', good k → good k' →
          ((file.read storage offset count).runOn k).1 =
            ((file'.read storage offset count).runOn k').1 := by
  obtain ⟨outcome, c, c', n, n', hrun, hrun', halike, -, -⟩ :=
    simulates_gather hgood hfw hcontainer settings h hsize hlimit Catalog.Alike.empty hm hm'
  refine ⟨outcome, c, c', n, n', hrun, hrun', halike.map_eq, halike.boot, ?_⟩
  intro i file file' hfile hfile' offset count hrange k k' hk hk'
  obtain ⟨_, _, _, hread, hread', -, -⟩ :=
    (halike.getElem? hfile hfile').read hk hk' hrange
  rw [hread, hread']

/-- A firmware with as much memory as is asked for, and nothing else of interest. -/
def ampleFirmware : Firmware Unit where
  install _ := pure 0
  allocatePages pages := pure (pages * pageSize)
  loadImage _ _ := pure 0
  imageDevice _ := pure 0
  setImageDevice _ _ := pure ()
  waitForKey := pure ()
  startImage _ := pure Status.notFound

/-- A boot manager in a directory. -/
def managerInput : Entry :=
  { name := some "efi/bootmgfw.efi", path := "bootmgfw", source := .memory [1, 2, 3] }

/-- One file for an archive of its own. -/
def storeInput : Entry := { name := some "BCD", path := "bcd", source := .memory [4] }

/-- An archive without a name that holds one file. -/
def archiveInput : Entry :=
  { name := none, path := "extra", source :=
      .memory (bytesFrom (·.source.held) 0 (layout [storeInput])) }

theorem archiveInput_isAligned : IsAligned archiveInput.source.held := by
  have hsize : exactStop 0 (layout [storeInput]) = some 240 := by decide +kernel
  have hstore : storeInput.Readable storeInput.source.held :=
    ⟨rfl, fun name hname => by cases hname; decide, nofun⟩
  exact (reads_layout (fun input hinput => List.mem_singleton.mp hinput ▸ hstore) hsize).isAligned

theorem manager_and_archive_gathered_alike :
    ∃ (outcome : Except Failure Unit) (c c' : Catalog) (n n' : Machine Unit),
      (gather .absent ampleFirmware { inMemory := true } .opaqueFiles
        [archiveInput, managerInput]).runFrom Catalog.empty { world := () } =
          ((outcome, c), n) ∧
      (gather .absent ampleFirmware { inMemory := false } .opaqueFiles
        [archiveInput, managerInput]).runFrom Catalog.empty { world := () } =
          ((outcome, c'), n') ∧
      c.files.map (fun file => (file.name, file.length, file.patch.isSome)) =
        c'.files.map (fun file => (file.name, file.length, file.patch.isSome)) ∧
      c.boot = c'.boot := by
  have hgood : KeptByReports fun _ : Machine Unit => True := fun _ _ _ _ => trivial
  have hfw : ampleFirmware.Grants fun _ => True := fun pages m _ =>
    ⟨pages * pageSize, m, rfl, Nat.le_refl _, trivial⟩
  have hportable : ∀ input ∈ [archiveInput, managerInput],
      IsPortable .absent (fun _ : Machine Unit => True) input input.source.held := by
    intro input hinput
    rcases List.mem_pair.mp hinput with rfl | rfl
    · exact ⟨honest_memory _ _ _, nofun, fun _ => archiveInput_isAligned⟩
    · refine ⟨honest_memory _ _ _, fun name hname => ?_, nofun⟩
      cases hname
      decide +kernel
  have hsize : exactStop 0 (layout [archiveInput, managerInput]) = some 608 := by decide +kernel
  obtain ⟨outcome, c, c', n, n', hrun, hrun', hfiles, hboot, -⟩ :=
    @gathered_alike _ _ _ _ _ _ hgood hfw (opaqueFiles_answersByContent .absent hgood) {} _
      hportable _ hsize (by decide) { world := () } { world := () } trivial trivial
  exact ⟨outcome, c, c', n, n', hrun, hrun', hfiles, hboot⟩

end BootVolume
