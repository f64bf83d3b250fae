import BootVolume.Proofs.Files.InTurn
import BootVolume.Proofs.Image.SparseRead
import BootVolume.Proofs.Launch.Prepared

/-!
# The files of inputs taken one by one

Inputs that are taken one by one register files: a named input itself, under its name, and an
archive its regular files, from memory.  `Takes` follows these registrations from input to input,
and the catalog in the end holds the last file of every name (`Takes.holds`).  So the disk reads
an open file just if the file is a named input and nothing was registered later under its name
(`mem_sources_iff`).

Containers are plain files here: a boot manager taken out of one would be a further registration.
-/

namespace BootVolume

open Files Newc

variable {σ : Type} {storage : Storage σ} {fw : Firmware σ} {settings : Settings}
  {inputs : List Entry} {c c' : Catalog} {m m' : Machine σ} {files others : List (String × Source)}

/-! ## Registrations without containers -/

namespace Files.Catalog

theorem exists_extract_of_mem {container : Container σ} {calls : List ContainerCall}
    (h : Calls container calls m m') {source : Source} {index : UInt32} {path : String}
    {answer : Except ReadError (Option Source)} (hmem : .extract source index path answer ∈ calls) :
    ∃ n n', (container.extract source index path).runOn n = (answer, n') := by
  induction h with
  | nil => cases hmem
  | patch _ _ _ ih =>
      rcases List.mem_cons.mp hmem with heq | hmem
      · cases heq
      · exact ih hmem
  | extract _ call _ ih =>
      rcases List.mem_cons.mp hmem with heq | hmem
      · cases heq
        exact ⟨_, _, call⟩
      · exact ih hmem

/-- Where containers are plain files no search fails, and none finds anything. -/
theorem nothing_taken {r : Registered}
    (h : Calls (.opaqueFiles (σ := σ)) (r.calls settings) m m') :
    r.outcome = .ok () ∧ r.taken? = none := by
  cases hsearch : r.search with
  | none => simp only [Registered.outcome, Registered.taken?, hsearch, and_self]
  | some answer =>
      have hmem : .extract r.source settings.index containerBootPath answer ∈
          r.calls settings := by
        rw [Registered.calls, hsearch]
        exact List.mem_append_right _ (List.mem_singleton_self _)
      obtain ⟨n, n', hanswer⟩ := exists_extract_of_mem h hmem
      obtain rfl : Except.ok none = answer := congrArg Prod.fst hanswer
      simp only [Registered.outcome, Registered.taken?, hsearch, and_self]

/-- A registration adds the file to what the catalog holds, and nothing else. -/
theorem Holds.register {name : String} {source : Source} (h : Holds files c)
    (hrun : (register .opaqueFiles settings name source).runFrom c m = ((.ok (), c'), m')) :
    Holds (files ++ [(name, source)]) c' := by
  obtain ⟨r, m₁, hfile, hregister, hcalls, hasked⟩ :=
    register_eq .opaqueFiles settings c name source m
  have hputs : r.puts = [(name, source)] := by
    rw [Registered.puts, (nothing_taken hcalls).2, hfile]
    rfl
  rw [hregister, (nothing_taken hcalls).1] at hrun
  obtain ⟨hleft, -⟩ := Prod.mk.inj hrun
  obtain ⟨-, hafter⟩ := Prod.mk.inj hleft
  rw [← hafter, ← hputs]
  exact h.change hasked

theorem Holds.registerAll (h : Holds files c)
    (hrun : (registerAll .opaqueFiles settings others).runFrom c m = ((.ok (), c'), m')) :
    Holds (files ++ others) c' := by
  induction others generalizing c m files with
  | nil =>
      cases hrun
      rwa [List.append_nil]
  | cons file rest ih =>
      obtain ⟨⟨⟩, c₁, m₁, hregister, hrest⟩ := Gathering.runFrom_bind_eq_ok hrun
      rw [List.append_cons]
      exact ih (h.register hregister) hrest

/-- The records of an archive that was unpacked to its end are all well-formed. -/
theorem exists_records_of_registerRecords {container : Container σ}
    {records : List (Except ArchiveError Record)}
    (hrun : (registerRecords container settings records).runFrom c m = ((.ok (), c'), m')) :
    ∃ rs : List Record, records = rs.map .ok := by
  induction records generalizing c m with
  | nil => exact ⟨[], rfl⟩
  | cons record rest ih =>
      cases record with
      | error cause => cases hrun
      | ok record =>
          have hrest : ∃ c₁ m₁, (registerRecords container settings rest).runFrom c₁ m₁ =
              ((.ok (), c'), m') := by
            cases hfile : isRegistered record with
            | true =>
                rw [registerRecords_file container settings hfile] at hrun
                obtain ⟨-, c₁, m₁, -, hrest⟩ := Gathering.runFrom_bind_eq_ok hrun
                exact ⟨c₁, m₁, hrest⟩
            | false =>
                rw [registerRecords_other container settings hfile] at hrun
                exact ⟨c, m, hrun⟩
          obtain ⟨c₁, m₁, hrest⟩ := hrest
          obtain ⟨rs, rfl⟩ := ih hrest
          exact ⟨record :: rs, rfl⟩

/-- An archive adds its regular files to what the catalog holds, from memory. -/
theorem Holds.unpack {data : Bytes} {rs : List Record} (h : Holds files c)
    (hrecords : records data = rs.map .ok)
    (hrun : (unpack .opaqueFiles settings data).runFrom c m = ((.ok (), c'), m')) :
    Holds (files ++ inMemoryFiles (registeredFiles rs)) c' := by
  rw [Catalog.unpack, hrecords, registerRecords_eq] at hrun
  exact h.registerAll hrun

end Files.Catalog

/-! ## Inputs one by one -/

/-- Inputs are taken from one catalog and machine to others, and register these files. -/
inductive Takes (storage : Storage σ) (fw : Firmware σ) (settings : Settings) :
    List Entry → Catalog → Machine σ → List (String × Source) → Catalog → Machine σ → Prop
  | nil (c : Catalog) (m : Machine σ) : Takes storage fw settings [] c m [] c m
  | named {input : Entry} {rest : List Entry} {name : String} {files : List (String × Source)}
      {c c₁ c' : Catalog} {m m₁ m' : Machine σ} (hname : input.name = some name)
      (hregister : (Catalog.register .opaqueFiles settings name input.source).runFrom c m =
        ((.ok (), c₁), m₁))
      (hrest : Takes storage fw settings rest c₁ m₁ files c' m') :
      Takes storage fw settings (input :: rest) c m ((name, input.source) :: files) c' m'
  | archive {input : Entry} {rest : List Entry} {data : Bytes} {rs : List Record}
      {files : List (String × Source)} {c c₁ c' : Catalog} {m m₁ m₂ m' : Machine σ}
      (hname : input.name = none) (hload : (loadWhole storage fw input).runOn m = (.ok data, m₁))
      (hrecords : records data = rs.map .ok)
      (hunpack : (Catalog.unpack .opaqueFiles settings data).runFrom c m₁ = ((.ok (), c₁), m₂))
      (hrest : Takes storage fw settings rest c₁ m₂ files c' m') :
      Takes storage fw settings (input :: rest) c m
        (Catalog.inMemoryFiles (Catalog.registeredFiles rs) ++ files) c' m'

namespace Takes

theorem runFrom (h : Takes storage fw settings inputs c m files c' m') :
    (takeInputs storage fw settings .opaqueFiles inputs).runFrom c m = ((.ok (), c'), m') := by
  induction h with
  | nil c m => rfl
  | named hname hregister _ ih =>
      rw [takeInputs_named hname, Gathering.runFrom_bind_ok hregister, ih]
  | archive hname hload hrecords hunpack _ ih =>
      rw [takeInputs_raw hname, Gathering.runFrom_bind_ok (runFrom_lift_action hload _),
        Gathering.runFrom_bind_ok hunpack, ih]

theorem of_runFrom
    (h : (takeInputs storage fw settings .opaqueFiles inputs).runFrom c m = ((.ok (), c'), m')) :
    ∃ files, Takes storage fw settings inputs c m files c' m' := by
  induction inputs generalizing c m with
  | nil =>
      cases h
      exact ⟨[], .nil ..⟩
  | cons input rest ih =>
      cases hname : input.name with
      | some name =>
          rw [takeInputs_named hname] at h
          obtain ⟨⟨⟩, c₁, m₁, hregister, hrest⟩ := Gathering.runFrom_bind_eq_ok h
          obtain ⟨files, hfiles⟩ := ih hrest
          exact ⟨_, .named hname hregister hfiles⟩
      | none =>
          rw [takeInputs_raw hname] at h
          obtain ⟨data, c₁, m₁, hload, h⟩ := Gathering.runFrom_bind_eq_ok h
          obtain ⟨⟨⟩, c₂, m₂, hunpack, hrest⟩ := Gathering.runFrom_bind_eq_ok h
          obtain ⟨rs, hrecords⟩ := Catalog.exists_records_of_registerRecords hunpack
          obtain ⟨files, hfiles⟩ := ih hrest
          rcases hrun : (loadWhole storage fw input).runOn m with ⟨outcome, m₃⟩
          rw [runFrom_lift_action hrun] at hload
          cases hload
          exact ⟨_, .archive hname hrun hrecords hunpack hfiles⟩

theorem holds (h : Takes storage fw settings inputs c m files c' m') (hc : c.Holds others) :
    c'.Holds (others ++ files) := by
  induction h generalizing others with
  | nil c m => rwa [List.append_nil]
  | named hname hregister _ ih =>
      rw [List.append_cons]
      exact ih (hc.register hregister)
  | archive hname hload hrecords hunpack _ ih =>
      rw [← List.append_assoc]
      exact ih (hc.unpack hrecords hunpack)

/-- What is read on demand is a named input. -/
theorem exists_input (h : Takes storage fw settings inputs c m files c' m')
    {name : String} {source : Source} (hmem : (name, source) ∈ files) {id : FileId}
    (hid : source.fileId? = some id) :
    ∃ input ∈ inputs, input.name = some name ∧ input.source = source := by
  induction h with
  | nil c m => cases hmem
  | @named input _ _ _ _ _ _ _ _ _ hname _ _ ih =>
      rcases List.mem_cons.mp hmem with heq | hmem
      · cases heq
        exact ⟨input, List.mem_cons_self .., hname, rfl⟩
      · obtain ⟨input, hinput, hboth⟩ := ih hmem
        exact ⟨input, List.mem_cons_of_mem _ hinput, hboth⟩
  | archive _ _ _ _ _ ih =>
      rcases List.mem_append.mp hmem with hmem | hmem
      · obtain ⟨file, -, heq⟩ := List.mem_map.mp hmem
        cases heq
        cases hid
      · obtain ⟨input, hinput, hboth⟩ := ih hmem
        exact ⟨input, List.mem_cons_of_mem _ hinput, hboth⟩

end Takes

/-- A catalog that holds a history reads a source of the history just if the source is the last
one of its name. -/
theorem Files.Catalog.Holds.mem_sources_iff (h : c.Holds files) {source : Source} :
    (∃ file ∈ c.files, file.source = source) ↔
      ∃ name, lastFile? name files = some (name, source) := by
  constructor
  · rintro ⟨file, hfile, rfl⟩
    exact ⟨file.name, h.last file hfile⟩
  · rintro ⟨name, hlast⟩
    have hname : Text.fold name ∈ c.names := by
      rw [h.names, namesInTurn, List.mem_eraseDups]
      exact List.mem_map.mpr ⟨_, mem_of_lastFile? hlast, rfl⟩
    obtain ⟨file, hfile, hsame⟩ := List.mem_map.mp hname
    have hown := h.last file hfile
    rw [lastFile?_congr ((Text.sameName_iff ..).mpr hsame), hlast] at hown
    exact ⟨file, hfile, (congrArg Prod.snd (Option.some.inj hown)).symm⟩

/-! ## The files of a disk -/

/-- The machine when gathering begins. -/
def announced (settings : Settings) (m : Machine σ) : Machine σ :=
  if settings.gui then m.report .info "graphical boot messages requested" else m

variable {disk : Image.VirtualDisk}

/-- A disk is built for the files that were gathered. -/
theorem exists_gathered_of_prepare {container : Container σ}
    (h : (prepare storage fw settings container inputs).runOn m = (.ok disk, m')) :
    ∃ c m₁ set, (gather storage fw settings container inputs).runFrom .empty
        (announced settings m) = ((.ok (), c), m₁) ∧
      set.files = c.files ∧ disk = Image.assemble set (Image.visibleFiles set).1 := by
  have hprepare : (prepare storage fw settings container inputs).runOn m =
      ((liftM ((gather storage fw settings container inputs).run.run Catalog.empty :
        StateM (Machine σ) (Except Failure Unit × Catalog)) : Action σ Failure _) >>=
          buildGathered).runOn (announced settings m) := by
    unfold prepare announced
    split <;> rfl
  rw [hprepare] at h
  obtain ⟨⟨outcome, c⟩, m₁, hgather, hbuild⟩ := Action.runOn_bind_eq_ok h
  have hgather : (gather storage fw settings container inputs).runFrom .empty
      (announced settings m) = ((outcome, c), m₁) := by
    rw [Action.runOn_lift] at hgather
    obtain ⟨hpair, hmachine⟩ := Prod.mk.inj hgather
    exact Prod.ext (Except.ok.inj hpair) hmachine
  cases outcome with
  | error cause => cases hbuild
  | ok =>
      rw [buildGathered] at hbuild
      cases hfinish : c.finish with
      | error cause =>
          simp only [hfinish] at hbuild
          cases hbuild
      | ok set =>
          simp only [hfinish] at hbuild
          obtain ⟨⟨⟩, m₂, -, hbuild⟩ := Action.runOn_bind_eq_ok hbuild
          exact ⟨c, m₁, set, hgather, Catalog.files_of_finish hfinish,
            (Image.eq_assemble_of_build hbuild).2⟩

/-- Nothing is gathered from no inputs. -/
theorem ne_nil_of_gather {container : Container σ}
    (h : (gather storage fw settings container inputs).runFrom c m = ((.ok (), c'), m')) :
    inputs ≠ [] := by
  have hempty : (gather storage fw settings container []).runFrom c m =
      ((.error (.input .noFiles), c), m) := rfl
  rintro rfl
  rw [hempty] at h
  cases h

/-- On demand the disk reads the last file of every name that was registered. -/
theorem exists_takes_of_prepare (hdemand : settings.inMemory = false)
    (h : (prepare storage fw settings .opaqueFiles inputs).runOn m = (.ok disk, m')) :
    ∃ files c m₁,
      Takes storage fw settings inputs .empty (announced settings m) files c m₁ ∧
      disk.files.files = c.files := by
  obtain ⟨c, m₁, set, hgather, hfiles, rfl⟩ := exists_gathered_of_prepare h
  rw [gather_of_ne_nil (ne_nil_of_gather hgather), hdemand, if_neg Bool.false_ne_true] at hgather
  obtain ⟨files, htakes⟩ := Takes.of_runFrom hgather
  exact ⟨files, c, m₁, htakes, hfiles⟩

/-- In memory mode the disk reads no open file. -/
theorem fileId?_eq_none_of_prepare (hmemory : settings.inMemory = true)
    (h : (prepare storage fw settings .opaqueFiles inputs).runOn m = (.ok disk, m'))
    {file : FileEntry} (hfile : file ∈ disk.files.files) : file.source.fileId? = none := by
  obtain ⟨c, m₁, set, hgather, hfiles, rfl⟩ := exists_gathered_of_prepare h
  rw [gather_of_ne_nil (ne_nil_of_gather hgather), if_pos hmemory] at hgather
  obtain ⟨archive, c₁, m₂, hrender, hunpack⟩ := Gathering.runFrom_bind_eq_ok hgather
  obtain ⟨rs, hrecords⟩ := Catalog.exists_records_of_registerRecords hunpack
  rcases hrun : (renderInputs storage fw inputs).runOn (announced settings m) with ⟨outcome, m₃⟩
  rw [runFrom_lift_action hrun] at hrender
  cases hrender
  have hlast := (Catalog.Holds.empty.unpack hrecords hunpack).last file (hfiles ▸ hfile)
  obtain ⟨stored, -, heq⟩ := List.mem_map.mp (mem_of_lastFile? hlast)
  have hsource : Source.memory stored.2 = file.source := congrArg Prod.snd heq
  rw [← hsource]
  rfl

/-- The open files that a disk reads are inputs. -/
theorem exists_input_of_prepare
    (h : (prepare storage fw settings .opaqueFiles inputs).runOn m = (.ok disk, m'))
    {file : FileEntry} (hfile : file ∈ disk.files.files) {id : FileId}
    (hid : file.source.fileId? = some id) :
    ∃ input ∈ inputs, input.name = some file.name ∧ input.source = file.source := by
  cases hmode : settings.inMemory with
  | true =>
      rw [fileId?_eq_none_of_prepare hmode h hfile] at hid
      cases hid
  | false =>
      obtain ⟨files, c, m₁, htakes, hfiles⟩ := exists_takes_of_prepare hmode h
      have hlast := (htakes.holds .empty).last file (hfiles ▸ hfile)
      exact htakes.exists_input (mem_of_lastFile? hlast) hid

/-- The files in the regions of a disk are files of the disk. -/
theorem mem_files_of_prepare {container : Container σ}
    (h : (prepare storage fw settings container inputs).runOn m = (.ok disk, m'))
    {r : Image.Region} (hr : r ∈ disk.regions) {file : FileEntry}
    (hfile : r.content = .file file) : file ∈ disk.files.files := by
  obtain ⟨c, m₁, set, -, -, rfl⟩ := exists_gathered_of_prepare h
  exact Image.mem_files_of_assemble hr hfile

end BootVolume
