import BootVolume.Proofs.Launch.Taken
import BootVolume.Proofs.Uefi.Inputs

/-!
# Open files are released once

A run opens the root of its volume and the inputs, and every run ends in a failure.  By then each
file is closed once and for all, except those that the disk goes on reading, which are never closed
(`files_released_once`).  These are the named inputs of a disk that was built on demand, less those
whose name was taken by a later file (`Retained`).

The stages of a run are actions of their own here.  As long as the run gets on it is `Holding` what
it opened so far; where it fails, it closes the files of inputs first and the root last, and makes
no other call any more (`Recorded.run_closing`).
-/

namespace BootVolume.Uefi

open Files Newc

variable {σ : Type} {services : Services σ} {ledger : σ → Ledger} {self : Handle}
  {ids closes : List FileId} {id root : FileId} {m m' m₁ m₂ : Machine σ}
  {settings : Settings} {inputs : List Entry} {disk : Image.VirtualDisk}

/-! ## The stages of a run -/

/-- Find out what the program is asked to do, and the device that it comes from. -/
def readOptions (services : Services σ) (self : Handle) :
    Action σ Failure (Handle × Settings × List FileArgument) := do
  let record ← Action.mapError (.firmware .handleProtocol)
    (findProtocol services self .loadedImage)
  let image ← (Step.outside (services.loadedImage record) : Step σ LoadedImage)
  let options := image.optionText?
  if let some text := options then
    reportDebug (σ := σ) ("load options: " ++ text)
  match Options.parseLine (options.getD "") with
  | .error cause => throw (.input cause)
  | .ok (settings, files) => return (image.device, settings, files)

/-- A run until the root of the volume is open. -/
def openedRoot (services : Services σ) (self : Handle) :
    Action σ Failure (FileId × Settings × List FileArgument) := do
  let (device, settings, arguments) ← readOptions services self
  let root ← openRoot services device
  return (root, settings, arguments)

/-- A run until all its inputs are open. -/
def openedInputs (services : Services σ) (self : Handle) :
    Action σ Failure (Settings × List Entry) := do
  let (root, settings, arguments) ← openedRoot services self
  let inputs ← openInputs services root [] arguments
  return (settings, inputs)

/-- Build a disk from inputs. -/
abbrev buildFrom (services : Services σ) (self : Handle) (settings : Settings)
    (inputs : List Entry) : Action σ Failure Image.VirtualDisk :=
  prepare (storage services) (firmware services self) settings Container.opaqueFiles inputs

/-- A run until its disk is built. -/
def builtDisk (services : Services σ) (self : Handle) : Action σ Failure Image.VirtualDisk := do
  let (settings, inputs) ← openedInputs services self
  buildFrom services self settings inputs

/-- What a run does once the root is open: in the end the root is closed. -/
def bootFrom (services : Services σ) (self : Handle) (root : FileId) (settings : Settings)
    (arguments : List FileArgument) : Action σ Failure Empty := do
  let rest : Action σ Failure Empty := do
    let inputs ← openInputs services root [] arguments
    bootInputs services self settings inputs
  match ← rest.attempt with
  | .error cause =>
      close services root
      throw cause
  | .ok never => nomatch never

theorem run_eq (services : Services σ) (self : Handle) :
    run services self = (openedRoot services self >>= fun (root, settings, arguments) =>
      bootFrom services self root settings arguments) := by
  unfold run openedRoot readOptions bootFrom
  simp only [bind_assoc, pure_bind]
  congr 1
  funext record
  congr 1
  funext image
  -- Options that are there are reported before they are parsed.
  cases image.optionText? with
  | none => cases Options.parseLine _ <;> rfl
  | some text =>
      simp only [bind_assoc]
      congr 1
      funext _
      cases Options.parseLine _ <;> rfl

/-! ## What is open at each stage -/

/-- An input reads no file but its own. -/
theorem within_inputs {input : Entry} (h : input ∈ inputs) (root : FileId) :
    Within (root :: fileIds inputs) input.source :=
  fun _ hid => List.mem_cons_of_mem _ (List.mem_filterMap.mpr ⟨input, h, hid⟩)

/-- The files of a disk read no open files but those of inputs. -/
theorem within_disk
    (h : (buildFrom services self settings inputs).runOn m = (.ok disk, m')) {file : FileEntry}
    (hfile : file ∈ disk.files.files) (root : FileId) :
    Within (root :: fileIds inputs) file.source := by
  intro id hid
  obtain ⟨input, hinput, -, hsource⟩ := exists_input_of_prepare h hfile hid
  exact within_inputs hinput root id (hsource ▸ hid)

namespace Recorded

variable (recorded : Recorded services ledger)
include recorded

theorem keeps_readOptions (self : Handle) :
    (readOptions services self).Keeps (Holding ledger ids) := by
  have hparse : ∀ line device,
      (match Options.parseLine line with
        | .error cause => throw (.input cause)
        | .ok (settings, files) => pure (device, settings, files) :
          Action σ Failure (Handle × Settings × List FileArgument)).Keeps (Holding ledger ids) := by
    intro line device
    cases Options.parseLine line with
    | error cause => exact .throw _
    | ok parsed => exact .pure _
  refine ((recorded.keeps_findProtocol ..).mapError _).bind fun record =>
    (recorded.keeps_loadedImage record).bind fun image => ?_
  dsimp only
  split
  · exact (Action.Keeps.report (Holding.keptByReports ledger _) ..).bind fun _ => hparse ..
  · exact hparse ..

theorem openedRoot_cases (h : Holding ledger [] m) (self : Handle) :
    (∃ root settings arguments m', (openedRoot services self).runOn m =
        (.ok (root, settings, arguments), m') ∧ Holding ledger [root] m') ∨
      ∃ failure m', (openedRoot services self).runOn m = (.error failure, m') ∧
        Holding ledger [] m' := by
  have hoptions := recorded.keeps_readOptions self h
  unfold openedRoot
  rcases hrun : (readOptions services self).runOn m with ⟨failure | ⟨device, given⟩, m₁⟩ <;>
    rw [hrun] at hoptions
  · exact .inr ⟨failure, m₁, Action.runOn_bind_error hrun _, hoptions⟩
  · rw [Action.runOn_bind_ok hrun]
    rcases recorded.opens_openRoot device hoptions with
      ⟨root, m₂, hroot, hopen⟩ | ⟨failure, m₂, hroot, hopen⟩
    · exact .inl ⟨root, given.1, given.2, m₂, Action.runOn_bind_ok hroot _, hopen⟩
    · exact .inr ⟨failure, m₂, Action.runOn_bind_error hroot _, hopen⟩

theorem keeps_buildFrom (self : Handle) (settings : Settings) (inputs : List Entry)
    (root : FileId) :
    (buildFrom services self settings inputs).Keeps (Holding ledger (root :: fileIds inputs)) :=
  BootVolume.keeps_prepare (recorded.keeps_firmware self).allocatePages
    (Holding.keptByReports ledger _) (Container.keeps_opaqueFiles (Holding.keptByReports ledger _))
    fun _ hinput => recorded.keeps_readAt (within_inputs hinput root)

theorem keeps_launch
    (h : (buildFrom services self settings inputs).runOn m = (.ok disk, m')) (root : FileId) :
    (launch (storage services) (firmware services self) settings disk).Keeps
      (Holding ledger (root :: fileIds inputs)) := by
  -- What is read from a published device is read from files of the disk.
  have hpublish : ∀ device : BlockDevice, device.disk = disk →
      (publish services device).Keeps (Holding ledger (root :: fileIds inputs)) := by
    rintro device rfl
    exact recorded.keeps_publish fun r hr file hfile =>
      within_disk h (mem_files_of_prepare h hr hfile) root
  have htarget : disk.files.bootTarget ∈ disk.files.files := List.get_mem ..
  exact BootVolume.keeps_launch (Holding.keptByReports ledger _) (recorded.keeps_firmware self)
    (hpublish _ rfl) (hpublish _ rfl) (recorded.keeps_fileEntry (within_disk h htarget root))

end Recorded

/-! ## The end of a run -/

/-- The inputs that are closed at the end, by whether there is a disk. -/
def unread (outcome : Except Failure Image.VirtualDisk) (inputs : List Entry) : List Entry :=
  match outcome with
  | .error _ => inputs
  | .ok disk => notRetained disk inputs

theorem Recorded.bootInputs_closing (recorded : Recorded services ledger)
    (h : Holding ledger (root :: fileIds inputs) m) (self : Handle) (settings : Settings) :
    ∃ failure m', (bootInputs services self settings inputs).runOn m = (.error failure, m') ∧
      Closing ledger (root :: fileIds inputs)
        (fileIds (unread ((buildFrom services self settings inputs).runOn m).1 inputs)) m' := by
  have hprepared := recorded.keeps_buildFrom self settings inputs root h
  unfold bootInputs
  rw [Action.runOn_attempt_bind]
  rcases hprepare : (buildFrom services self settings inputs).runOn m with ⟨failure | disk, m₁⟩ <;>
    rw [hprepare] at hprepared
  · exact ⟨failure, _, Action.runOn_bind_ok (Action.runOn_lift ..) _,
      recorded.closing_closeInputs hprepared.closing inputs⟩
  · have hlaunched := recorded.keeps_launch hprepare root hprepared
    dsimp only
    rw [Action.runOn_attempt_bind]
    rcases hlaunch : (launch (storage services) (firmware services self) settings disk).runOn m₁
      with ⟨failure | never, m₂⟩ <;> rw [hlaunch] at hlaunched
    · exact ⟨failure, _, Action.runOn_bind_ok (Action.runOn_lift ..) _,
        recorded.closing_closeInputs hlaunched.closing _⟩
    · exact nomatch never

/-! ## The files that stay open -/

/-- The file is still open when the run is over: a disk was built, on demand, the file is that of a
named input, and nothing was registered under the name of the input after it. -/
inductive Retained (services : Services σ) (self : Handle) (m : Machine σ) (id : FileId) : Prop
  | intro {settings : Settings} {inputs : List Entry} {disk : Image.VirtualDisk}
      {registered : List (String × Source)} {input : Entry} {name : String} {c : Catalog}
      {m₁ m₂ m₃ : Machine σ} (hopened : (openedInputs services self).runOn m =
        (.ok (settings, inputs), m₁))
      (hbuilt : (buildFrom services self settings inputs).runOn m₁ = (.ok disk, m₂))
      (hdemand : settings.inMemory = false)
      (htakes : Takes (storage services) (firmware services self) settings inputs .empty
        (announced settings m₁) registered c m₃)
      (hinput : input ∈ inputs) (hname : input.name = some name)
      (hfile : input.source.fileId? = some id)
      (hlast : lastFile? name registered = some (name, input.source))

theorem not_retained_of_failed {failure : Failure}
    (h : (openedInputs services self).runOn m = (.error failure, m')) :
    ¬ Retained services self m id := by
  rintro ⟨hopened, -⟩
  rw [h] at hopened
  cases hopened

theorem Retained.exists_builtDisk (h : Retained services self m id) :
    ∃ disk m', (builtDisk services self).runOn m = (.ok disk, m') := by
  obtain ⟨hopened, hbuilt, -⟩ := h
  exact ⟨_, _, (Action.runOn_bind_ok hopened _).trans hbuilt⟩

theorem retained_iff_mem
    (hopened : (openedInputs services self).runOn m = (.ok (settings, inputs), m₁))
    (hbuilt : (buildFrom services self settings inputs).runOn m₁ = (.ok disk, m₂)) :
    Retained services self m id ↔ ∃ input ∈ inputs, input.source.fileId? = some id ∧
      ∃ file ∈ disk.files.files, file.source = input.source := by
  constructor
  · rintro ⟨hopened', hbuilt', hdemand, htakes, hinput, -, hfile, hlast⟩
    rw [hopened] at hopened'
    cases hopened'
    -- Inputs that are taken from the same machine end in the same catalog.
    obtain ⟨files, c, m₃, htakes', hfiles⟩ := exists_takes_of_prepare hdemand hbuilt
    have hrun := htakes'.runFrom
    rw [htakes.runFrom] at hrun
    cases hrun
    rw [hfiles]
    exact ⟨_, hinput, hfile, (htakes.holds .empty).mem_sources_iff.mpr ⟨_, hlast⟩⟩
  · rintro ⟨input, hinput, hfile, file, hmem, hsource⟩
    rw [← hsource] at hfile
    cases hmode : settings.inMemory with
    | true =>
        rw [fileId?_eq_none_of_prepare hmode hbuilt hmem] at hfile
        cases hfile
    | false =>
        obtain ⟨files, c, m₃, htakes, hfiles⟩ := exists_takes_of_prepare hmode hbuilt
        have hlast := (htakes.holds .empty).last file (hfiles ▸ hmem)
        obtain ⟨owner, howner, hname, hsame⟩ := htakes.exists_input (mem_of_lastFile? hlast) hfile
        exact .intro hopened hbuilt hmode htakes howner hname (hsame ▸ hfile) (hsame ▸ hlast)

theorem mem_fileIds_notRetained : id ∈ fileIds (notRetained disk inputs) ↔
    ∃ input ∈ inputs, input.source.fileId? = some id ∧
      ¬ ∃ file ∈ disk.files.files, file.source = input.source := by
  have hunread : ∀ input : Entry,
      input ∈ notRetained disk inputs ↔
        input ∈ inputs ∧ ¬ ∃ file ∈ disk.files.files, file.source = input.source := by
    intro input
    simp [notRetained]
  simp only [fileIds, List.mem_filterMap, hunread, and_assoc]
  exact exists_congr fun input => and_congr_right fun _ => and_comm

/-- Each file is the file of one input. -/
theorem eq_of_fileId? (h : (fileIds inputs).Nodup) {first second : Entry} (hfirst : first ∈ inputs)
    (hsecond : second ∈ inputs) (hid : first.source.fileId? = some id)
    (hid' : second.source.fileId? = some id) : first = second := by
  by_contra hne
  have hsymm : Std.Symm fun a b : Entry => ∀ i, a.source.fileId? = some i →
      ∀ j, b.source.fileId? = some j → i ≠ j := ⟨fun _ _ hab j hj i hi => (hab i hi j hj).symm⟩
  exact (List.pairwise_filterMap.mp h).forall hfirst hsecond hne id hid id hid' rfl

theorem retained_iff_not_closed (hnodup : (fileIds inputs).Nodup)
    (hopened : (openedInputs services self).runOn m = (.ok (settings, inputs), m₁))
    (hbuilt : (buildFrom services self settings inputs).runOn m₁ = (.ok disk, m₂)) :
    Retained services self m id ↔
      id ∈ fileIds inputs ∧ id ∉ fileIds (notRetained disk inputs) := by
  rw [retained_iff_mem hopened hbuilt, mem_fileIds_notRetained]
  constructor
  · rintro ⟨input, hinput, hfile, hread⟩
    refine ⟨List.mem_filterMap.mpr ⟨input, hinput, hfile⟩, ?_⟩
    rintro ⟨other, hother, hfile', hunread⟩
    exact hunread (eq_of_fileId? hnodup hinput hother hfile hfile' ▸ hread)
  · rintro ⟨hmem, hclosed⟩
    obtain ⟨input, hinput, hfile⟩ := List.mem_filterMap.mp hmem
    refine ⟨input, hinput, hfile, ?_⟩
    by_contra hunread
    exact hclosed ⟨input, hinput, hfile, hunread⟩

/-! ## The whole run -/

/-- Of some files all were closed but the retained ones. -/
structure AllBut (retained : FileId → Prop) (ids closes : List FileId) : Prop where
  nodup : closes.Nodup
  subset : closes ⊆ ids
  retained_iff : ∀ id, retained id ↔ id ∈ ids ∧ id ∉ closes

/-- By these calls all files were released that are not retained. -/
structure Released (retained : FileId → Prop) (calls : List FileCall) : Prop where
  openedFirst : OpenedFirst calls
  /-- No call is made on a file after it was closed. -/
  closedLast : calls.Pairwise fun first second => first ≠ .closed second.file
  atMostOnce : ∀ id, calls.count (.closed id) ≤ 1
  exactlyOnce : ∀ id, .opened id ∈ calls → ¬ retained id → calls.count (.closed id) = 1
  kept : ∀ id, retained id → .opened id ∈ calls ∧ .closed id ∉ calls
  leftOpen : ∀ id, id ∈ openFiles calls ↔ retained id

namespace AllBut

variable {retained : FileId → Prop}

/-- Where nothing is retained, everything is closed. -/
theorem of_perm (hnone : ∀ id, ¬ retained id) (hnodup : ids.Nodup) (hperm : closes.Perm ids) :
    AllBut retained ids closes where
  nodup := hperm.nodup_iff.mpr hnodup
  subset := hperm.subset
  retained_iff id := iff_of_false (hnone id) fun h => h.2 (hperm.mem_iff.mpr h.1)

/-- The root is closed after the others. -/
theorem concat (h : AllBut retained ids closes) (hroot : root ∉ ids) :
    AllBut retained (root :: ids) (closes ++ [root]) where
  nodup :=
    List.nodup_append_comm.mp (List.nodup_cons.mpr ⟨fun hmem => hroot (h.subset hmem), h.nodup⟩)
  subset := List.append_subset.mpr ⟨List.subset_cons_of_subset _ h.subset,
    List.cons_subset.mpr ⟨List.mem_cons_self .., List.nil_subset _⟩⟩
  retained_iff id := by
    rw [h.retained_iff, List.mem_cons, List.mem_append, List.mem_singleton]
    by_cases hid : id = root
    · subst hid
      simp [hroot]
    · simp [hid]

/-- Files of which all but the retained ones were closed in the end were released. -/
theorem released (h : AllBut retained ids closes) (hclosing : Closing ledger ids closes m) :
    Released retained (ledger m.world).calls where
  openedFirst := hclosing.openedFirst h.subset
  closedLast := hclosing.closedLast h.nodup
  atMostOnce id := by
    rw [hclosing.count_closed]
    exact List.nodup_iff_count_le_one.mp h.nodup id
  exactlyOnce id hopened hreleased := by
    rw [hclosing.opened_mem_iff] at hopened
    rw [h.retained_iff] at hreleased
    rw [hclosing.count_closed]
    exact List.count_eq_one_of_mem h.nodup (by_contra fun hopen => hreleased ⟨hopened, hopen⟩)
  kept id hretained := by
    rw [hclosing.opened_mem_iff, hclosing.closed_mem_iff]
    exact (h.retained_iff id).mp hretained
  leftOpen id := by
    rw [hclosing.openFiles_eq, h.retained_iff, List.mem_filter, decide_eq_true_eq]

end AllBut

theorem bootFrom_runOn {failure : Failure} {arguments : List FileArgument}
    (h : (openInputs services root [] arguments >>= bootInputs services self settings).runOn m =
      (.error failure, m')) :
    (bootFrom services self root settings arguments).runOn m =
      (.error failure, { m' with world := services.closeFile root m'.world }) := by
  unfold bootFrom
  rw [Action.runOn_attempt_bind, h]
  exact Action.runOn_bind_ok (Action.runOn_lift ..) _

theorem openedInputs_runOn {arguments : List FileArgument}
    (h : (openedRoot services self).runOn m = (.ok (root, settings, arguments), m₁)) :
    (openedInputs services self).runOn m =
      (((openInputs services root [] arguments).runOn m₁).1.map (settings, ·),
        ((openInputs services root [] arguments).runOn m₁).2) := by
  unfold openedInputs
  rw [Action.runOn_bind_ok h]
  dsimp only
  rw [Action.runOn_bind]
  rcases (openInputs services root [] arguments).runOn m₁ with ⟨_ | _, _⟩ <;> rfl

/-- Whether there is a disk or not, just the retained inputs are not closed. -/
theorem allBut_inputs
    (hopened : (openedInputs services self).runOn m = (.ok (settings, inputs), m₁))
    (hnodup : (fileIds inputs).Nodup) :
    AllBut (Retained services self m) (fileIds inputs)
      (fileIds (unread ((buildFrom services self settings inputs).runOn m₁).1 inputs)) := by
  rcases hbuild : (buildFrom services self settings inputs).runOn m₁ with ⟨failure | disk, m₂⟩
  · refine .of_perm (fun id hretained => ?_) hnodup (.refl _)
    obtain ⟨hopened', hbuilt, -⟩ := hretained
    rw [hopened] at hopened'
    cases hopened'
    rw [hbuild] at hbuilt
    cases hbuilt
  · have hunread : List.Sublist (fileIds (notRetained disk inputs)) (fileIds inputs) :=
      List.filter_sublist.filterMap _
    exact ⟨hnodup.sublist hunread, hunread.subset, fun id =>
      retained_iff_not_closed hnodup hopened hbuild⟩

theorem Recorded.bootFrom_closing (recorded : Recorded services ledger)
    {arguments : List FileArgument} (h : Holding ledger [root] m₁)
    (hroot : (openedRoot services self).runOn m = (.ok (root, settings, arguments), m₁)) :
    ∃ failure m' ids closes,
      (bootFrom services self root settings arguments).runOn m₁ = (.error failure, m') ∧
      Closing ledger (root :: ids) (closes ++ [root]) m' ∧
      AllBut (Retained services self m) ids closes := by
  have hopened := openedInputs_runOn hroot
  have hnone : Holding ledger (root :: fileIds []) m₁ := h
  rcases recorded.openInputs_cases hnone arguments with
    ⟨inputs, m₂, hinputs, h₂⟩ | ⟨failure, m₂, ids, closes, hinputs, hclosing, hperm⟩ <;>
    rw [hinputs] at hopened
  · obtain ⟨failure, m₃, hboot, hclosing⟩ := recorded.bootInputs_closing h₂ self settings
    exact ⟨failure, _, _, _, bootFrom_runOn ((Action.runOn_bind_ok hinputs _).trans hboot),
      recorded.closing_closeFile hclosing root,
      allBut_inputs hopened (List.nodup_cons.mp hclosing.nodup).2⟩
  · refine ⟨failure, _, ids, closes, bootFrom_runOn (Action.runOn_bind_error hinputs _),
      recorded.closing_closeFile hclosing root, ?_⟩
    exact .of_perm (fun id => not_retained_of_failed hopened)
      (List.nodup_cons.mp hclosing.nodup).2 hperm

/-- In the end all files are closed but the retained ones. -/
theorem Recorded.run_closing (recorded : Recorded services ledger) (h : Holding ledger [] m)
    (self : Handle) :
    ∃ failure m' ids closes, (run services self).runOn m = (.error failure, m') ∧
      Closing ledger ids closes m' ∧ AllBut (Retained services self m) ids closes ∧
      ∀ root given m₁, (openedRoot services self).runOn m = (.ok (root, given), m₁) →
        root ∈ closes := by
  rw [run_eq]
  rcases recorded.openedRoot_cases h self with
    ⟨root, settings, arguments, m₁, hroot, h₁⟩ | ⟨failure, m₁, hroot, h₁⟩
  · obtain ⟨failure, m₂, ids, closes, hboot, hclosing, hall⟩ := recorded.bootFrom_closing h₁ hroot
    refine ⟨failure, m₂, _, _, (Action.runOn_bind_ok hroot _).trans hboot, hclosing,
      hall.concat (List.nodup_cons.mp hclosing.nodup).1, fun root' given m' hroot' => ?_⟩
    rw [hroot] at hroot'
    cases hroot'
    exact List.mem_append_right _ (List.mem_singleton_self _)
  · refine ⟨failure, m₁, [], [], Action.runOn_bind_error hroot _, h₁.closing,
      .of_perm (fun id => not_retained_of_failed (Action.runOn_bind_error hroot _))
        List.nodup_nil (.refl _), fun root given m' hroot' => ?_⟩
    rw [hroot] at hroot'
    cases hroot'

/-- Every run ends in a failure, and by then its files are released: the root always, the others
unless they are retained, and if no disk was built no file is left open. -/
theorem files_released_once (recorded : Recorded services ledger) (hquiet : Quiet ledger m)
    (hstart : ledger m.world = {}) (self : Handle) :
    ∃ failure m', (run services self).runOn m = (.error failure, m') ∧
      Released (Retained services self m) (ledger m'.world).calls ∧
      (∀ root given m₁, (openedRoot services self).runOn m = (.ok (root, given), m₁) →
        (ledger m'.world).calls.count (.closed root) = 1) ∧
      ((∀ disk m₁, (builtDisk services self).runOn m ≠ (.ok disk, m₁)) →
        openFiles (ledger m'.world).calls = []) := by
  have hnone : Holding ledger [] m := by
    refine ⟨hquiet, ?_⟩
    rw [hstart]
    exact ⟨.nil, fun device hdevice => absurd hdevice List.not_mem_nil⟩
  obtain ⟨failure, m', ids, closes, hrun, hclosing, hall, hroots⟩ := recorded.run_closing hnone self
  have hreleased := hall.released hclosing
  refine ⟨failure, m', hrun, hreleased, fun root given m₁ hroot => ?_, fun hfailed => ?_⟩
  -- The root is closed, so it is not among the retained files.
  · have hclosed := hroots root given m₁ hroot
    refine hreleased.exactlyOnce root (hclosing.opened_mem_iff.mpr (hall.subset hclosed)) ?_
    rw [hall.retained_iff]
    exact fun hopen => hopen.2 hclosed
  · refine List.eq_nil_iff_forall_not_mem.mpr fun id hopen => ?_
    obtain ⟨disk, m₁, hbuilt⟩ := ((hreleased.leftOpen id).mp hopen).exists_builtDisk
    exact hfailed disk m₁ hbuilt

/-! ### A file whose name is taken again -/

/-- A firmware that is its own ledger.  Every file is there, and three zero bytes long. -/
def zeroVolume (options : String) : Services Ledger where
  hasOutput := true
  hasInput := true
  setWatchdog _ _ _ _ l := (Status.success, l)
  handleProtocol _ _ l := ((Status.success, some 1), l)
  loadedImage _ l := (⟨1, some (Text.utf16 options), 2 * (Text.utf16 options).length⟩, l)
  setImageDevice _ _ l := l
  openVolume _ l := ((Status.success, some (fresh l)), l.note (.opened (fresh l)))
  openFile directory _ _ _ l :=
    ((Status.success, some (fresh l)), (l.note (.used directory)).note (.opened (fresh l)))
  closeFile id l := l.note (.closed id)
  readFile id count l := (.ok (AtMost.slice [0, 0, 0] 0 count), l.note (.used id))
  setPosition id _ l := (Status.success, l.note (.used id))
  getPosition id l := (.ok 3, l.note (.used id))
  setAttribute _ l := l
  outputString _ l := l
  resetInput _ l := l
  waitForKeyEvent _ l := l
  readKey l := l
  installProtocol _ _ what l := (.ok 2, l.published what (.ok 2))
  allocatePages _ _ _ l := (Status.success, l)
  loadImage _ _ _ _ l := (.ok 3, l)
  startImage _ := pure Status.success
where
  /-- A number that no open file has. -/
  fresh (l : Ledger) : FileId := (openFiles l.calls).sum + 1

theorem recorded_zeroVolume (options : String) : Recorded (zeroVolume options) fun l => l where
  openVolume _ _ := rfl
  openFile _ _ _ _ _ := rfl
  newVolume h hopen := by
    cases h
    exact absurd (List.le_sum_of_mem hopen) (by simp [zeroVolume.fresh])
  newFile h hopen := by
    cases h
    exact absurd (List.le_sum_of_mem hopen) (by simp [zeroVolume.fresh])
  closeFile _ _ := rfl
  readFile _ _ _ := rfl
  setPosition _ _ _ := rfl
  getPosition _ _ := rfl
  installProtocol _ _ _ _ := rfl
  startImage _ m := .done m
  handleProtocol _ _ _ := rfl
  loadedImage _ _ := rfl
  setImageDevice _ _ _ := rfl
  allocatePages _ _ _ _ := rfl
  loadImage _ _ _ _ _ := rfl
  setAttribute _ _ := rfl
  outputString _ _ := rfl
  resetInput _ _ := rfl
  waitForKeyEvent _ _ := rfl
  readKey _ := rfl

/-- Options that name a file and, later, another one by the same name. -/
def replacingOptions : String := "wimboot.efi @:bcd:old @:bootmgfw.efi:manager @:BCD:new"

/-- The machine that such a run starts on. -/
def zeroMachine : Machine Ledger where
  world := {}
  sink := Console.sink? (zeroVolume replacingOptions)

/-- The second file is no longer read after the fourth got its name. -/
theorem replaced_file_released :
    Recorded (zeroVolume replacingOptions) (fun l => l) ∧ Quiet (fun l => l) zeroMachine ∧
      zeroMachine.world = {} ∧
      ∃ failure m', (run (zeroVolume replacingOptions) 1).runOn zeroMachine = (.error failure, m') ∧
        Released (Retained (zeroVolume replacingOptions) 1 zeroMachine) m'.world.calls ∧
        m'.world.calls.count (.closed 1) = 1 ∧
        m'.world.calls =
          [.opened 1, .used 1, .opened 2, .used 2, .used 2, .used 2, .used 1, .opened 4, .used 4,
            .used 4, .used 4, .used 1, .opened 8, .used 8, .used 8, .used 8, .used 4, .used 4,
            .closed 2, .closed 1] ∧
        ∀ id, Retained (zeroVolume replacingOptions) 1 zeroMachine id ↔ id = 4 ∨ id = 8 := by
  have hrecorded := recorded_zeroVolume replacingOptions
  have hquiet : Quiet (fun l => l) zeroMachine := hrecorded.quiet_console rfl
  obtain ⟨failure, m', hrun, hreleased, -⟩ := files_released_once hrecorded hquiet rfl 1
  have hcalls : ((run (zeroVolume replacingOptions) 1).runOn zeroMachine).2.world.calls =
      [.opened 1, .used 1, .opened 2, .used 2, .used 2, .used 2, .used 1, .opened 4, .used 4,
        .used 4, .used 4, .used 1, .opened 8, .used 8, .used 8, .used 8, .used 4, .used 4,
        .closed 2, .closed 1] := by
    decide +kernel
  rw [hrun] at hcalls
  refine ⟨hrecorded, hquiet, rfl, failure, m', hrun, hreleased, ?_, hcalls, fun id => ?_⟩
  · rw [hcalls]
    decide
  · rw [← hreleased.leftOpen, hcalls]
    show id ∈ [4, 8] ↔ _
    simp

end BootVolume.Uefi
