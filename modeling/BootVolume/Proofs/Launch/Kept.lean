import BootVolume.Proofs.Image.Layout
import BootVolume.Proofs.Launch.Observers
import BootVolume.Proofs.Launch.Plan
import BootVolume.Proofs.Launch.Prepared

/-!
# What a boot sequence leaves alone

A boot sequence reads its inputs and the boot target, calls the firmware and reports.  What all
these leave alone, the sequence leaves alone, whether it fails or not: its preparation
(`keeps_prepare`) needs no more than the requests made of the inputs and the calls for memory, and
its launch (`keeps_launch`) no more than the requests made of the boot target and the calls to the
firmware.
-/

namespace BootVolume

open Files Newc

variable {σ ε ε' α β : Type} {storage : Storage σ} {good : Machine σ → Prop} {fw : Firmware σ}
  {container : Container σ} {settings : Settings}

/-! ## Ways of putting actions together -/

namespace Action.Keeps

theorem mapError {act : Action σ ε α} (h : Keeps good act) (f : ε → ε') :
    Keeps good (Action.mapError f act) := by
  intro m hm
  rw [Action.runOn_mapError]
  exact h hm

theorem attempt {act : Action σ ε α} (h : Keeps good act) :
    Keeps good (Action.attempt act : Action σ ε' (Except ε α)) := fun _ hm => h hm

theorem lift {step : Step σ α} (h : ∀ ⦃m⦄, good m → good (step m).2) :
    Keeps good (liftM step : Action σ ε α) := fun _ hm => h hm

theorem report (hgood : KeptByReports good) (level : Level) (line : String) :
    Keeps good (liftM (BootVolume.report (σ := σ) level line) : Action σ ε Unit) :=
  lift fun m hm => hgood m level line hm

end Action.Keeps

theorem Files.KeptByReports.reportAll (hgood : KeptByReports good) (level : Level)
    (lines : List String) {m : Machine σ} (hm : good m) : good (m.reportAll level lines) := by
  induction lines generalizing m with
  | nil => exact hm
  | cons line rest ih => exact ih (hgood m level line hm)

/-- Whatever its outcome is, the step leads from good machines to good machines. -/
def Files.Gathering.Keeps (good : Machine σ → Prop) (act : Gathering σ α) : Prop :=
  ∀ c ⦃m⦄, good m → good (act.runFrom c m).2

namespace Files.Gathering.Keeps

theorem pure (a : α) : Keeps good (Pure.pure a : Gathering σ α) := fun _ _ hm => hm

theorem throw (failure : Failure) : Keeps good (MonadExcept.throw failure : Gathering σ α) :=
  fun _ _ hm => hm

theorem bind {act : Gathering σ α} (h : Keeps good act) {f : α → Gathering σ β}
    (hf : ∀ a, Keeps good (f a)) : Keeps good (act >>= f) := by
  intro c m hm
  have hact := h c hm
  rcases hrun : act.runFrom c m with ⟨⟨e | a, c'⟩, m'⟩ <;> rw [hrun] at hact
  · rw [Gathering.runFrom_bind_error hrun]
    exact hact
  · rw [Gathering.runFrom_bind_ok hrun]
    exact hf a c' hact

theorem lift {act : Action σ Failure α} (h : act.Keeps good) :
    Keeps good (Gathering.lift act) := by
  intro c m hm
  rcases hrun : act.runOn m with ⟨outcome, m'⟩
  have hact := h hm
  rw [hrun] at hact
  rw [runFrom_lift_action hrun c]
  exact hact

end Files.Gathering.Keeps

/-! ## Registrations -/

/-- Nothing that is asked of a container format leads away from good machines. -/
structure Files.Container.Keeps (container : Container σ) (good : Machine σ → Prop) : Prop where
  patch : ∀ source settings ⦃m⦄, good m → good (container.patch source settings m).2
  extract : ∀ source index path, (container.extract source index path).Keeps good

theorem Files.Container.keeps_opaqueFiles (hgood : KeptByReports good) :
    (Container.opaqueFiles (σ := σ)).Keeps good where
  patch _ _ _ hm := hm
  extract _ _ _ := (Action.Keeps.report hgood ..).bind fun _ => .pure _

theorem Files.Calls.keeps (hgood : KeptByReports good) (hcontainer : container.Keeps good)
    {calls : List ContainerCall} {m m' : Machine σ} (h : Calls container calls m m')
    (hm : good m) : good m' := by
  induction h with
  | nil reported => exact reported.keeps hgood hm
  | @patch m m₁ m₂ m' source settings answer calls reported call _ ih =>
      have hm₂ := hcontainer.patch source settings (reported.keeps hgood hm)
      rw [call] at hm₂
      exact ih hm₂
  | @extract m m₁ m₂ m' source index path answer calls reported call _ ih =>
      have hm₂ := hcontainer.extract source index path (reported.keeps hgood hm)
      rw [call] at hm₂
      exact ih hm₂

section Gather

variable (hgood : KeptByReports good) (hcontainer : container.Keeps good)
include hgood hcontainer

theorem keeps_register (settings : Settings) (name : String) (source : Source) :
    (Catalog.register container settings name source).Keeps good := by
  intro c m hm
  obtain ⟨r, m', -, hrun, hcalls, -⟩ := Catalog.register_eq container settings c name source m
  rw [hrun]
  exact hcalls.keeps hgood hcontainer hm

theorem keeps_registerRecords (settings : Settings) (records : List (Except ArchiveError Record)) :
    (Catalog.registerRecords container settings records).Keeps good := by
  induction records with
  | nil => exact .pure ()
  | cons record rest ih =>
      cases record with
      | error cause => exact .throw _
      | ok record =>
          cases hfile : Catalog.isRegistered record with
          | true =>
              rw [Catalog.registerRecords_file container settings hfile]
              exact Gathering.Keeps.bind (keeps_register hgood hcontainer _ _ _) fun _ => ih
          | false =>
              rw [Catalog.registerRecords_other container settings hfile]
              exact ih

end Gather

/-! ## Inputs -/

section Prepare

variable (hmemory : ∀ pages, (fw.allocatePages pages).Keeps good)
include hmemory

theorem keeps_allocate (length : Nat) (what : String) : (allocate fw length what).Keeps good := by
  unfold allocate
  refine ((hmemory _).mapError _).bind fun granted => ?_
  split
  · exact (Action.Keeps.throw _).bind fun _ => .pure _
  · exact .pure _

theorem keeps_loadWhole {input : Entry}
    (hread : ∀ offset count, (input.source.readAt storage offset count).Keeps good) :
    (loadWhole storage fw input).Keeps good :=
  (keeps_allocate hmemory ..).bind fun _ => (Source.keeps_readRest hread ..).mapError _

omit hmemory in
theorem keeps_renderFrom {pieces : List Piece}
    (hread : ∀ input, .content input ∈ pieces →
      ∀ offset count, (input.source.readAt storage offset count).Keeps good)
    (available position : Nat) : (renderFrom storage available position pieces).Keeps good := by
  induction pieces generalizing position with
  | nil => exact .pure _
  | cons piece rest ih =>
      have hothers := ih fun input hinput => hread input (List.mem_cons_of_mem _ hinput)
      have hreserve : ∀ position count,
          (liftM (reserve available position count) : Action σ RenderError Unit).Keeps good := by
        intro position count m hm
        cases reserve available position count <;> exact hm
      refine Action.Keeps.bind ?_ fun head => (hothers _).bind fun _ => .pure _
      cases piece with
      | align => exact (hreserve ..).bind fun _ => .pure _
      | bytes data => exact (hreserve ..).bind fun _ => .pure _
      | content input =>
          exact (hreserve ..).bind fun _ =>
            (Source.keeps_readRest (hread input (List.mem_cons_self ..)) ..).mapError _
      | refusal cause => exact .throw _

theorem keeps_renderInputs (hgood : KeptByReports good) {inputs : List Entry}
    (hread : ∀ input ∈ inputs,
      ∀ offset count, (input.source.readAt storage offset count).Keeps good) :
    (renderInputs storage fw inputs).Keeps good := by
  unfold renderInputs
  cases measure inputs with
  | error cause => exact .throw _
  | ok size =>
      have hrender : ∀ buffer, (render storage inputs buffer).Keeps good := fun buffer =>
        (keeps_renderFrom (fun input hinput => hread input (mem_of_content_mem hinput)) ..).bind
          fun _ => .pure _
      exact (keeps_allocate hmemory ..).bind fun _ => ((hrender _).mapError _).bind fun _ =>
        (Action.Keeps.report hgood ..).bind fun _ => .pure _

variable (hgood : KeptByReports good) (hcontainer : container.Keeps good)
include hgood hcontainer

theorem keeps_takeInputs {inputs : List Entry}
    (hread : ∀ input ∈ inputs,
      ∀ offset count, (input.source.readAt storage offset count).Keeps good) :
    (takeInputs storage fw settings container inputs).Keeps good := by
  induction inputs with
  | nil => exact .pure ()
  | cons input rest ih =>
      have hothers := ih fun input hinput => hread input (List.mem_cons_of_mem _ hinput)
      cases hname : input.name with
      | some name =>
          rw [takeInputs_named hname]
          exact Gathering.Keeps.bind (keeps_register hgood hcontainer _ _ _) fun _ => hothers
      | none =>
          rw [takeInputs_raw hname]
          exact (Gathering.Keeps.lift
            (keeps_loadWhole hmemory (hread input (List.mem_cons_self ..)))).bind fun _ =>
              .bind (keeps_registerRecords hgood hcontainer _ _) fun _ => hothers

theorem keeps_gather (settings : Settings) {inputs : List Entry}
    (hread : ∀ input ∈ inputs,
      ∀ offset count, (input.source.readAt storage offset count).Keeps good) :
    (gather storage fw settings container inputs).Keeps good := by
  by_cases hempty : inputs = []
  · subst hempty
    exact .throw _
  · rw [gather_of_ne_nil hempty]
    split
    · exact (Gathering.Keeps.lift (keeps_renderInputs hmemory hgood hread)).bind fun _ =>
        keeps_registerRecords hgood hcontainer _ _
    · exact keeps_takeInputs hmemory hgood hcontainer hread

omit hmemory hcontainer in
theorem keeps_build (set : FileSet) : (Image.VirtualDisk.build (σ := σ) set).Keeps good := by
  intro m hm
  obtain ⟨notes, hrun⟩ := Image.build_runOn set m
  have hwarned := hgood.reportAll .warn (Image.visibleFiles set).2 hm
  rw [hrun]
  split
  · exact hwarned
  · exact hgood.reportAll .debug notes hwarned

theorem keeps_prepare {inputs : List Entry}
    (hread : ∀ input ∈ inputs,
      ∀ offset count, (input.source.readAt storage offset count).Keeps good) :
    (prepare storage fw settings container inputs).Keeps good := by
  have hbuild : ∀ gathered, (buildGathered (σ := σ) gathered).Keeps good := by
    rintro ⟨cause | -, c⟩
    · exact .throw _
    · rw [buildGathered]
      cases c.finish with
      | error cause => exact .throw _
      | ok set => exact (Action.Keeps.report hgood ..).bind fun _ => keeps_build hgood set
  have hgathered := (Action.Keeps.lift fun m hm =>
    keeps_gather hmemory hgood hcontainer settings hread Catalog.empty hm).bind hbuild
  unfold prepare
  split
  · exact (Action.Keeps.report hgood ..).bind fun _ => hgathered
  · exact hgathered

end Prepare

/-! ## The launch -/

/-- No call to the firmware leads away from good machines.  The publication of a device is not
among these calls. -/
structure Firmware.Keeps (fw : Firmware σ) (good : Machine σ → Prop) : Prop where
  allocatePages : ∀ pages, (fw.allocatePages pages).Keeps good
  loadImage : ∀ path image, (fw.loadImage path image).Keeps good
  imageDevice : ∀ image, (fw.imageDevice image).Keeps good
  setImageDevice : ∀ image device, (fw.setImageDevice image device).Keeps good
  waitForKey : ∀ ⦃m⦄, good m → good (fw.waitForKey m).2
  startImage : ∀ image ⦃m⦄, good m → good (fw.startImage image m).2

section Launch

variable (hgood : KeptByReports good) (hfw : fw.Keeps good)
include hgood hfw

theorem keeps_startWhenReady (settings : Settings) (handle : Handle) :
    (startWhenReady fw settings handle).Keeps good := by
  have hstart : (do
      let status ← fw.startImage handle
      throw (.firmware (if status.isError then .startImage else .imageReturned) status) :
        Action σ Failure Empty).Keeps good :=
    (Action.Keeps.lift fun _ hm => hfw.startImage handle hm).bind fun _ => .throw _
  unfold startWhenReady
  split
  · exact (Action.Keeps.report hgood ..).bind fun _ =>
      (Action.Keeps.lift fun _ hm => hfw.waitForKey hm).bind fun _ => hstart
  · exact hstart

theorem keeps_handOff {target : FileEntry}
    (hread : ∀ offset count, (target.read storage offset count).Keeps good) (path : DevicePath)
    (partition : Handle) : (handOff storage fw target path partition settings).Keeps good := by
  rw [handOff_eq ⟨storage, fw, .opaqueFiles⟩]
  refine (keeps_allocate hfw.allocatePages ..).bind fun _ => ?_
  refine ((hread ..).mapError _).bind fun image => ?_
  refine ((hfw.loadImage ..).mapError _).bind fun handle => ?_
  refine (Action.Keeps.report hgood ..).bind fun _ => ?_
  refine ((hfw.imageDevice ..).mapError _).bind fun device => ?_
  have hready := keeps_startWhenReady hgood hfw settings handle
  split
  · exact (Action.Keeps.report hgood ..).bind fun _ =>
      ((hfw.setImageDevice ..).mapError _).bind fun _ => hready
  · exact hready

theorem keeps_launch {disk : Image.VirtualDisk}
    (hdisk : (fw.install (BlockDevice.wholeDisk disk)).Keeps good)
    (hpartition : (fw.install (BlockDevice.partition disk)).Keeps good)
    (hread : ∀ offset count, (disk.files.bootTarget.read storage offset count).Keeps good) :
    (launch storage fw settings disk).Keeps good :=
  (hdisk.mapError _).bind fun _ => (hpartition.mapError _).bind fun _ =>
    keeps_handOff hgood hfw hread ..

end Launch

/-! ## Reads of a disk -/

/-- What a region holds of a file is read from the file, and nothing else is read at all. -/
theorem keeps_overlay {regions : List Image.Region}
    (hread : ∀ r ∈ regions, ∀ file, r.content = .file file →
      ∀ offset count, (file.read storage offset count).Keeps good)
    (table : Fat.Table) (start stop : Nat) (buffer : Bytes) :
    (Image.overlay storage table start stop buffer regions).Keeps good := by
  induction regions generalizing buffer with
  | nil => exact .pure _
  | cons r rest ih =>
      have hothers := ih fun r hr => hread r (List.mem_cons_of_mem _ hr)
      have hregion := hread r (List.mem_cons_self ..)
      unfold Image.overlay
      dsimp only
      split
      · refine Action.Keeps.bind ?_ fun data => hothers _
        cases hcontent : r.content with
        | bytes data => exact .pure _
        | table => exact .pure _
        | file file => exact hregion file hcontent ..
      · exact hothers _

/-- A read of a device reads files of its disk and reports. -/
theorem keeps_read (hgood : KeptByReports good) {device : BlockDevice}
    (hread : ∀ r ∈ device.disk.regions, ∀ file, r.content = .file file →
      ∀ offset count, (file.read storage offset count).Keeps good)
    (medium : UInt32) (block count : Nat) :
    (device.read storage medium block count).Keeps good := by
  have hdisk : ∀ offset, (device.disk.read storage offset count).Keeps good := by
    intro offset
    unfold Image.VirtualDisk.read
    dsimp only
    split
    · exact .throw _
    · refine keeps_overlay (fun r hr => hread r ?_) ..
      exact (List.drop_sublist ..).subset ((List.takeWhile_sublist _).subset hr)
  unfold BlockDevice.read
  split
  · exact .throw _
  split
  · exact .throw _
  split
  · exact .throw _
  refine (hdisk _).attempt.bind fun outcome => ?_
  cases outcome with
  | ok data => exact .pure _
  | error cause => exact (Action.Keeps.report hgood ..).bind fun _ => .throw _

end BootVolume
