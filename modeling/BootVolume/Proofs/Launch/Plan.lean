import BootVolume.Proofs.Launch.Makes

/-!
# The plan of a launch

With the disk at hand a run publishes the disk and the partition, gets memory for
the boot target, reads and loads it, sets the device of the image to the
partition and starts it.  `launchPlan` lists these events for given answers, and
`Along` says that a run goes through such a list to the first answer that ends
it.  A launch always ends so, since starting the image is the last event and ends
the run whatever comes of it (`makes_launch`).
-/

namespace BootVolume

open Files Image

variable {σ : Type} {out : Surroundings σ}

/-! ## Going along a plan -/

/-- The events go through the planned ones up to a request whose answer ends the run. -/
inductive Along : List Event → List Event → Failure → Prop
  | pass {e : Event} {planned events : List Event} {failure : Failure}
      (passed : e.failure? = none) (rest : Along planned events failure) :
      Along (e :: planned) (e :: events) failure
  | fail {r : Request} {expected answer : r.Answer} {planned : List Event} {failure : Failure}
      (failed : Event.failure? ⟨r, answer⟩ = some failure) :
      Along (⟨r, expected⟩ :: planned) [⟨r, answer⟩] failure

namespace Along

variable {planned events before : List Event} {failure : Failure} {last : Event}

theorem stops (h : Along planned events failure) (own : Failure → Prop) :
    Stops own events failure := by
  induction h with
  | pass passed _ ih => exact ih.append (.singleton passed)
  | fail failed => exact .inl ⟨[], _, rfl, .nil, failed⟩

theorem calls_isPrefix (h : Along planned events failure) :
    firmwareCalls events <+: firmwareCalls planned := by
  induction h with
  | pass passed _ ih =>
      rw [firmwareCalls_cons, firmwareCalls_cons]
      exact (List.prefix_append_right_inj _).mpr ih
  | fail failed =>
      rw [firmwareCalls_cons, firmwareCalls_cons]
      exact (List.prefix_append_right_inj _).mpr List.nil_prefix

/-- An image is only started after all that is planned before. -/
theorem eq_of_start (h : Along (before ++ [last]) events failure)
    (hbefore : ∀ e ∈ before, ∀ image, e.request ≠ .start image) {image : Handle} {status : Status}
    (hmem : ⟨.start image, status⟩ ∈ events) :
    events = before ++ [⟨.start image, status⟩] ∧ last.request = .start image ∧
      Passed before := by
  -- On the planned events before the last: each of them passed, or the run stopped at it.
  induction before generalizing events with
  | nil =>
      cases h with
      | pass passed rest => cases rest
      | fail failed =>
          cases List.mem_singleton.mp hmem
          exact ⟨rfl, rfl, .nil⟩
  | cons e rest ih =>
      have hne := hbefore e (List.mem_cons_self ..) image
      cases h with
      | pass passed hrest =>
          rcases List.mem_cons.mp hmem with rfl | hmem
          · exact absurd rfl hne
          · obtain ⟨rfl, hlast, hpassed⟩ :=
              ih hrest (fun e he => hbefore e (List.mem_cons_of_mem _ he)) hmem
            exact ⟨rfl, hlast, .cons passed hpassed⟩
      | fail failed =>
          cases List.mem_singleton.mp hmem
          exact absurd rfl hne

end Along

/-- The run goes along one of the plans. -/
def Follows (plans : Set (List Event)) (events : List Event) : Except Failure Empty → Prop
  | .error failure => ∃ planned ∈ plans, Along planned events failure
  | .ok never => never.elim

/-- The first request of a plan is made, and if it passes, the rest of the plan is followed. -/
theorem Makes.follows_bind {α : Type} [Inhabited α] {r : Request} {answer : α → r.Answer}
    {act : Action σ Failure α} (h : Makes out (Asked r answer) act) {plans : Set (List Event)}
    {f : α → Action σ Failure Empty}
    (hf : ∀ a, Makes out (Follows {planned | ⟨r, answer a⟩ :: planned ∈ plans}) (f a)) :
    Makes out (Follows plans) (act >>= f) := by
  intro m
  refine h.bind (fun a _ => hf a) ?_ ?_ m
  · rintro events failure ⟨last, rfl, hlast⟩
    -- Some plan starts with this request; which answer it expects there does not matter.
    obtain ⟨_, outcome, _, _, _, hfollows⟩ := hf default m
    cases outcome with
    | error _ =>
        obtain ⟨_, hplanned, -⟩ := hfollows
        exact ⟨_, hplanned, .fail hlast⟩
    | ok never => exact never.elim
  · rintro before after a outcome ⟨rfl, hpass⟩ hrest
    cases outcome with
    | error failure =>
        obtain ⟨planned, hplanned, halong⟩ := hrest
        exact ⟨_, hplanned, .pass hpass halong⟩
    | ok never => exact never.elim

/-! ## The launch -/

/-- The answers to a launch in which nothing fails before the image is started. -/
structure Launched where
  disk : Handle
  partition : Handle
  /-- The number of bytes of memory for the boot image. -/
  granted : Nat
  image : Bytes
  handle : Handle
  /-- The device that the loaded image comes with. -/
  device : Handle
  status : Status

/-- What happens between loading an image and starting it. -/
def settlePlan (settings : Settings) (a : Launched) : List Event :=
  ⟨.getDevice a.handle, .ok a.device⟩ ::
    ((if a.device ≠ a.partition then [⟨.setDevice a.handle a.partition, .ok ()⟩] else []) ++
      if settings.pause then [⟨.key, ()⟩] else [])

/-- The events of a launch up to the start of the image, which is not among them. -/
def readyPlan (settings : Settings) (disk : VirtualDisk) (a : Launched) : List Event :=
  [⟨.install .installDisk (BlockDevice.wholeDisk disk), .ok a.disk⟩,
    ⟨.install .installPartition (BlockDevice.partition disk), .ok a.partition⟩,
    ⟨.allocate "boot image" disk.files.bootTarget.length, .ok a.granted⟩,
    ⟨.read disk.files.bootTarget, .ok a.image⟩,
    ⟨.load ((BlockDevice.partition disk).path.withFile bootFilePath) a.image, .ok a.handle⟩] ++
    settlePlan settings a

/-- The events of a launch: the disk and the partition are published, the boot target is copied
into memory and loaded, the device of the image is set unless it is the partition already, a key
is waited for if the settings say so, and the image is started. -/
def launchPlan (settings : Settings) (disk : VirtualDisk) (a : Launched) : List Event :=
  readyPlan settings disk a ++ [⟨.start a.handle, a.status⟩]

/-- Start a loaded image, after a key if the settings say so. -/
def startWhenReady (fw : Firmware σ) (settings : Settings) (handle : Handle) :
    Action σ Failure Empty := do
  if settings.pause then
    reportInfo (σ := σ) "Press any key to continue booting..."
    fw.waitForKey
  let status ← fw.startImage handle
  throw (.firmware (if status.isError then .startImage else .imageReturned) status)

/-- Starting an image ends the run. -/
theorem makes_startWhenReady (settings : Settings) {handle : Handle} {plans : Set (List Event)}
    (hplans : ∀ status, (if settings.pause then [⟨.key, ()⟩] else []) ++
      [⟨.start handle, status⟩] ∈ plans) :
    Makes out (Follows plans) (startWhenReady out.firmware settings handle) := by
  have hstart : ∀ {plans : Set (List Event)}, (∀ status, [⟨.start handle, status⟩] ∈ plans) →
      Makes out (Follows plans) (do
        let status ← out.firmware.startImage handle
        throw (.firmware (if status.isError then .startImage else .imageReturned) status)) := by
    intro plans hplans m
    rcases hrun : out.firmware.startImage handle m with ⟨status, m'⟩
    have htrace : Trace out [⟨.start handle, status⟩] m m' := .single hrun
    refine ⟨_, .error (.firmware (if status.isError then .startImage else .imageReturned) status),
      m', ?_, htrace, _, hplans status, .fail rfl⟩
    rw [Action.runOn_bind_ok (Action.runOn_lift _ m), hrun]
    rfl
  unfold startWhenReady
  cases hpause : settings.pause with
  | false =>
      rw [hpause] at hplans
      exact hstart hplans
  | true =>
      rw [hpause] at hplans
      have hkey : Makes out (Asked .key fun () => ()) (liftM out.firmware.waitForKey) := fun m =>
        ⟨[⟨.key, ()⟩], .ok (), _, rfl, .single rfl, rfl, rfl⟩
      simp only [if_true]
      refine Makes.after_reports ?_ fun m => .report m _ _
      exact hkey.follows_bind fun _ => hstart hplans

/-- The hand-off in its two parts. -/
theorem handOff_eq (out : Surroundings σ) (target : FileEntry) (path : DevicePath)
    (partition : Handle) (settings : Settings) :
    handOff out.storage out.firmware target path partition settings =
      (do
        let _ ← allocate out.firmware target.length "boot image"
        let image ← Action.mapError (.read target.name) (target.read out.storage 0 target.length)
        let handle ← Action.mapError (.firmware .loadImage) (out.firmware.loadImage path image)
        reportInfo (σ := σ)
          ("loaded " ++ target.name ++ " (" ++ toString target.length ++ " bytes)")
        let device ← Action.mapError (.firmware .handleProtocol) (out.firmware.imageDevice handle)
        if device ≠ partition then
          reportDebug (σ := σ) ("image device " ++ toString device ++ " -> " ++ toString partition)
          Action.mapError (.firmware .handleProtocol)
            (out.firmware.setImageDevice handle partition)
          startWhenReady out.firmware settings handle
        else
          startWhenReady out.firmware settings handle) := rfl

/-- A launch goes along its plan. -/
theorem makes_launch (out : Surroundings σ) (settings : Settings) (disk : VirtualDisk) :
    Makes out (Follows {planned | ∃ a, planned = launchPlan settings disk a})
      (launch out.storage out.firmware settings disk) := by
  have hinstall : ∀ (step : FirmwareStep) (device : BlockDevice),
      Makes out (Asked (.install step device) fun handle => .ok handle)
        (Action.mapError (.firmware step) (out.firmware.install device)) := fun step device =>
    makes_asked (r := .install step device) (fun answer => answer) (fun _ => rfl) (fun _ => rfl)
      fun _ => rfl
  -- One step for each request; what is left of the plan is the list of events still to come.
  unfold launch
  refine (hinstall .installDisk _).follows_bind fun whole => ?_
  refine (hinstall .installPartition _).follows_bind fun partition => ?_
  rw [handOff_eq]
  refine (makes_allocate out _ _).follows_bind fun granted => ?_
  refine (makes_asked (r := .read disk.files.bootTarget) (fun answer => answer) (fun _ => rfl)
    (fun _ => rfl) fun _ => rfl).follows_bind fun image => ?_
  refine (makes_asked (r := .load _ image) (fun answer => answer) (fun _ => rfl) (fun _ => rfl)
    fun _ => rfl).follows_bind fun handle => ?_
  refine Makes.after_reports ?_ fun m => .report m _ _
  refine (makes_asked (r := .getDevice handle) (fun answer => answer) (fun _ => rfl)
    (fun _ => rfl) fun _ => rfl).follows_bind fun device => ?_
  by_cases hdevice : device ≠ partition
  · rw [if_pos hdevice]
    refine Makes.after_reports ?_ fun m => .report m _ _
    refine (makes_asked (r := .setDevice handle partition) (fun answer => answer) (fun _ => rfl)
      (fun _ => rfl) fun _ => rfl).follows_bind fun _ => ?_
    refine makes_startWhenReady settings fun status =>
      ⟨⟨whole, partition, granted, image, handle, device, status⟩, ?_⟩
    rw [launchPlan, readyPlan, settlePlan, if_pos hdevice]
    rfl
  · rw [if_neg hdevice]
    refine makes_startWhenReady settings fun status =>
      ⟨⟨whole, partition, granted, image, handle, device, status⟩, ?_⟩
    rw [launchPlan, readyPlan, settlePlan, if_neg hdevice]
    rfl

end BootVolume
