import BootVolume.Proofs.Launch.Observers
import BootVolume.Proofs.Launch.Plan
import BootVolume.Proofs.Launch.Prepared

/-!
# The boot protocol

`boot_protocol` puts the preparation and the launch together.  Whatever the
outside world answers, a whole run is a `BootRun`: it makes the calls to the
firmware in one fixed order, stops at the first answer that ends it with the
failure of that answer, and starts no image but the boot target, with the
partition as its device.

That the device is the partition needs a firmware that keeps devices
(`KeepsDevices`): the run asks for the device once, and sets it if the answer is
another one.
-/

namespace BootVolume

open Files Image

variable {σ : Type} {out : Surroundings σ}

/-! ## The device of the image -/

/-- On good machines the firmware keeps the device of every image: it can be read and written,
waiting for a key leaves it alone, and so does everything outside the firmware. -/
structure KeepsDevices (out : Surroundings σ) (good : Machine σ → Prop)
    (device : Machine σ → Handle → Handle) : Prop where
  apart : ∀ devices, Undisturbed out fun m => good m ∧ device m = devices
  firmware : ∀ (r : Request), r.call? ≠ none → ∀ ⦃m⦄, good m → good (r.perform out m).2
  get : ∀ {image answer : Handle} {m m' : Machine σ}, good m →
    (out.firmware.imageDevice image).runOn m = (.ok answer, m') →
      answer = device m image ∧ device m' = device m
  set : ∀ {image answer : Handle} {m m' : Machine σ}, good m →
    (out.firmware.setImageDevice image answer).runOn m = (.ok (), m') →
      device m' = Function.update (device m) image answer
  key : ∀ ⦃m⦄, good m → device (out.firmware.waitForKey m).2 = device m

namespace KeepsDevices

variable {good : Machine σ → Prop} {device : Machine σ → Handle → Handle} {m m' : Machine σ}

theorem reported (hkeeps : KeepsDevices out good device) (h : Reported m m') (hm : good m) :
    good m' ∧ device m' = device m :=
  h.keeps (hkeeps.apart (device m)).report ⟨hm, rfl⟩

theorem preserves (hkeeps : KeepsDevices out good device) : Preserves out good :=
  { Undisturbed.of_apart hkeeps.apart with firmware := hkeeps.firmware }

/-- Waiting for a key leaves the devices alone. -/
theorem paused (hkeeps : KeepsDevices out good device) {pause : Bool}
    (h : Trace out (if pause then [⟨.key, ()⟩] else []) m m') (hm : good m) :
    device m' = device m := by
  cases pause with
  | false =>
      cases h with
      | nil reported => exact (hkeeps.reported reported hm).2
  | true =>
      cases h with
      | @cons _ m₁ m₂ _ _ _ reported performed rest =>
          cases rest with
          | nil reported' =>
              obtain ⟨hm₁, hdevice⟩ := hkeeps.reported reported hm
              have hkey : (out.firmware.waitForKey m₁).2 = m₂ := congrArg Prod.snd performed
              have hm₂ : good m₂ := hkey ▸ hkeeps.firmware .key nofun hm₁
              calc device m' = device m₂ := (hkeeps.reported reported' hm₂).2
                _ = device (out.firmware.waitForKey m₁).2 := by rw [hkey]
                _ = device m₁ := hkeeps.key hm₁
                _ = device m := hdevice

/-- An image that is ready to be started comes from the partition: either it did so when it was
loaded, or its device was set. -/
theorem settled (hkeeps : KeepsDevices out good device) {settings : Settings} {a : Launched}
    (h : Trace out (settlePlan settings a) m m') (hm : good m) :
    device m' a.handle = a.partition := by
  unfold settlePlan at h
  cases h with
  | @cons _ m₁ m₂ _ _ _ reported₀ asked rest =>
      have hm₁ : good m₁ := (hkeeps.reported reported₀ hm).1
      obtain ⟨hanswer, hasked⟩ := hkeeps.get hm₁ asked
      have hm₂ : good m₂ := (Trace.single asked).keeps hkeeps.preserves hm₁
      -- The key changes nothing, so it is enough to look at the machine before it.
      obtain ⟨m₃, hset, hpause⟩ := rest.split
      rw [hkeeps.paused hpause (hset.keeps hkeeps.preserves hm₂)]
      by_cases hdevice : a.device ≠ a.partition
      · rw [if_pos hdevice] at hset
        cases hset with
        | @cons _ n n' _ _ _ reported performed rest =>
            have hn : good n := (hkeeps.reported reported hm₂).1
            have hn' : good n' := (Trace.single performed).keeps hkeeps.preserves hn
            cases rest with
            | nil reported' =>
                rw [(hkeeps.reported reported' hn').2, hkeeps.set hn performed,
                  Function.update_self]
      · rw [if_neg hdevice] at hset
        cases hset with
        | nil reported =>
            rw [(hkeeps.reported reported hm₂).2, hasked, ← hanswer]
            exact not_not.mp hdevice

end KeepsDevices

/-! ## The whole run -/

/-- How a whole run goes. -/
structure BootRun (out : Surroundings σ) (settings : Settings) (inputs : List Newc.Entry)
    (m m' : Machine σ) (events : List Event) (failure : Failure) : Prop where
  /-- The run makes these events. -/
  trace : Trace out events m m'
  /-- Whoever observes the firmware sees the calls among them and no others. -/
  observed : ∀ good log, Observes out good log → good m →
    log m' = log m ++ firmwareCalls events
  /-- The run stops right after the first answer that ends it, with the failure of that answer; or
  it stops with a failure of its own, after answers that all passed. -/
  stops : Stops (IsOwn settings inputs) events failure
  /-- The calls are the first ones for memory to gather the inputs; or the disk was built after
  all these, and the run went along the plan of its launch. -/
  calls : firmwareCalls events <+: gatherCalls settings inputs ∨
    ∃ disk answers prepared launched m₁,
      (prepare out.storage out.firmware settings out.container inputs).runOn m = (.ok disk, m₁) ∧
      events = prepared ++ launched ∧ Passed prepared ∧
      firmwareCalls prepared = gatherCalls settings inputs ∧
      Along (launchPlan settings disk answers) launched failure ∧
      firmwareCalls events <+:
        gatherCalls settings inputs ++ firmwareCalls (launchPlan settings disk answers)
  /-- Where the inputs are at fault, the firmware was called for memory alone. -/
  input : ∀ cause, failure = .input cause →
    ∀ call ∈ firmwareCalls events, ∃ pages, call = .allocatePages pages
  /-- The run does not go on with memory that is shorter than it asked for. -/
  memory : ∀ what length granted, ⟨.allocate what length, .ok granted⟩ ∈ events →
    length ≤ granted ∨ failure = .allocation what length none
  /-- The part of the memory that an archive takes up lies inside the memory. -/
  archive : ∀ size rendered n n', Newc.measure inputs = .ok size →
    (Newc.render out.storage inputs (Bytes.zeros size.toNat)).runOn n = (.ok rendered, n') →
    rendered.written ≤ size.toNat
  /-- An image is started last, it was loaded from what was read of the whole boot target, and
  its device is the partition. -/
  started : ∀ handle status, ⟨.start handle, status⟩ ∈ events →
    ∃ disk m₁ image partition before,
      (prepare out.storage out.firmware settings out.container inputs).runOn m = (.ok disk, m₁) ∧
      events = before ++ [⟨.start handle, status⟩] ∧
      ⟨.install .installPartition (BlockDevice.partition disk), .ok partition⟩ ∈ before ∧
      ⟨.read disk.files.bootTarget, .ok image⟩ ∈ before ∧
      image.length = disk.files.bootTarget.length ∧
      ⟨.load ((BlockDevice.partition disk).path.withFile bootFilePath) image, .ok handle⟩ ∈ before ∧
      ∃ m₂, Trace out before m m₂ ∧ (out.firmware.startImage handle m₂).1 = status ∧
        ∀ good device, KeepsDevices out good device → good m → device m₂ handle = partition

/-- No answer puts the blame on the inputs. -/
theorem Event.failure?_ne_input (e : Event) (cause : InputError) :
    e.failure? ≠ some (.input cause) := by
  intro h
  obtain ⟨r, answer⟩ := e
  have hother : ∀ {ε α : Type} {wrap : ε → Failure} {answer : Except ε α},
      (∀ e, wrap e ≠ .input cause) → failureOf wrap answer ≠ some (.input cause) := by
    intro ε α wrap answer hwrap h
    cases answer with
    | error e => exact hwrap e (Option.some.inj h)
    | ok a => cases h
  cases r with
  | allocate what length =>
      cases answer with
      | error status => cases h
      | ok granted =>
          simp only [Event.failure?] at h
          split at h <;> cases h
  | read file => exact hother nofun h
  | patch source settings => cases h
  | extract name source index path => exact hother nofun h
  | install step device => exact hother nofun h
  | load path image => exact hother nofun h
  | getDevice image => exact hother nofun h
  | setDevice image device => exact hother nofun h
  | key => cases h
  | start image => cases h

/-- Memory that is too short ends a run. -/
theorem Stops.memory {own : Failure → Prop} {events : List Event} {failure : Failure}
    (h : Stops own events failure) {what : String} {length granted : Nat}
    (hmem : ⟨.allocate what length, .ok granted⟩ ∈ events) :
    length ≤ granted ∨ failure = .allocation what length none := by
  have hfailure := Event.failure?_allocate what length granted
  by_cases hshort : granted < length
  · rw [if_pos hshort] at hfailure
    rcases h with ⟨before, last, rfl, hbefore, hlast⟩ | ⟨hpassed, -⟩
    · rcases List.mem_append.mp hmem with hmem | hmem
      · rw [hbefore _ hmem] at hfailure
        cases hfailure
      · rw [List.mem_singleton.mp hmem, hlast] at hfailure
        exact .inr (Option.some.inj hfailure)
    · rw [hpassed _ hmem] at hfailure
      cases hfailure
  · exact .inl (Nat.not_lt.mp hshort)

/-- An archive that was rendered lies inside the memory of the measured size. -/
theorem written_le {storage : Storage σ} {inputs : List Newc.Entry} {size : UInt64}
    (hsize : Newc.measure inputs = .ok size) {rendered : Newc.Rendered} {m m' : Machine σ}
    (h : (Newc.render storage inputs (Bytes.zeros size.toNat)).runOn m = (.ok rendered, m')) :
    rendered.written ≤ size.toNat := by
  obtain ⟨total, htotal⟩ := Newc.exists_exactStop hsize 0
  rw [Newc.render, Bytes.length_zeros] at h
  obtain ⟨archive, m₁, harchive, hrest⟩ := Action.runOn_bind_eq_ok h
  obtain ⟨hlength, hfits⟩ := Newc.length_of_renderFrom htotal (Nat.zero_le _) harchive
  cases hrest
  rw [Nat.zero_add] at hlength
  exact hlength ▸ hfits

section Start

variable {prepared : List Event} {settings : Settings} {inputs : List Newc.Entry}

/-- No image is started while the inputs are gathered. -/
theorem start_not_mem (h : firmwareCalls prepared <+: gatherCalls settings inputs)
    (handle : Handle) (status : Status) : ⟨.start handle, status⟩ ∉ prepared := by
  intro hmem
  have hcall : .startImage handle ∈ firmwareCalls prepared :=
    List.mem_filterMap.mpr ⟨_, hmem, rfl⟩
  obtain ⟨pages, hpages⟩ := allocation_of_mem_gatherCalls (h.subset hcall)
  cases hpages

theorem start_not_mem_readyPlan (settings : Settings) (disk : VirtualDisk) (a : Launched) :
    ∀ e ∈ readyPlan settings disk a, ∀ image, e.request ≠ .start image := by
  intro e he image hstart
  simp only [readyPlan, settlePlan, List.mem_append, List.mem_cons, List.not_mem_nil, or_false,
    List.mem_ite_nil_right] at he
  rcases he with (rfl | rfl | rfl | rfl | rfl) | rfl | ⟨-, rfl⟩ | ⟨-, rfl⟩ <;> cases hstart

/-- A launch that comes to the start of an image has done everything before it, and leaves the
image with the partition as its device. -/
theorem started_of_along {disk : VirtualDisk} {a : Launched} {launched : List Event}
    {failure : Failure} (h : Along (launchPlan settings disk a) launched failure)
    {handle : Handle} {status : Status} (hmem : ⟨.start handle, status⟩ ∈ launched)
    {m m' : Machine σ} (htrace : Trace out launched m m') :
    launched = readyPlan settings disk a ++ [⟨.start handle, status⟩] ∧ a.handle = handle ∧
      a.image.length = disk.files.bootTarget.length ∧
      ∃ m₁, Trace out (readyPlan settings disk a) m m₁ ∧
        (out.firmware.startImage handle m₁).1 = status ∧
        ∀ good device, KeepsDevices out good device → good m →
          device m₁ handle = a.partition := by
  obtain ⟨rfl, hlast, -⟩ := h.eq_of_start (start_not_mem_readyPlan settings disk a) hmem
  cases hlast
  obtain ⟨m₀, hready, hstart⟩ := htrace.split
  cases hstart with
  | @cons _ m₁ m₂ _ _ _ reported performed _ =>
      refine ⟨rfl, rfl, ?_, m₁, hready.then_reported reported, congrArg Prod.fst performed, ?_⟩
      · have hread : ⟨.read disk.files.bootTarget, .ok a.image⟩ ∈ readyPlan settings disk a :=
          List.mem_append_left _ (by simp only [List.mem_cons, true_or, or_true])
        obtain ⟨n, n', hperformed⟩ := hready.performed_of_mem hread
        exact FileEntry.length_of_read hperformed
      · intro good device hkeeps hm
        obtain ⟨n, hloaded, hsettle⟩ := hready.split
        have hn : good n := hloaded.keeps hkeeps.preserves hm
        have hm₀ : good m₀ := hready.keeps hkeeps.preserves hm
        rw [(hkeeps.reported reported hm₀).2]
        exact hkeeps.settled hsettle hn

end Start

/-- A launch only fails with an answer, and no answer puts the blame on the inputs. -/
theorem Along.ne_input {planned events : List Event} {failure : Failure}
    (h : Along planned events failure) (cause : InputError) : failure ≠ .input cause := by
  rintro rfl
  rcases h.stops (fun _ => False) with ⟨_, last, -, -, hlast⟩ | ⟨-, hnever⟩
  · exact last.failure?_ne_input cause hlast
  · exact hnever

namespace BootRun

variable {settings : Settings} {inputs : List Newc.Entry} {m m₁ m' : Machine σ}
  {prepared launched : List Event} {failure : Failure}

/-- A run may end while the disk is prepared. -/
theorem of_prepare (htrace : Trace out prepared m m')
    (hgoes : Goes (IsOwn settings inputs) (gatherCalls settings inputs) prepared
      (.error failure : Except Failure VirtualDisk)) :
    BootRun out settings inputs m m' prepared failure where
  trace := htrace
  observed _ _ hlog hm := htrace.observed hlog hm
  stops := hgoes.1
  calls := .inl hgoes.2
  input _ _ _ hcall := allocation_of_mem_gatherCalls (hgoes.2.subset hcall)
  memory _ _ _ := hgoes.1.memory
  archive _ _ _ _ hsize hrender := written_le hsize hrender
  started handle status hmem := absurd hmem (start_not_mem hgoes.2 handle status)

/-- Otherwise a launch follows, which goes along its plan. -/
theorem of_launch {disk : VirtualDisk} {a : Launched}
    (hprepare : (prepare out.storage out.firmware settings out.container inputs).runOn m =
      (.ok disk, m₁))
    (htrace : Trace out prepared m m₁)
    (hgoes : Goes (IsOwn settings inputs) (gatherCalls settings inputs) prepared
      (.ok disk : Except Failure VirtualDisk))
    (halong : Along (launchPlan settings disk a) launched failure)
    (hlater : Trace out launched m₁ m') :
    BootRun out settings inputs m m' (prepared ++ launched) failure := by
  obtain ⟨hpassed, hcalls⟩ := hgoes
  have hstops : Stops (IsOwn settings inputs) (prepared ++ launched) failure :=
    (halong.stops _).append hpassed
  have hplan : firmwareCalls (prepared ++ launched) <+:
      gatherCalls settings inputs ++ firmwareCalls (launchPlan settings disk a) := by
    rw [firmwareCalls_append, hcalls]
    exact (List.prefix_append_right_inj _).mpr halong.calls_isPrefix
  refine
    { trace := htrace.append hlater
      observed := fun _ _ hlog hm => (htrace.append hlater).observed hlog hm
      stops := hstops
      calls := .inr ⟨disk, a, prepared, launched, m₁, hprepare, rfl, hpassed, hcalls, halong, hplan⟩
      input := fun cause hinput => absurd hinput (halong.ne_input cause)
      memory := fun _ _ _ => hstops.memory
      archive := fun _ _ _ _ hsize hrender => written_le hsize hrender
      started := fun handle status hmem => ?_ }
  have hprefix : firmwareCalls prepared <+: gatherCalls settings inputs := by rw [hcalls]
  have hmem : ⟨.start handle, status⟩ ∈ launched :=
    (List.mem_append.mp hmem).resolve_left (start_not_mem hprefix handle status)
  obtain ⟨rfl, rfl, hlength, m₂, hready, hstart, hdevice⟩ := started_of_along halong hmem hlater
  have hearly : ∀ e ∈ (readyPlan settings disk a).take 5,
      e ∈ prepared ++ readyPlan settings disk a := fun e he =>
    List.mem_append_right _ (List.mem_of_mem_take he)
  refine ⟨disk, m₁, a.image, a.partition, prepared ++ readyPlan settings disk a,
    hprepare, (List.append_assoc ..).symm, ?_, ?_, hlength, ?_, m₂,
    htrace.append hready, hstart, fun good device hkeeps hm =>
      hdevice good device hkeeps (htrace.keeps hkeeps.preserves hm)⟩
  · exact hearly _ (by simp [readyPlan])
  · exact hearly _ (by simp [readyPlan])
  · exact hearly _ (by simp [readyPlan])

end BootRun

/-- **The boot protocol.**  Whatever the storage, the firmware and the container format answer,
a run ends in a failure and goes as `BootRun` says.  Nothing is assumed of the outside world:
memory may be too short, sources may bring less than they claim, and every call may fail. -/
theorem boot_protocol (out : Surroundings σ) (settings : Settings) (inputs : List Newc.Entry)
    (m : Machine σ) :
    ∃ events failure m',
      (boot out.storage out.firmware settings out.container inputs).runOn m = (.error failure, m') ∧
      BootRun out settings inputs m m' events failure := by
  obtain ⟨prepared, outcome, m₁, hprepare, htrace, hgoes⟩ := makes_prepare out settings inputs m
  -- Either the preparation is the whole run, or a launch follows, which cannot succeed.
  cases outcome with
  | error failure =>
      exact ⟨prepared, failure, m₁, Action.runOn_bind_error hprepare _, .of_prepare htrace hgoes⟩
  | ok disk =>
      obtain ⟨launched, outcome, m', hlaunch, hlater, hfollows⟩ := makes_launch out settings disk m₁
      cases outcome with
      | ok never => exact never.elim
      | error failure =>
          obtain ⟨_, ⟨a, rfl⟩, halong⟩ := hfollows
          refine ⟨prepared ++ launched, failure, m', ?_,
            .of_launch hprepare htrace hgoes halong hlater⟩
          rw [boot, Action.runOn_bind_ok hprepare, hlaunch]

/-! ## A desk -/

/-- A world with nothing but a firmware, which writes down what it is called for and keeps the
devices of images. -/
structure Desk where
  calls : List FirmwareCall := []
  device : Handle → Handle := fun _ => 7

namespace Desk

/-- The desk with one more call on it. -/
def note (d : Desk) (call : FirmwareCall) : Desk := { d with calls := d.calls ++ [call] }

/-- The firmware gives all that it is asked for. -/
def firmware : Firmware Desk where
  install device := .outside fun d => (.ok d.calls.length, d.note (.install device))
  allocatePages pages := .outside fun d => (.ok (pages * pageSize), d.note (.allocatePages pages))
  loadImage path image := .outside fun d => (.ok 0, d.note (.loadImage path image))
  imageDevice image := .outside fun d => (.ok (d.device image), d.note (.imageDevice image))
  setImageDevice image device := .outside fun d =>
    (.ok (), { d.note (.setImageDevice image device) with
      device := Function.update d.device image device })
  waitForKey := .outside fun d => ((), d.note .waitForKey)
  startImage image := .outside fun d => (Status.notFound, d.note (.startImage image))

/-- There are neither open files nor providers, and a rule leaves the bytes as they are. -/
def storage : Storage Desk where
  size _ d := (.error (.device Status.notFound), d)
  seek _ _ d := (.error (.device Status.notFound), d)
  read _ _ d := (.error (.device Status.notFound), d)
  close _ d := d
  provide _ _ _ d := (.error (.device Status.notFound), d)
  patch id offset data d := ((Storage.absent.patch id offset data ()).1, d)

/-- The surroundings of a run on a desk. -/
def surroundings : Surroundings Desk := ⟨storage, firmware, Container.opaqueFiles⟩

/-- Where nobody listens to the reports, only calls to the firmware are found on a desk. -/
theorem undisturbed {α : Type} (value : Desk → α) (a : α) :
    Undisturbed surroundings fun m => m.sink = none ∧ value m.world = a := by
  have hreport : KeptByReports fun m : Machine Desk => m.sink = none ∧ value m.world = a := by
    rintro m level line ⟨hsink, hvalue⟩
    refine ⟨hsink, ?_⟩
    rw [Machine.report, hsink]
    exact hvalue
  exact
    { report := hreport
      storage := ⟨fun _ _ _ hm => hm, fun _ _ _ hm => hm, fun _ _ _ _ hm => hm,
        fun _ _ _ _ hm => hm⟩
      patch := fun _ _ _ hm => hm
      extract := fun _ _ _ _ hm => hreport _ _ _ hm }

theorem observes : Observes surroundings (fun m => m.sink = none) fun m => m.world.calls where
  apart := undisturbed Desk.calls
  firmware := by
    intro r call hcall m hm
    cases r <;> cases hcall <;> exact ⟨hm, rfl⟩

theorem keepsDevices :
    KeepsDevices surroundings (fun m => m.sink = none) fun m => m.world.device where
  apart := undisturbed Desk.device
  firmware := fun r hcall m hm => by
    cases hr : r.call? with
    | none => exact absurd hr hcall
    | some call => exact (observes.firmware r call hr hm).1
  get := by
    intro image answer m m' _ h
    cases h
    exact ⟨rfl, rfl⟩
  set := by
    intro image answer m m' _ h
    cases h
    rfl
  key := fun _ _ => rfl

end Desk

/-- On a desk a run comes to the start of the boot manager, with all eight calls of a launch that
sets the device and waits for a key, and the device of the image is the partition by then. -/
theorem desk_boot_protocol :
    ∃ (events : List Event) (m' : Machine Desk),
      (boot Desk.storage Desk.firmware { pause := true } .opaqueFiles [managerInput]).runOn
          { world := {} } = (.error (.firmware .startImage Status.notFound), m') ∧
      BootRun Desk.surroundings { pause := true } [managerInput] { world := {} } m' events
        (.firmware .startImage Status.notFound) ∧
      m'.world.calls = firmwareCalls events ∧ m'.world.calls.length = 8 ∧
      ∀ handle status, ⟨.start handle, status⟩ ∈ events →
        ∃ device partition m₂, ⟨.install .installPartition device, .ok partition⟩ ∈ events ∧
          (Desk.firmware.startImage handle m₂).1 = status ∧ m₂.world.device handle = partition := by
  obtain ⟨events, failure, m', hrun, hboot⟩ :=
    boot_protocol Desk.surroundings { pause := true } [managerInput] { world := {} }
  have hrun : (boot Desk.storage Desk.firmware { pause := true } .opaqueFiles
      [managerInput]).runOn { world := {} } = (.error failure, m') := hrun
  have houtcome : ((boot Desk.storage Desk.firmware { pause := true } .opaqueFiles
      [managerInput]).runOn { world := {} }).1 =
        .error (.firmware .startImage Status.notFound) := by
    decide +kernel
  have hlength : ((boot Desk.storage Desk.firmware { pause := true } .opaqueFiles
      [managerInput]).runOn { world := {} }).2.world.calls.length = 8 := by decide +kernel
  rw [hrun] at houtcome hlength
  obtain rfl := Except.error.inj houtcome
  refine ⟨events, m', hrun, hboot, hboot.observed _ _ Desk.observes rfl, hlength, ?_⟩
  intro handle status hstart
  obtain ⟨_, _, _, partition, before, -, rfl, hinstall, -, -, -, m₂, -, hstatus, hdevice⟩ :=
    hboot.started handle status hstart
  exact ⟨_, partition, m₂, List.mem_append_left _ hinstall, hstatus,
    hdevice _ _ Desk.keepsDevices rfl⟩

end BootVolume
