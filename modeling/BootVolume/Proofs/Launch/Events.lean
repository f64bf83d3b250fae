import BootVolume.Launch.Sequence
import BootVolume.Proofs.Files.Entry
import BootVolume.Proofs.Files.Registered

/-!
# What a run asks the outside world

A run asks the outside world for one thing after the other: for memory, for the
content of a file, for a device to be published.  A `Request` is such a question
and an `Event` is a question with its answer.  `Trace` says that the way from one
machine to another leads through these events in this order, with reports and
nothing else between them; so whatever is said about the events of a run is said
about the run itself.

Some answers end a run: `Event.failure?` is the failure with which they do.
-/

namespace BootVolume

open Files

variable {σ : Type}

/-- What surrounds a run. -/
structure Surroundings (σ : Type) where
  storage : Storage σ
  firmware : Firmware σ
  container : Container σ

/-- What a run asks for. -/
inductive Request where
  /-- Memory for `length` bytes, which are `what` in a message. -/
  | allocate (what : String) (length : Nat)
  /-- The whole content of a file. -/
  | read (file : FileEntry)
  /-- The patch of a container. -/
  | patch (source : Source) (settings : Settings)
  /-- The file at a path in the container `name`. -/
  | extract (name : String) (source : Source) (index : UInt32) (path : String)
  /-- The publication of a device, which is `step` in a message. -/
  | install (step : FirmwareStep) (device : BlockDevice)
  | load (path : DevicePath) (image : Bytes)
  | getDevice (image : Handle)
  | setDevice (image device : Handle)
  | key
  | start (image : Handle)

namespace Request

/-- The answers to a request. -/
@[reducible] def Answer : Request → Type
  | allocate _ _ => Except Status Nat
  | read _ => Except ReadError Bytes
  | patch _ _ => Option Patch
  | extract _ _ _ _ => Except ReadError (Option Source)
  | install _ _ => Except Status Handle
  | load _ _ => Except Status Handle
  | getDevice _ => Except Status Handle
  | setDevice _ _ => Except Status Unit
  | key => Unit
  | start _ => Status

/-- What a request does to the machine, and the answer. -/
def perform (out : Surroundings σ) : (r : Request) → Step σ r.Answer
  | allocate _ length => (out.firmware.allocatePages (pagesFor length)).outcome
  | read file => (file.read out.storage 0 file.length).outcome
  | patch source settings => out.container.patch source settings
  | extract _ source index path => (out.container.extract source index path).outcome
  | install _ device => (out.firmware.install device).outcome
  | load path image => (out.firmware.loadImage path image).outcome
  | getDevice image => (out.firmware.imageDevice image).outcome
  | setDevice image device => (out.firmware.setImageDevice image device).outcome
  | key => out.firmware.waitForKey
  | start image => out.firmware.startImage image

end Request

/-- A call to the firmware, as the firmware sees it. -/
inductive FirmwareCall where
  | allocatePages (pages : Nat)
  | install (device : BlockDevice)
  | loadImage (path : DevicePath) (image : Bytes)
  | imageDevice (image : Handle)
  | setImageDevice (image device : Handle)
  | waitForKey
  | startImage (image : Handle)

/-- The call to the firmware that a request makes, if it makes one. -/
def Request.call? : Request → Option FirmwareCall
  | allocate _ length => some (.allocatePages (pagesFor length))
  | read _ => none
  | patch _ _ => none
  | extract _ _ _ _ => none
  | install _ device => some (.install device)
  | load path image => some (.loadImage path image)
  | getDevice image => some (.imageDevice image)
  | setDevice image device => some (.setImageDevice image device)
  | key => some .waitForKey
  | start image => some (.startImage image)

/-- A request with its answer. -/
structure Event where
  request : Request
  answer : request.Answer

/-- The call to the firmware that an event is, if it is one. -/
def Event.call? (e : Event) : Option FirmwareCall := e.request.call?

/-- The calls to the firmware among events. -/
def firmwareCalls (events : List Event) : List FirmwareCall := events.filterMap Event.call?

theorem firmwareCalls_append (events others : List Event) :
    firmwareCalls (events ++ others) = firmwareCalls events ++ firmwareCalls others :=
  List.filterMap_append

theorem firmwareCalls_cons (e : Event) (events : List Event) :
    firmwareCalls (e :: events) = e.call?.toList ++ firmwareCalls events := by
  unfold firmwareCalls
  cases hcall : e.call? with
  | none => rw [List.filterMap_cons_none hcall, Option.toList_none, List.nil_append]
  | some call => rw [List.filterMap_cons_some hcall, Option.toList_some, List.singleton_append]

/-! ## Answers that end a run -/

/-- The failure behind an answer. -/
def failureOf {ε α : Type} (wrap : ε → Failure) : Except ε α → Option Failure
  | .error cause => some (wrap cause)
  | .ok _ => none

/-- The failure with which an answer ends a run: it names the file, the allocation or the call,
with its status.  An image that comes back is a failure whatever its status is. -/
def Event.failure? : Event → Option Failure
  | ⟨.allocate what length, answer⟩ =>
      match answer with
      | .error status => some (.allocation what length (some status))
      | .ok granted => if granted < length then some (.allocation what length none) else none
  | ⟨.read file, answer⟩ => failureOf (.read file.name) answer
  | ⟨.patch _ _, _⟩ => none
  | ⟨.extract name _ _ _, answer⟩ => failureOf (.read name) answer
  | ⟨.install step _, answer⟩ => failureOf (.firmware step) answer
  | ⟨.load _ _, answer⟩ => failureOf (.firmware .loadImage) answer
  | ⟨.getDevice _, answer⟩ => failureOf (.firmware .handleProtocol) answer
  | ⟨.setDevice _ _, answer⟩ => failureOf (.firmware .handleProtocol) answer
  | ⟨.key, _⟩ => none
  | ⟨.start _, status⟩ =>
      some (.firmware (if status.isError then .startImage else .imageReturned) status)

/-- No answer ended the run. -/
def Passed (events : List Event) : Prop := ∀ e ∈ events, e.failure? = none

namespace Passed

theorem nil : Passed [] := fun _ h => absurd h List.not_mem_nil

theorem append {events others : List Event} (h : Passed events) (hothers : Passed others) :
    Passed (events ++ others) :=
  List.forall_mem_append.mpr ⟨h, hothers⟩

theorem cons {e : Event} {events : List Event} (he : e.failure? = none) (h : Passed events) :
    Passed (e :: events) :=
  List.forall_mem_cons.mpr ⟨he, h⟩

theorem singleton {e : Event} (h : e.failure? = none) : Passed [e] := cons h nil

end Passed

/-! ## Traces -/

/-- The way from one machine to another leads through these events in this order, and through
reports and nothing else between them. -/
inductive Trace (out : Surroundings σ) : List Event → Machine σ → Machine σ → Prop
  | nil {m m' : Machine σ} (reported : Reported m m') : Trace out [] m m'
  | cons {m m₁ m₂ m' : Machine σ} {e : Event} {events : List Event} (reported : Reported m m₁)
      (performed : e.request.perform out m₁ = (e.answer, m₂)) (rest : Trace out events m₂ m') :
      Trace out (e :: events) m m'

namespace Trace

variable {out : Surroundings σ} {events others : List Event} {m m' m'' : Machine σ}

theorem refl (m : Machine σ) : Trace out [] m m := .nil (.refl m)

theorem single {e : Event} (performed : e.request.perform out m = (e.answer, m')) :
    Trace out [e] m m' :=
  .cons (.refl m) performed (refl m')

theorem of_reported (h : Reported m m') (rest : Trace out events m' m'') :
    Trace out events m m'' := by
  cases rest with
  | nil reported => exact .nil (h.trans reported)
  | cons reported performed rest => exact .cons (h.trans reported) performed rest

theorem append (h : Trace out events m m') (rest : Trace out others m' m'') :
    Trace out (events ++ others) m m'' := by
  induction h with
  | nil reported => exact rest.of_reported reported
  | cons reported performed _ ih => exact .cons reported performed (ih rest)

theorem then_reported (h : Trace out events m m') (reported : Reported m' m'') :
    Trace out events m m'' := by
  have happend := h.append (.nil reported)
  rwa [List.append_nil] at happend

/-- Every event of a trace took place. -/
theorem performed_of_mem (h : Trace out events m m') {e : Event} (he : e ∈ events) :
    ∃ n n', e.request.perform out n = (e.answer, n') := by
  induction h with
  | nil reported => exact absurd he List.not_mem_nil
  | cons reported performed _ ih =>
      rcases List.mem_cons.mp he with rfl | he
      · exact ⟨_, _, performed⟩
      · exact ih he

/-- A trace can be cut between any two of its events. -/
theorem split (h : Trace out (events ++ others) m m'') :
    ∃ m', Trace out events m m' ∧ Trace out others m' m'' := by
  induction events generalizing m with
  | nil => exact ⟨m, refl m, h⟩
  | cons e rest ih =>
      cases h with
      | cons reported performed hrest =>
          obtain ⟨m', hbefore, hafter⟩ := ih hrest
          exact ⟨m', .cons reported performed hbefore, hafter⟩

end Trace

/-- The event that a call to the container format is, made for the file `name`. -/
def Files.ContainerCall.event (name : String) : ContainerCall → Event
  | .patch source settings answer => ⟨.patch source settings, answer⟩
  | .extract source index path answer => ⟨.extract name source index path, answer⟩

theorem Trace.of_calls {out : Surroundings σ} {calls : List ContainerCall} {m m' : Machine σ}
    (h : Calls out.container calls m m') (name : String) :
    Trace out (calls.map (·.event name)) m m' := by
  induction h with
  | nil reported => exact .nil reported
  | patch reported call _ ih => exact .cons reported call ih
  | extract reported call _ ih => exact .cons reported call ih

theorem firmwareCalls_containerCalls (calls : List ContainerCall) (name : String) :
    firmwareCalls (calls.map (·.event name)) = [] := by
  unfold firmwareCalls
  rw [List.filterMap_map, List.filterMap_eq_nil_iff]
  intro call _
  cases call <;> rfl

/-! ## Files of inputs -/

/-- An input as a file that is read as it is, under its path. -/
def Newc.Entry.file (input : Newc.Entry) : FileEntry :=
  { name := input.path, source := input.source }

theorem Newc.Entry.perform_read (out : Surroundings σ) (input : Newc.Entry) :
    (Request.read input.file).perform out =
      (input.source.readExact out.storage 0 input.source.length).outcome :=
  congrArg Action.outcome (FileEntry.read_unpatched (rfl : input.file.patch = none) ..)

end BootVolume
