import BootVolume.Proofs.Launch.Events
import BootVolume.Proofs.Launch.Gather

/-!
# The events of an action

`Makes` says of an action which events it makes and with which outcome, wherever
it is run; `Gathers` says it of a step on the catalog.  Two kinds of statement
are made in this way.

* `Asked`: the action is one request, and its outcome is the answer.
* `Goes`: the calls to the firmware are those of a plan, and the action stops
  where an answer ends the run (`Stops`).

Both kinds pass through `>>=`: what comes later is only done after everything
before it has passed, so plans are put one behind the other.
-/

namespace BootVolume

open Files

variable {σ ε α β : Type} {out : Surroundings σ}

/-- Some run of the action ends with this value. -/
def Action.Brings (act : Action σ ε α) (a : α) : Prop := ∃ m m', act.runOn m = (.ok a, m')

/-- Wherever the action is run, its events and its outcome are as specified. -/
def Makes (out : Surroundings σ) (spec : List Event → Except Failure α → Prop)
    (act : Action σ Failure α) : Prop :=
  ∀ m, ∃ events outcome m', act.runOn m = (outcome, m') ∧ Trace out events m m' ∧
    spec events outcome

namespace Makes

variable {spec : List Event → Except Failure α → Prop} {act : Action σ Failure α}

theorem pure {a : α} (h : spec [] (.ok a)) : Makes out spec (Pure.pure a) := fun m =>
  ⟨[], .ok a, m, rfl, .refl m, h⟩

theorem throw {failure : Failure} (h : spec [] (.error failure)) :
    Makes out spec (MonadExcept.throw failure) := fun m =>
  ⟨[], .error failure, m, rfl, .refl m, h⟩

theorem mono {spec' : List Event → Except Failure α → Prop} (h : Makes out spec act)
    (himp : ∀ events outcome, spec events outcome → spec' events outcome) :
    Makes out spec' act := by
  intro m
  obtain ⟨events, outcome, m', hrun, htrace, hspec⟩ := h m
  exact ⟨events, outcome, m', hrun, htrace, himp events outcome hspec⟩

/-- Reports before an action are no events. -/
theorem after_reports (h : Makes out spec act) {step : Step σ Unit}
    (hstep : ∀ m, Reported m (step m).2) :
    Makes out spec ((liftM step : Action σ Failure Unit) >>= fun _ => act) := by
  intro m
  obtain ⟨events, outcome, m', hrun, htrace, hspec⟩ := h (step m).2
  refine ⟨events, outcome, m', ?_, htrace.of_reported (hstep m), hspec⟩
  rw [Action.runOn_bind_ok (Action.runOn_lift step m), hrun]

theorem after_warnings (h : Makes out spec act) (lines : List String) :
    Makes out spec ((lines.forM fun line =>
      (liftM (reportWarn (σ := σ) line) : Action σ Failure Unit)) >>= fun _ => act) := by
  induction lines with
  | nil => exact h
  | cons line rest ih =>
      rw [List.forM, bind_assoc]
      exact ih.after_reports fun m => .report m _ _

/-- What comes after an action adds its events to those of the action, unless that fails. -/
theorem bind (h : Makes out spec act) {f : α → Action σ Failure β}
    {rest : α → List Event → Except Failure β → Prop}
    (hf : ∀ a, act.Brings a → Makes out (rest a) (f a))
    {both : List Event → Except Failure β → Prop}
    (herror : ∀ events failure, spec events (.error failure) → both events (.error failure))
    (hok : ∀ before after a outcome, spec before (.ok a) → rest a after outcome →
      both (before ++ after) outcome) :
    Makes out both (act >>= f) := by
  intro m
  obtain ⟨before, outcome, m₁, hrun, htrace, hspec⟩ := h m
  cases outcome with
  | error failure =>
      exact ⟨before, .error failure, m₁, Action.runOn_bind_error hrun f, htrace,
        herror before failure hspec⟩
  | ok a =>
      obtain ⟨after, outcome, m', hnext, hlater, hrest⟩ := hf a ⟨m, m₁, hrun⟩ m₁
      refine ⟨before ++ after, outcome, m', ?_, htrace.append hlater,
        hok before after a outcome hspec hrest⟩
      rw [Action.runOn_bind_ok hrun, hnext]

end Makes

/-! ## Single requests -/

/-- One request with its answer: a value, unless the answer ends the run. -/
def Asked (r : Request) (answer : α → r.Answer) (events : List Event) : Except Failure α → Prop
  | .ok a => events = [⟨r, answer a⟩] ∧ Event.failure? ⟨r, answer a⟩ = none
  | .error failure => ∃ last : r.Answer, events = [⟨r, last⟩] ∧
      Event.failure? ⟨r, last⟩ = some failure

/-- An action whose failures are renamed to those of a request is that request. -/
theorem makes_asked {r : Request} {act : Action σ ε α} {wrap : ε → Failure}
    (answer : Except ε α → r.Answer)
    (performs : ∀ m, r.perform out m = (answer (act.runOn m).1, (act.runOn m).2))
    (fails : ∀ cause, Event.failure? ⟨r, answer (.error cause)⟩ = some (wrap cause))
    (passes : ∀ a, Event.failure? ⟨r, answer (.ok a)⟩ = none) :
    Makes out (Asked r fun a => answer (.ok a)) (Action.mapError wrap act) := by
  intro m
  have hperform := performs m
  rcases hrun : act.runOn m with ⟨cause | a, m'⟩ <;> rw [hrun] at hperform
  · exact ⟨_, .error (wrap cause), m', Action.runOn_mapError_error wrap hrun, .single hperform,
      answer (.error cause), rfl, fails cause⟩
  · exact ⟨_, .ok a, m', Action.runOn_mapError_ok hrun wrap, .single hperform, rfl, passes a⟩

theorem Event.failure?_allocate (what : String) (length granted : Nat) :
    Event.failure? ⟨.allocate what length, .ok granted⟩ =
      if granted < length then some (.allocation what length none) else none := rfl

/-- Memory is asked for once; memory that is too short is as bad as none. -/
theorem makes_allocate (out : Surroundings σ) (length : Nat) (what : String) :
    Makes out (Asked (.allocate what length) fun granted => .ok granted)
      (allocate out.firmware length what) := by
  intro m
  rcases hrun : (out.firmware.allocatePages (pagesFor length)).runOn m with
    ⟨status | granted, m'⟩
  · have hmapped := Action.runOn_mapError_error
      (fun status => Failure.allocation what length (some status)) hrun
    have htrace : Trace out [⟨.allocate what length, .error status⟩] m m' := .single hrun
    exact ⟨_, _, m', Action.runOn_bind_error hmapped _, htrace, .error status, rfl, rfl⟩
  · have hmapped := Action.runOn_mapError_ok hrun
      (fun status => Failure.allocation what length (some status))
    have htrace : Trace out [⟨.allocate what length, .ok granted⟩] m m' := .single hrun
    have hfailure := Event.failure?_allocate what length granted
    by_cases hshort : granted < length
    · refine ⟨_, .error (.allocation what length none), m', ?_, htrace, .ok granted, rfl, ?_⟩
      · rw [allocate, Action.runOn_bind_ok hmapped, if_pos hshort]
        rfl
      · rw [hfailure, if_pos hshort]
    · refine ⟨_, .ok granted, m', ?_, htrace, rfl, ?_⟩
      · rw [allocate, Action.runOn_bind_ok hmapped, if_neg hshort]
        rfl
      · rw [hfailure, if_neg hshort]

/-! ## Plans of firmware calls -/

/-- The run stops right after the first answer that ends it, with the failure of that answer; or
all answers passed, and the failure is one that the run finds by itself. -/
def Stops (own : Failure → Prop) (events : List Event) (failure : Failure) : Prop :=
  (∃ before last, events = before ++ [last] ∧ Passed before ∧ last.failure? = some failure) ∨
    (Passed events ∧ own failure)

theorem Stops.append {own : Failure → Prop} {before events : List Event} {failure : Failure}
    (hbefore : Passed before) (h : Stops own events failure) :
    Stops own (before ++ events) failure := by
  rcases h with ⟨early, last, rfl, hearly, hlast⟩ | ⟨hevents, hown⟩
  · exact .inl ⟨before ++ early, last, (List.append_assoc ..).symm, hbefore.append hearly, hlast⟩
  · exact .inr ⟨hbefore.append hevents, hown⟩

/-- The calls to the firmware follow a plan, to its end unless the run stops before. -/
def Goes (own : Failure → Prop) (plan : List FirmwareCall) (events : List Event) :
    Except Failure α → Prop
  | .ok _ => Passed events ∧ firmwareCalls events = plan
  | .error failure => Stops own events failure ∧ firmwareCalls events <+: plan

section Goes

variable {own : Failure → Prop} {plan plan' : List FirmwareCall} {before after events : List Event}

theorem Asked.goes {r : Request} {answer : α → r.Answer} {outcome : Except Failure α}
    (h : Asked r answer events outcome) : Goes own r.call?.toList events outcome := by
  have hcalls : ∀ last : r.Answer, firmwareCalls [⟨r, last⟩] = r.call?.toList := by
    intro last
    rw [firmwareCalls_cons]
    exact List.append_nil _
  cases outcome with
  | ok a =>
      obtain ⟨rfl, hpass⟩ := h
      exact ⟨.singleton hpass, hcalls _⟩
  | error failure =>
      obtain ⟨last, rfl, hlast⟩ := h
      exact ⟨.inl ⟨[], _, rfl, .nil, hlast⟩, hcalls last ▸ List.prefix_refl _⟩

/-- A single request follows the plan of its own call. -/
theorem Makes.goes {r : Request} {answer : α → r.Answer} {act : Action σ Failure α}
    (h : Makes out (Asked r answer) act) (own : Failure → Prop) :
    Makes out (Goes own r.call?.toList) act :=
  h.mono fun _ _ => Asked.goes

theorem Goes.of_error {failure : Failure} (h : Goes own plan events (.error failure : Except _ α))
    (plan' : List FirmwareCall) :
    Goes own (plan ++ plan') events (.error failure : Except _ β) :=
  ⟨h.1, h.2.trans (List.prefix_append plan plan')⟩

theorem Goes.append {a : α} {outcome : Except Failure β} (h : Goes own plan before (.ok a))
    (hafter : Goes own plan' after outcome) :
    Goes own (plan ++ plan') (before ++ after) outcome := by
  obtain ⟨hpassed, rfl⟩ := h
  cases outcome with
  | ok b =>
      obtain ⟨hrest, rfl⟩ := hafter
      exact ⟨hpassed.append hrest, firmwareCalls_append ..⟩
  | error failure =>
      obtain ⟨hstops, hcalls⟩ := hafter
      refine ⟨hstops.append hpassed, ?_⟩
      rw [firmwareCalls_append]
      exact (List.prefix_append_right_inj _).mpr hcalls

theorem goes_nil (own : Failure → Prop) (a : α) : Goes own [] [] (.ok a) := ⟨.nil, rfl⟩

/-- A failure that the run finds by itself is no event. -/
theorem goes_own {failure : Failure} (h : own failure) (plan : List FirmwareCall) :
    Goes own plan [] (.error failure : Except _ α) :=
  ⟨.inr ⟨.nil, h⟩, List.nil_prefix⟩

/-- Plans are followed one after the other. -/
theorem Makes.goes_bind {act : Action σ Failure α} (h : Makes out (Goes own plan) act)
    {f : α → Action σ Failure β} (hf : ∀ a, act.Brings a → Makes out (Goes own plan') (f a)) :
    Makes out (Goes own (plan ++ plan')) (act >>= f) :=
  h.bind hf (fun _ _ herror => herror.of_error plan') fun _ _ _ _ hok hrest => hok.append hrest

/-- What calls no firmware adds nothing to a plan. -/
theorem Makes.goes_nil_bind {act : Action σ Failure α} (h : Makes out (Goes own []) act)
    {f : α → Action σ Failure β} (hf : ∀ a, act.Brings a → Makes out (Goes own plan) (f a)) :
    Makes out (Goes own plan) (act >>= f) :=
  h.goes_bind hf

end Goes

/-! ## Steps on the catalog -/

/-- Wherever the step is taken, its calls to the firmware follow the plan. -/
def Gathers (out : Surroundings σ) (own : Failure → Prop) (plan : List FirmwareCall)
    (act : Gathering σ α) : Prop :=
  ∀ c m, ∃ events outcome c' m', act.runFrom c m = ((outcome, c'), m') ∧
    Trace out events m m' ∧ Goes own plan events outcome

namespace Gathers

variable {own : Failure → Prop} {plan plan' : List FirmwareCall}

theorem pure (out : Surroundings σ) (own : Failure → Prop) (a : α) :
    Gathers out own [] (Pure.pure a : Gathering σ α) := fun c m =>
  ⟨[], .ok a, c, m, rfl, .refl m, goes_nil own a⟩

theorem throw {failure : Failure} (h : own failure) (plan : List FirmwareCall) :
    Gathers out own plan (MonadExcept.throw failure : Gathering σ α) := fun c m =>
  ⟨[], .error failure, c, m, rfl, .refl m, goes_own h plan⟩

theorem bind {act : Gathering σ α} (h : Gathers out own plan act) {f : α → Gathering σ β}
    (hf : ∀ a, Gathers out own plan' (f a)) : Gathers out own (plan ++ plan') (act >>= f) := by
  intro c m
  obtain ⟨before, outcome, c₁, m₁, hrun, htrace, hgoes⟩ := h c m
  cases outcome with
  | error failure =>
      exact ⟨before, .error failure, c₁, m₁, Gathering.runFrom_bind_error hrun f, htrace,
        hgoes.of_error plan'⟩
  | ok a =>
      obtain ⟨after, outcome, c', m', hnext, hlater, hrest⟩ := hf a c₁ m₁
      refine ⟨before ++ after, outcome, c', m', ?_, htrace.append hlater, hgoes.append hrest⟩
      rw [Gathering.runFrom_bind_ok hrun, hnext]

/-- What follows gathering passes a failure on and calls no more firmware otherwise. -/
theorem makes_bind {act : Gathering σ α} (h : Gathers out own plan act) (c : Catalog)
    {f : Except Failure α × Catalog → Action σ Failure β}
    (hok : ∀ a c', Makes out (Goes own []) (f (.ok a, c')))
    (herror : ∀ failure c', f (.error failure, c') = MonadExcept.throw failure) :
    Makes out (Goes own plan)
      ((liftM (act.run.run c : StateM (Machine σ) (Except Failure α × Catalog)) :
        Action σ Failure _) >>= f) := by
  intro m
  obtain ⟨before, outcome, c', m₁, hrun, htrace, hgoes⟩ := h c m
  have hlift : (liftM (act.run.run c : StateM (Machine σ) (Except Failure α × Catalog)) :
      Action σ Failure _).runOn m = (.ok (outcome, c'), m₁) := by
    rw [Action.runOn_lift]
    have hpair : (act.run.run c) m = ((outcome, c'), m₁) := hrun
    rw [hpair]
  rw [Action.runOn_bind_ok hlift, ← List.append_nil plan]
  -- The step itself always ends in a value: the outcome of gathering and the catalog.
  cases outcome with
  | error failure =>
      rw [herror]
      exact ⟨before, .error failure, m₁, rfl, htrace, hgoes.of_error []⟩
  | ok a =>
      obtain ⟨after, outcome, m', hnext, hlater, hrest⟩ := hok a c' m₁
      exact ⟨before ++ after, outcome, m', hnext, htrace.append hlater, hgoes.append hrest⟩

/-- A step on the machine alone follows the same plan as a part of gathering. -/
theorem lift {act : Action σ Failure α} (h : Makes out (Goes own plan) act) :
    Gathers out own plan (Gathering.lift act) := by
  intro c m
  obtain ⟨events, outcome, m', hrun, htrace, hgoes⟩ := h m
  exact ⟨events, outcome, c, m', runFrom_lift_action hrun c, htrace, hgoes⟩

end Gathers

end BootVolume
