import Mathlib
import BootVolume.Machine

/-!
# Running actions

An action takes a machine to an outcome and another machine.  `Action.runOn` is
that function, and the lemmas of this file say what it does to each way of
putting actions together, so that later files follow a run from step to step
and never look inside the monad.
-/

namespace BootVolume

variable {σ ε ε' α β : Type}

/-- The machine after some lines were reported at one level, one after the other. -/
def Machine.reportAll (m : Machine σ) (level : Level) (lines : List String) : Machine σ :=
  lines.foldl (fun m line => m.report level line) m

/-- The outcome of an action on a machine, and the machine after it. -/
def Action.runOn (act : Action σ ε α) (m : Machine σ) : Except ε α × Machine σ := act.run.run m

namespace Action

theorem ext_runOn {first second : Action σ ε α}
    (h : ∀ m, first.runOn m = second.runOn m) : first = second :=
  funext h

@[simp] theorem runOn_pure (a : α) (m : Machine σ) :
    (pure a : Action σ ε α).runOn m = (.ok a, m) := rfl

@[simp] theorem runOn_throw (e : ε) (m : Machine σ) :
    (throw e : Action σ ε α).runOn m = (.error e, m) := rfl

theorem runOn_bind (act : Action σ ε α) (f : α → Action σ ε β) (m : Machine σ) :
    (act >>= f).runOn m =
      match act.runOn m with
      | (.ok a, m') => (f a).runOn m'
      | (.error e, m') => (.error e, m') := by
  show (match ExceptT.run act m with | (a, s) => ExceptT.bindCont f a s) = _
  unfold Action.runOn StateT.run
  rcases ExceptT.run act m with ⟨a | a, s⟩ <;> rfl

theorem runOn_bind_ok {act : Action σ ε α} {m m' : Machine σ} {a : α}
    (h : act.runOn m = (.ok a, m')) (f : α → Action σ ε β) :
    (act >>= f).runOn m = (f a).runOn m' := by
  rw [runOn_bind, h]

theorem runOn_bind_error {act : Action σ ε α} {m m' : Machine σ} {e : ε}
    (h : act.runOn m = (.error e, m')) (f : α → Action σ ε β) :
    (act >>= f).runOn m = (.error e, m') := by
  rw [runOn_bind, h]

theorem runOn_bind_eq_ok {act : Action σ ε α} {f : α → Action σ ε β} {m m' : Machine σ} {b : β}
    (h : (act >>= f).runOn m = (.ok b, m')) :
    ∃ a m₁, act.runOn m = (.ok a, m₁) ∧ (f a).runOn m₁ = (.ok b, m') := by
  rw [runOn_bind] at h
  rcases hact : act.runOn m with ⟨a | a, m₁⟩ <;> rw [hact] at h
  · cases h
  · exact ⟨a, m₁, rfl, h⟩

theorem runOn_bind_eq_error {act : Action σ ε α} {f : α → Action σ ε β} {m m' : Machine σ}
    {e : ε} (h : (act >>= f).runOn m = (.error e, m')) :
    act.runOn m = (.error e, m') ∨
      ∃ a m₁, act.runOn m = (.ok a, m₁) ∧ (f a).runOn m₁ = (.error e, m') := by
  rw [runOn_bind] at h
  rcases hact : act.runOn m with ⟨a | a, m₁⟩ <;> rw [hact] at h
  · refine Or.inl ?_
    cases h
    rfl
  · exact Or.inr ⟨a, m₁, rfl, h⟩

@[simp] theorem runOn_lift (step : Step σ α) (m : Machine σ) :
    (liftM step : Action σ ε α).runOn m = (.ok (step m).1, (step m).2) := rfl

theorem runOn_mapError (f : ε → ε') (act : Action σ ε α) (m : Machine σ) :
    (mapError f act).runOn m = ((act.runOn m).1.mapError f, (act.runOn m).2) := by
  simp only [mapError, runOn, ExceptT.run, ExceptT.mk, StateT.run_bind]
  rcases h : StateT.run act m with ⟨a | a, s⟩ <;> rfl

theorem runOn_mapError_ok {act : Action σ ε α} {m m' : Machine σ} {a : α}
    (h : act.runOn m = (.ok a, m')) (f : ε → ε') : (mapError f act).runOn m = (.ok a, m') := by
  rw [runOn_mapError, h]
  rfl

theorem runOn_mapError_error (f : ε → ε') {act : Action σ ε α} {m m' : Machine σ} {e : ε}
    (h : act.runOn m = (.error e, m')) : (mapError f act).runOn m = (.error (f e), m') := by
  rw [runOn_mapError, h]
  rfl

theorem runOn_mapError_eq_ok {f : ε → ε'} {act : Action σ ε α} {m m' : Machine σ} {a : α}
    (h : (mapError f act).runOn m = (.ok a, m')) : act.runOn m = (.ok a, m') := by
  rw [runOn_mapError] at h
  rcases hact : act.runOn m with ⟨e | b, m₁⟩ <;> rw [hact] at h <;> cases h
  rfl

theorem mapError_pure (f : ε → ε') (a : α) :
    mapError f (pure a : Action σ ε α) = pure a := rfl

theorem mapError_throw (f : ε → ε') (e : ε) :
    mapError f (throw e : Action σ ε α) = throw (f e) := rfl

theorem mapError_mapError {ε'' : Type} (g : ε' → ε'') (f : ε → ε') (act : Action σ ε α) :
    mapError g (mapError f act) = mapError (g ∘ f) act := by
  refine ext_runOn fun m => ?_
  simp only [runOn_mapError]
  rcases act.runOn m with ⟨e | a, m'⟩ <;> rfl

theorem mapError_bind (f : ε → ε') (act : Action σ ε α) (g : α → Action σ ε β) :
    mapError f (act >>= g) = mapError f act >>= fun a => mapError f (g a) := by
  refine ext_runOn fun m => ?_
  rcases hact : act.runOn m with ⟨e | a, m'⟩
  · rw [runOn_mapError_error f (runOn_bind_error hact g),
      runOn_bind_error (runOn_mapError_error f hact)]
  · rw [runOn_mapError, runOn_bind_ok hact, runOn_bind_ok (runOn_mapError_ok hact f),
      runOn_mapError]

@[simp] theorem runOn_attempt (act : Action σ ε α) (m : Machine σ) :
    (attempt act : Action σ ε' (Except ε α)).runOn m =
      (.ok (act.runOn m).1, (act.runOn m).2) := rfl

theorem runOn_attempt_bind (act : Action σ ε α) (f : Except ε α → Action σ ε' β)
    (m : Machine σ) :
    (attempt act >>= f).runOn m = (f (act.runOn m).1).runOn (act.runOn m).2 :=
  runOn_bind_ok (runOn_attempt act m) f

@[simp] theorem runOn_outside (f : σ → Except ε α × σ) (m : Machine σ) :
    (outside f).runOn m = ((f m.world).1, { m with world := (f m.world).2 }) := rfl

/-- Reporting lines one after the other does nothing else. -/
theorem runOn_forM_reportWarn (lines : List String) (m : Machine σ) :
    (lines.forM (m := Action σ ε) fun line => liftM (reportWarn (σ := σ) line)).runOn m =
      (.ok (), m.reportAll .warn lines) := by
  induction lines generalizing m with
  | nil => rfl
  | cons line rest ih =>
      have hstep := runOn_bind_ok (ε := ε) (runOn_lift (reportWarn line) m)
        fun _ => rest.forM fun line => liftM (reportWarn (σ := σ) line)
      exact hstep.trans (ih _)

end Action

end BootVolume
