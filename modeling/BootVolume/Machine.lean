import BootVolume.Journal

/-!
# Machines and actions

A machine is the world outside this library, of an arbitrary type `σ`, together
with the journal of the run and the hook that shows journal lines as they are
written. Everything the library does to the world is an action: it changes a
machine and ends in a value or in a failure, and the changes made before a
failure stay.
-/

namespace BootVolume

/-- The outside world, the journal, and where lines are shown. -/
structure Machine (σ : Type) where
  /-- The outside world. -/
  world : σ
  /-- The lines reported so far. -/
  journal : Journal := Journal.empty
  /-- Shows a line to the outside; absent while nobody listens. -/
  sink : Option (Level → String → σ → σ) := none

/-- A step that always ends in a value. -/
abbrev Step (σ : Type) (α : Type) := StateM (Machine σ) α

/-- A step that may fail with a cause of type `ε`. -/
abbrev Action (σ : Type) (ε : Type) (α : Type) := ExceptT ε (StateM (Machine σ)) α

variable {σ ε ε' α : Type}

/-- Do something to the outside world alone. -/
def Step.outside (f : σ → α × σ) : Step σ α := fun m =>
  let (value, world) := f m.world
  (value, { m with world })

/-- Do something to the outside world alone that may fail. -/
def Action.outside (f : σ → Except ε α × σ) : Action σ ε α := ExceptT.mk (Step.outside f)

/-- Rename the cause of a failure. -/
def Action.mapError (f : ε → ε') (act : Action σ ε α) : Action σ ε' α :=
  ExceptT.mk do
    match ← act.run with
    | .ok value => pure (.ok value)
    | .error cause => pure (.error (f cause))

/-- Run an action and take its outcome as a value. -/
def Action.outcome (act : Action σ ε α) : Step σ (Except ε α) := act.run

/-- Run an action inside another one and take its outcome as a value. -/
def Action.attempt (act : Action σ ε α) : Action σ ε' (Except ε α) := ExceptT.lift act.run

namespace Machine

/-- The machine after one line at `level` was reported: it is shown, unless it is
a mere debugging line, and then written to the journal. -/
def report (m : Machine σ) (level : Level) (line : String) : Machine σ where
  world :=
    match m.sink with
    | some shown => if level = .debug then m.world else shown level line m.world
    | none => m.world
  journal := m.journal.push level line
  sink := m.sink

end Machine

/-- Report one line. -/
def report (level : Level) (line : String) : Step σ Unit :=
  modify fun m => m.report level line

/-- Report a line for whoever looks for a fault. -/
def reportDebug (line : String) : Step σ Unit := report .debug line

/-- Report a line about the progress of a run. -/
def reportInfo (line : String) : Step σ Unit := report .info line

/-- Report a line about something left out or gone wrong. -/
def reportWarn (line : String) : Step σ Unit := report .warn line

end BootVolume
