import BootVolume.Proofs.Files.Alike
import BootVolume.Proofs.Launch.Events

/-!
# Observers of the firmware

An observer of the firmware writes down every call to it; the storage, the
container format and reports are none of its business.  Since a read of a file
does nothing to the machine that the storage and reports do not do
(`FileEntry.keeps_read`), it sees exactly the calls among the events of a trace
(`Trace.observed`).

A machine whose lines are shown by some odd sink may lose what was written down,
so observers are only relied on in the machines that `good` describes.
-/

namespace BootVolume

open Files

variable {σ ε ε' α β : Type} {storage : Storage σ} {good : Machine σ → Prop}

/-! ## What reading leaves alone -/

/-- Whatever its outcome is, the action leads from good machines to good machines. -/
def Action.Keeps (good : Machine σ → Prop) (act : Action σ ε α) : Prop :=
  ∀ ⦃m⦄, good m → good (act.runOn m).2

namespace Action.Keeps

theorem pure (a : α) : Keeps good (Pure.pure a : Action σ ε α) := fun _ hm => hm

theorem throw (e : ε) : Keeps good (MonadExcept.throw e : Action σ ε α) := fun _ hm => hm

theorem bind {act : Action σ ε α} (h : Keeps good act) {f : α → Action σ ε β}
    (hf : ∀ a, Keeps good (f a)) : Keeps good (act >>= f) := by
  intro m hm
  have hact := h hm
  rcases hrun : act.runOn m with ⟨e | a, m'⟩ <;> rw [hrun] at hact
  · rw [Action.runOn_bind_error hrun]
    exact hact
  · rw [Action.runOn_bind_ok hrun]
    exact hf a hact

end Action.Keeps

/-- Nothing that is done to read content leads away from good machines. -/
structure Storage.Keeps (storage : Storage σ) (good : Machine σ → Prop) : Prop where
  seek : ∀ id position, (Action.outside (storage.seek id position)).Keeps good
  read : ∀ id count, (Action.outside (storage.read id count)).Keeps good
  provide : ∀ id offset count, (Action.outside (storage.provide id offset count)).Keeps good
  patch : ∀ id offset data ⦃m⦄, good m → good (Step.outside (storage.patch id offset data) m).2

theorem Source.keeps_readAt (hstorage : storage.Keeps good) (source : Source)
    (offset count : Nat) : (source.readAt storage offset count).Keeps good := by
  cases source with
  | memory data =>
      rw [Source.readAt]
      split
      · exact .throw _
      · exact .pure _
  | file id length =>
      rw [Source.readAt]
      split
      · exact .pure _
      · exact (hstorage.seek ..).bind fun _ => (hstorage.read ..).bind fun _ => .pure _
  | provider id length => exact hstorage.provide ..

/-- An exact read leads nowhere that its requests do not lead. -/
theorem Source.keeps_readRest {source : Source}
    (hread : ∀ offset count, (source.readAt storage offset count).Keeps good)
    (offset count done : Nat) : (source.readRest storage offset count done).Keeps good := by
  -- On the bytes still missing: every answer brings at least one of them.
  induction hmissing : count - done using Nat.strongRecOn generalizing done with
  | ind missing ih =>
      by_cases hdone : done < count
      · rw [Source.readRest, if_pos hdone]
        refine (hread ..).bind fun answer => ?_
        by_cases hempty : answer.val = []
        · rw [dif_pos hempty]
          exact .throw _
        · rw [dif_neg hempty]
          have hpos : 0 < answer.val.length := List.length_pos_iff.mpr hempty
          exact (ih (count - (done + answer.val.length)) (by omega) _ rfl).bind fun _ => .pure _
      · rw [Source.readRest_of_le (by omega)]
        exact .pure _

/-- A read of a file does nothing that its requests, its patch and reports do not do. -/
theorem Files.FileEntry.keeps_read (hgood : KeptByReports good) {file : FileEntry}
    (hread : ∀ offset count, (file.source.readAt storage offset count).Keeps good)
    (hpatch : ∀ id offset data ⦃m⦄, good m →
      good (Step.outside (storage.patch id offset data) m).2)
    (offset count : Nat) : (file.read storage offset count).Keeps good := by
  unfold FileEntry.read
  refine (Source.keeps_readRest hread ..).bind fun data => ?_
  cases file.patch with
  | none => exact .pure _
  | some patch =>
      cases patch with
      | bootStore => exact fun m hm => Patch.keeps_bootStore storage hgood offset data hm
      | rule id => exact hpatch id offset data

/-! ## Good machines along a trace -/

/-- Only calls to the firmware can lead away from good machines. -/
structure Undisturbed (out : Surroundings σ) (good : Machine σ → Prop) : Prop where
  report : KeptByReports good
  storage : out.storage.Keeps good
  patch : ∀ source settings ⦃m⦄, good m → good (out.container.patch source settings m).2
  extract : ∀ source index path, (out.container.extract source index path).Keeps good

variable {out : Surroundings σ}

theorem Undisturbed.perform (h : Undisturbed out good) {r : Request} (hcall : r.call? = none)
    {m : Machine σ} (hm : good m) : good (r.perform out m).2 := by
  cases r with
  | read file =>
      exact FileEntry.keeps_read h.report (file.source.keeps_readAt h.storage)
        h.storage.patch 0 _ hm
  | patch source settings => exact h.patch source settings hm
  | extract name source index path => exact h.extract source index path hm
  | _ => cases hcall

/-- A fact that is kept whatever some value of the machine is may do without the value. -/
theorem Undisturbed.of_apart {value : Machine σ → α}
    (h : ∀ a, Undisturbed out fun m => good m ∧ value m = a) : Undisturbed out good where
  report m level line hm := ((h (value m)).report m level line ⟨hm, rfl⟩).1
  storage :=
    { seek := fun id position m hm => ((h (value m)).storage.seek id position ⟨hm, rfl⟩).1
      read := fun id count m hm => ((h (value m)).storage.read id count ⟨hm, rfl⟩).1
      provide := fun id offset count m hm =>
        ((h (value m)).storage.provide id offset count ⟨hm, rfl⟩).1
      patch := fun id offset data m hm =>
        ((h (value m)).storage.patch id offset data ⟨hm, rfl⟩).1 }
  patch source settings m hm := ((h (value m)).patch source settings ⟨hm, rfl⟩).1
  extract source index path m hm := ((h (value m)).extract source index path ⟨hm, rfl⟩).1

/-- A run stays among good machines. -/
structure Preserves (out : Surroundings σ) (good : Machine σ → Prop) : Prop
    extends Undisturbed out good where
  firmware : ∀ (r : Request), r.call? ≠ none → ∀ ⦃m⦄, good m → good (r.perform out m).2

theorem Trace.keeps (h : Preserves out good) {events : List Event} {m m' : Machine σ}
    (htrace : Trace out events m m') (hm : good m) : good m' := by
  induction htrace with
  | nil reported => exact reported.keeps h.report hm
  | @cons _ m₁ m₂ _ e _ reported performed _ ih =>
      have hm₁ := reported.keeps h.report hm
      have hperform : good (e.request.perform out m₁).2 := by
        by_cases hcall : e.request.call? = none
        · exact h.toUndisturbed.perform hcall hm₁
        · exact h.firmware e.request hcall hm₁
      rw [performed] at hperform
      exact ih hperform

/-! ## Observers -/

/-- On good machines an observer writes down every call to the firmware and nothing else. -/
structure Observes (out : Surroundings σ) (good : Machine σ → Prop)
    (log : Machine σ → List FirmwareCall) : Prop where
  apart : ∀ calls, Undisturbed out fun m => good m ∧ log m = calls
  firmware : ∀ (r : Request) (call : FirmwareCall), r.call? = some call → ∀ ⦃m⦄, good m →
    good (r.perform out m).2 ∧ log (r.perform out m).2 = log m ++ [call]

/-- The calls to the firmware on the way are those that an observer sees. -/
theorem Trace.observed {log : Machine σ → List FirmwareCall} (hlog : Observes out good log)
    {events : List Event} {m m' : Machine σ} (h : Trace out events m m') (hm : good m) :
    log m' = log m ++ firmwareCalls events := by
  induction h with
  | @nil m m' reported =>
      rw [(reported.keeps (hlog.apart (log m)).report ⟨hm, rfl⟩).2]
      exact (List.append_nil _).symm
  | @cons m m₁ m₂ m' e events reported performed _ ih =>
      obtain ⟨hm₁, hreported⟩ := reported.keeps (hlog.apart (log m)).report ⟨hm, rfl⟩
      have hseen : good (e.request.perform out m₁).2 ∧
          log (e.request.perform out m₁).2 = log m ++ e.call?.toList := by
        cases hcall : e.call? with
        | none =>
            rw [Option.toList_none, List.append_nil]
            exact (hlog.apart (log m)).perform hcall ⟨hm₁, hreported⟩
        | some call =>
            rw [← hreported]
            exact hlog.firmware e.request call hcall hm₁
      rw [performed] at hseen
      calc log m' = log m₂ ++ firmwareCalls events := ih hseen.1
        _ = log m ++ (e.call?.toList ++ firmwareCalls events) := by
            rw [hseen.2, List.append_assoc]
        _ = log m ++ firmwareCalls (e :: events) := by rw [firmwareCalls_cons]

end BootVolume
