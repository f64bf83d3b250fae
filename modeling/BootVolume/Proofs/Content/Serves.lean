import BootVolume.Content.Source
import BootVolume.Proofs.Action
import BootVolume.Proofs.Slices

/-!
# Sources that keep to one content

A source may answer a request with fewer bytes than were asked for.
`Serves` says that whatever it answers comes from one fixed content, as long as
the machine stays in the states that `good` describes: what the outside world
must leave alone is up to the caller, who picks `good`.

* `Source.length_of_readExact`: an exact read brings as many bytes as were asked
  for or fails, whatever the source does.
* `Serves.readExact_inside`, `Serves.readExact_beyond`: an exact read brings the
  bytes of the content, or fails if the content ends before the range does.
* `serves_memory`: bytes in memory serve themselves.
-/

namespace BootVolume

variable {σ : Type}

/-- In good machines a source returns the bytes of `content` and nothing else: a
request inside the content brings some of the bytes at its place, a request at
the end or behind it brings none or fails, and the machine stays good. -/
structure Serves (storage : Storage σ) (good : Machine σ → Prop) (source : Source)
    (content : Bytes) : Prop where
  inside : ∀ (offset count : Nat) {m : Machine σ}, good m → 0 < count → offset < content.length →
    ∃ answer m', (source.readAt storage offset count).runOn m = (.ok answer, m') ∧ good m' ∧
      answer.val ≠ [] ∧ answer.val <+: content.drop offset
  behind : ∀ (offset count : Nat) {m : Machine σ}, good m → 0 < count → content.length ≤ offset →
    ∃ outcome m', (source.readAt storage offset count).runOn m = (outcome, m') ∧ good m' ∧
      ∀ answer, outcome = .ok answer → answer.val = []

/-- A source that serves a content of exactly the length that it claims. -/
structure Honest (storage : Storage σ) (good : Machine σ → Prop) (source : Source)
    (content : Bytes) : Prop extends Serves storage good source content where
  length_eq : content.length = source.length

variable {storage : Storage σ} {good : Machine σ → Prop}

theorem Source.readAt_memory (data : Bytes) (offset count : Nat) :
    Source.readAt storage (.memory data) offset count =
      if data.length < offset then throw (.outOfRange offset count)
      else pure (AtMost.slice data offset count) := rfl

theorem Source.runOn_ofFile (storage : Storage σ) (id : FileId) (m : Machine σ) :
    (Source.ofFile storage id).runOn m =
      match storage.size id m.world with
      | (.ok length, world) => (.ok (.file id length), { m with world })
      | (.error cause, world) => (.error cause, { m with world := storage.close id world }) := by
  have hasked : (Action.outside (storage.size id)).outcome m =
      ((storage.size id m.world).1, { m with world := (storage.size id m.world).2 }) :=
    Action.runOn_outside (storage.size id) m
  simp only [Source.ofFile, Action.runOn, ExceptT.run, ExceptT.mk, StateT.run_bind]
  simp only [StateT.run, hasked]
  rcases storage.size id m.world with ⟨cause | length, world⟩ <;> rfl

/-- An open file is a source once its length is known. -/
theorem Source.runOn_ofFile_ok {id : FileId} {m : Machine σ} {length : UInt64} {world : σ}
    (h : storage.size id m.world = (.ok length, world)) :
    (Source.ofFile storage id).runOn m = (.ok (.file id length), { m with world }) := by
  rw [Source.runOn_ofFile, h]

/-- A file whose length cannot be had is closed again. -/
theorem Source.runOn_ofFile_error {id : FileId} {m : Machine σ} {cause : ReadError} {world : σ}
    (h : storage.size id m.world = (.error cause, world)) :
    (Source.ofFile storage id).runOn m =
      (.error cause, { m with world := storage.close id world }) := by
  rw [Source.runOn_ofFile, h]

theorem serves_memory (storage : Storage σ) (good : Machine σ → Prop) (data : Bytes) :
    Serves storage good (.memory data) data where
  inside := by
    intro offset count m hm hcount hoffset
    refine ⟨AtMost.slice data offset count, m, ?_, hm, ?_, List.take_prefix _ _⟩
    · rw [Source.readAt_memory, if_neg (by omega), Action.runOn_pure]
    · rw [← List.length_pos_iff]
      show 0 < (Bytes.slice data offset count).length
      rw [Bytes.length_slice]
      omega
  behind := by
    intro offset count m hm hcount hoffset
    rw [Source.readAt_memory]
    by_cases houtside : data.length < offset
    · rw [if_pos houtside]
      exact ⟨_, m, rfl, hm, fun answer hanswer => by cases hanswer⟩
    · rw [if_neg houtside]
      refine ⟨_, m, rfl, hm, fun answer hanswer => ?_⟩
      cases hanswer
      exact Bytes.slice_eq_nil hoffset count

theorem honest_memory (storage : Storage σ) (good : Machine σ → Prop) (data : Bytes) :
    Honest storage good (.memory data) data :=
  { serves_memory storage good data with length_eq := rfl }

/-- The bytes of a source in memory. -/
def Source.held : Source → Bytes
  | .memory data => data
  | _ => []

/-- The storage of a world that has neither open files nor providers; a rule leaves the bytes
as they are. -/
def Storage.absent : Storage Unit where
  size _ world := (.error (.device Status.notFound), world)
  seek _ _ world := (.error (.device Status.notFound), world)
  read _ _ world := (.error (.device Status.notFound), world)
  close _ world := world
  provide _ _ _ world := (.error (.device Status.notFound), world)
  patch _ _ data world := (⟨data.map id, List.length_map id⟩, world)

/-! ## Exact reads -/

theorem Source.readRest_of_le {source : Source} {offset count done : Nat} (h : count ≤ done) :
    source.readRest storage offset count done = pure [] := by
  unfold Source.readRest
  rw [if_neg (Nat.not_lt.mpr h)]

theorem Source.length_of_readRest {source : Source} {offset count done : Nat}
    {m m' : Machine σ} {data : Bytes}
    (h : (source.readRest storage offset count done).runOn m = (.ok data, m')) :
    data.length = count - done := by
  -- On the bytes still missing: every answer brings at least one of them.
  induction hmissing : count - done using Nat.strongRecOn generalizing done m data with
  | ind missing ih =>
      by_cases hdone : done < count
      · rw [Source.readRest, if_pos hdone, Action.runOn_bind] at h
        rcases hanswer : (source.readAt storage (offset + done) (count - done)).runOn m with
          ⟨answer | answer, m₁⟩
        · rw [hanswer] at h
          cases h
        · rw [hanswer] at h
          by_cases hempty : answer.val = []
          · simp only [dif_pos hempty, Action.runOn_throw] at h
            cases h
          · simp only [dif_neg hempty, Action.runOn_bind] at h
            have hpos : 0 < answer.val.length := List.length_pos_iff.mpr hempty
            have hle : answer.val.length ≤ count - done := answer.property
            rcases hrest : (source.readRest storage offset count
                (done + answer.val.length)).runOn m₁ with ⟨rest | rest, m₂⟩
            · rw [hrest] at h
              cases h
            · rw [hrest] at h
              cases h
              have hlength := ih (count - (done + answer.val.length)) (by omega) hrest rfl
              rw [List.length_append, hlength]
              omega
      · rw [Source.readRest_of_le (by omega)] at h
        cases h
        rw [List.length_nil]
        omega

/-- An exact read brings as many bytes as were asked for, whatever the source is. -/
theorem Source.length_of_readExact {source : Source} {offset count : Nat} {m m' : Machine σ}
    {data : Bytes} (h : (source.readExact storage offset count).runOn m = (.ok data, m')) :
    data.length = count :=
  Source.length_of_readRest h

namespace Serves

variable {source : Source} {content : Bytes}

/-- Whatever part of a range was there before, the rest of it is read from the content. -/
theorem readRest_inside (serves : Serves storage good source content) {offset count : Nat}
    (hrange : offset + count ≤ content.length) {done : Nat} {m : Machine σ} (hm : good m) :
    ∃ m', (source.readRest storage offset count done).runOn m =
        (.ok (Bytes.slice content (offset + done) (count - done)), m') ∧ good m' := by
  induction hmissing : count - done using Nat.strongRecOn generalizing done m with
  | ind missing ih =>
      by_cases hdone : done < count
      · obtain ⟨answer, m₁, hanswer, hm₁, hne, hprefix⟩ :=
          serves.inside (offset + done) (count - done) hm (by omega) (by omega)
        have hpos : 0 < answer.val.length := List.length_pos_iff.mpr hne
        have hle : answer.val.length ≤ count - done := answer.property
        obtain ⟨m₂, hrest, hm₂⟩ :=
          ih (count - (done + answer.val.length)) (by omega) hm₁ rfl
        refine ⟨m₂, ?_, hm₂⟩
        rw [Source.readRest, if_pos hdone, Action.runOn_bind_ok hanswer, dif_neg hne,
          Action.runOn_bind_ok hrest, Action.runOn_pure]
        have hsplit : missing = answer.val.length + (count - (done + answer.val.length)) := by
          omega
        rw [hsplit, Bytes.slice_add, ← Bytes.eq_slice_of_isPrefix hprefix, Nat.add_assoc]
      · refine ⟨m, ?_, hm⟩
        have hzero : missing = 0 := by omega
        rw [Source.readRest_of_le (by omega), hzero, Bytes.slice_zero_count, Action.runOn_pure]

/-- A range that the content does not hold to its end cannot be read. -/
theorem readRest_beyond (serves : Serves storage good source content) {offset count : Nat}
    (hrange : content.length < offset + count) {done : Nat} (hdone : done < count)
    {m : Machine σ} (hm : good m) :
    ∃ cause m', (source.readRest storage offset count done).runOn m = (.error cause, m') ∧
      good m' := by
  induction hmissing : count - done using Nat.strongRecOn generalizing done m with
  | ind missing ih =>
      by_cases hinside : offset + done < content.length
      · obtain ⟨answer, m₁, hanswer, hm₁, hne, hprefix⟩ :=
          serves.inside (offset + done) (count - done) hm (by omega) hinside
        have hpos : 0 < answer.val.length := List.length_pos_iff.mpr hne
        have hle := hprefix.length_le
        rw [List.length_drop] at hle
        obtain ⟨cause, m₂, hrest, hm₂⟩ :=
          ih (count - (done + answer.val.length)) (by omega) (by omega) hm₁ rfl
        refine ⟨cause, m₂, ?_, hm₂⟩
        rw [Source.readRest, if_pos hdone, Action.runOn_bind_ok hanswer, dif_neg hne,
          Action.runOn_bind_error hrest]
      · obtain ⟨outcome, m₁, hanswer, hm₁, hempty⟩ :=
          serves.behind (offset + done) (count - done) hm (by omega) (Nat.not_lt.mp hinside)
        cases outcome with
        | error cause =>
            refine ⟨cause, m₁, ?_, hm₁⟩
            rw [Source.readRest, if_pos hdone, Action.runOn_bind_error hanswer]
        | ok answer =>
            refine ⟨.shortRead offset count done, m₁, ?_, hm₁⟩
            rw [Source.readRest, if_pos hdone, Action.runOn_bind_ok hanswer,
              dif_pos (hempty answer rfl), Action.runOn_throw]

theorem readExact_inside (serves : Serves storage good source content) {offset count : Nat}
    (hrange : offset + count ≤ content.length) {m : Machine σ} (hm : good m) :
    ∃ m', (source.readExact storage offset count).runOn m =
        (.ok (Bytes.slice content offset count), m') ∧ good m' :=
  serves.readRest_inside hrange hm

theorem readExact_beyond (serves : Serves storage good source content) {offset count : Nat}
    (hrange : content.length < offset + count) (hcount : 0 < count) {m : Machine σ}
    (hm : good m) :
    ∃ cause m', (source.readExact storage offset count).runOn m = (.error cause, m') ∧ good m' :=
  serves.readRest_beyond hrange hcount hm

end Serves

/-- An honest source can be read as a whole. -/
theorem Honest.readExact_whole {source : Source} {content : Bytes}
    (honest : Honest storage good source content) {m : Machine σ} (hm : good m) :
    ∃ m', (source.readExact storage 0 source.length).runOn m = (.ok content, m') ∧ good m' := by
  have hrange : 0 + content.length ≤ content.length := Nat.le_of_eq (Nat.zero_add _)
  have hread := honest.readExact_inside hrange hm
  rwa [Bytes.slice_whole, honest.length_eq] at hread

end BootVolume
