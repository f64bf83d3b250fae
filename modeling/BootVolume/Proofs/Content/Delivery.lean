import BootVolume.Proofs.Content.Serves
import BootVolume.Rehearsal.Content

/-!
# Exact reads and how content is delivered

An open file brings the bytes of a range in portions of its own choosing, and the length
that it reports need not be that of its content.  An exact read depends on neither: its
outcome is `exactOutcome` of the content as far as the reported length reaches
(`exact_reads_of_any_delivery`), which is also that of these bytes in memory.

The invariant of the loop is that the bytes read so far end inside the content.  So a
request that brings nothing is made just where the content ends, and then all the bytes
that there were have been read.
-/

namespace BootVolume

variable {σ : Type} {storage : Storage σ} {good : Machine σ → Prop} {fails : ReadError → Prop}
  {source : Source} {content : Bytes} {offset count : Nat}

/-- The outcome of an exact read of a content. -/
def exactOutcome (content : Bytes) (offset count : Nat) : Except ReadError Bytes :=
  if count = 0 ∨ offset + count ≤ content.length then .ok (Bytes.slice content offset count)
  else .error (.shortRead offset count (content.length - min offset content.length))

/-- An answer to a request for `count` bytes holds the next bytes of a content, and at least one
of them if there are any. -/
def Supplies (content : Bytes) (offset count : Nat) (answer : Bytes) : Prop :=
  answer <+: content.drop offset ∧ (answer = [] → count = 0 ∨ content.length ≤ offset)

/-- The action ends in a value as expected, or fails with one of some causes.  The machine stays
good. -/
def EndsWith {ε α : Type} (good : Machine σ → Prop) (fails : ε → Prop) (act : Action σ ε α)
    (expected : α → Prop) (m : Machine σ) : Prop :=
  (∃ a m', act.runOn m = (.ok a, m') ∧ good m' ∧ expected a) ∨
    ∃ cause m', act.runOn m = (.error cause, m') ∧ good m' ∧ fails cause

/-- A source that answers each request up to the end of a content with some of its next bytes,
or fails with one of some causes. -/
def Delivers (storage : Storage σ) (good : Machine σ → Prop) (fails : ReadError → Prop)
    (source : Source) (content : Bytes) : Prop :=
  ∀ (offset count : Nat) ⦃m : Machine σ⦄, good m → offset ≤ content.length →
    EndsWith good fails (source.readAt storage offset count)
      (fun answer => Supplies content offset count answer.val) m

/-- The outcome of a read is as expected, or the cause for which a request failed. -/
def ReadsOut (good : Machine σ → Prop) (fails : ReadError → Prop)
    (act : Action σ ReadError Bytes) (expected : Except ReadError Bytes) (m : Machine σ) : Prop :=
  ∃ outcome m', act.runOn m = (outcome, m') ∧ good m' ∧
    (outcome = expected ∨ ∃ cause, outcome = .error cause ∧ fails cause)

/-! ## The loop -/

/-- What is left of a range when `done` bytes of it were read. -/
def restOutcome (content : Bytes) (offset count done : Nat) : Except ReadError Bytes :=
  if count ≤ done ∨ offset + count ≤ content.length then
    .ok (Bytes.slice content (offset + done) (count - done))
  else .error (.shortRead offset count (content.length - offset))

theorem restOutcome_add {part : Bytes} {done : Nat} (hdone : done < count)
    (hpart : part.length ≤ count - done) (hstarts : part <+: content.drop (offset + done)) :
    restOutcome content offset count done =
      (restOutcome content offset count (done + part.length)).map (part ++ ·) := by
  have hinside := hstarts.length_le
  rw [List.length_drop] at hinside
  by_cases hrange : offset + count ≤ content.length
  · have hsplit : count - done = part.length + (count - (done + part.length)) := by omega
    rw [restOutcome, restOutcome, if_pos (.inr hrange), if_pos (.inr hrange), hsplit,
      Bytes.slice_add, ← Bytes.eq_slice_of_isPrefix hstarts, Nat.add_assoc]
    rfl
  · rw [restOutcome, restOutcome, if_neg (by omega), if_neg (by omega)]
    rfl

/-- From any place inside the content on an exact read brings the rest of its range, or finds the
end of the content. -/
theorem Delivers.readRest (delivers : Delivers storage good fails source content) {done : Nat}
    (hplace : offset + done ≤ content.length) {m : Machine σ} (hm : good m) :
    ReadsOut good fails (source.readRest storage offset count done)
      (restOutcome content offset count done) m := by
  -- On the bytes still missing: every answer but the last brings at least one of them.
  induction hmissing : count - done using Nat.strongRecOn generalizing done m with
  | ind missing ih =>
      by_cases hdone : done < count
      · rcases delivers (offset + done) (count - done) hm hplace with
          ⟨answer, m₁, hanswer, hm₁, hstarts, hend⟩ | ⟨cause, m₁, hanswer, hm₁, hcause⟩
        · by_cases hempty : answer.val = []
          · have hgot : content.length - offset = done := by
              rcases hend hempty with hnone | hstop <;> omega
            refine ⟨_, m₁, ?_, hm₁, .inl rfl⟩
            rw [Source.readRest, if_pos hdone, Action.runOn_bind_ok hanswer, dif_pos hempty,
              Action.runOn_throw, restOutcome, if_neg (by omega), hgot]
          · have hpos : 0 < answer.val.length := List.length_pos_iff.mpr hempty
            have hle : answer.val.length ≤ count - done := answer.property
            have hinside := hstarts.length_le
            rw [List.length_drop] at hinside
            obtain ⟨rest, m₂, hrest, hm₂, hexpected⟩ :=
              ih (count - (done + answer.val.length)) (by omega) (by omega) hm₁ rfl
            refine ⟨rest.map (answer.val ++ ·), m₂, ?_, hm₂, ?_⟩
            · rw [Source.readRest, if_pos hdone, Action.runOn_bind_ok hanswer, dif_neg hempty,
                Action.runOn_bind, hrest]
              cases rest <;> rfl
            · rcases hexpected with rfl | ⟨cause, rfl, hcause⟩
              · exact .inl (restOutcome_add hdone hle hstarts).symm
              · exact .inr ⟨cause, rfl, hcause⟩
        · refine ⟨.error cause, m₁, ?_, hm₁, .inr ⟨cause, rfl, hcause⟩⟩
          rw [Source.readRest, if_pos hdone, Action.runOn_bind_error hanswer]
      · refine ⟨.ok [], m, ?_, hm, .inl ?_⟩
        · rw [Source.readRest_of_le (by omega), Action.runOn_pure]
        · have hzero : count - done = 0 := by omega
          rw [restOutcome, if_pos (.inl (by omega)), hzero, Bytes.slice_zero_count]

theorem Delivers.readExact (delivers : Delivers storage good fails source content)
    (hoffset : offset ≤ content.length) (count : Nat) {m : Machine σ} (hm : good m) :
    ReadsOut good fails (source.readExact storage offset count)
      (exactOutcome content offset count) m := by
  have hwhole : restOutcome content offset count 0 = exactOutcome content offset count := by
    simp only [restOutcome, exactOutcome, Nat.le_zero, Nat.add_zero, Nat.sub_zero,
      Nat.min_eq_left hoffset]
  rw [← hwhole]
  exact delivers.readRest (by omega) hm

theorem exactOutcome_beyond (hoffset : content.length < offset) (hcount : 0 < count) :
    exactOutcome content offset count = .error (.shortRead offset count 0) := by
  rw [exactOutcome, if_neg (by omega), Nat.min_eq_right hoffset.le, Nat.sub_self]

/-! ## Content in memory -/

theorem delivers_memory (storage : Storage σ) (m : Machine σ) (content : Bytes) :
    Delivers storage (· = m) (fun _ => False) (.memory content) content := by
  rintro offset count m rfl hoffset
  refine .inl ⟨AtMost.slice content offset count, m, ?_, rfl, List.take_prefix .., ?_⟩
  · rw [Source.readAt_memory, if_neg (Nat.not_lt.mpr hoffset), Action.runOn_pure]
  · intro hempty
    have hlength : min count (content.length - offset) = 0 := by
      rw [← Bytes.length_slice]
      exact congrArg List.length hempty
    omega

/-- Only a read that starts behind the end of a content in memory is out of range. -/
theorem runOn_readExact_memory (storage : Storage σ) (content : Bytes) (offset count : Nat)
    (m : Machine σ) :
    ((Source.memory content).readExact storage offset count).runOn m =
      (if 0 < count ∧ content.length < offset then .error (.outOfRange offset count)
        else exactOutcome content offset count, m) := by
  by_cases hbeyond : content.length < offset
  · by_cases hcount : 0 < count
    · rw [if_pos ⟨hcount, hbeyond⟩, Source.readExact, Source.readRest, if_pos hcount]
      apply Action.runOn_bind_error
      rw [Source.readAt_memory, Nat.add_zero, if_pos hbeyond]
      rfl
    · obtain rfl : count = 0 := by omega
      rw [if_neg (by omega), Source.readExact, Source.readRest_of_le (Nat.le_refl 0), exactOutcome,
        if_pos (.inl rfl), Bytes.slice_zero_count, Action.runOn_pure]
  · obtain ⟨outcome, _, hread, rfl, rfl | ⟨_, -, hfalse⟩⟩ :=
      (delivers_memory storage m content).readExact (Nat.not_lt.mp hbeyond) count rfl
    · rw [if_neg fun h => hbeyond h.2, hread]
    · exact hfalse.elim

/-! ## Content of open files -/

/-- An open file that holds a content and reports `size` as its length; `stands place world` says
where it stands.  It can be moved to any place inside that length, and a read brings some of the
bytes from there on.  Moves and reads may also fail with one of some causes, which leaves the
content alone. -/
structure HoldsFile (storage : Storage σ) (id : FileId) (content : Bytes) (size : UInt64)
    (fails : ReadError → Prop) (stands : Nat → σ → Prop) : Prop where
  reports : ∀ {place world}, stands place world →
    ∃ place' world', storage.size id world = (.ok size, world') ∧ stands place' world'
  seek : ∀ {position place : Nat} {world : σ}, position < size.toNat → stands place world →
    (∃ world', storage.seek id position world = (.ok (), world') ∧ stands position world') ∨
      ∃ cause place' world', storage.seek id position world = (.error cause, world') ∧
        stands place' world' ∧ fails cause
  read : ∀ (count : Nat) {place world}, stands place world →
    (∃ answer place' world', storage.read id count world = (.ok answer, world') ∧
        stands place' world' ∧ Supplies content place count answer.val) ∨
      ∃ cause place' world', storage.read id count world = (.error cause, world') ∧
        stands place' world' ∧ fails cause

/-- The machines in which a file stands somewhere. -/
def Standing (stands : Nat → σ → Prop) (m : Machine σ) : Prop := ∃ place, stands place m.world

/-- Of a content only what the reported length covers is asked for. -/
theorem Supplies.take {limit : Nat} {answer : Bytes}
    (h : Supplies content offset (min count (limit - offset)) answer)
    (hanswer : answer.length ≤ min count (limit - offset)) :
    Supplies (content.take limit) offset count answer := by
  refine ⟨?_, fun hempty => ?_⟩
  · rw [List.drop_take]
    exact List.prefix_take_iff.mpr ⟨h.1, hanswer.trans (Nat.min_le_right ..)⟩
  · rw [List.length_take]
    rcases h.2 hempty with hnone | hstop <;> omega

namespace HoldsFile

variable {id : FileId} {size : UInt64} {stands : Nat → σ → Prop}

/-- Each request is made where it should be, wherever the file stood before. -/
theorem readAt (holds : HoldsFile storage id content size fails stands) (offset count : Nat)
    {m : Machine σ} (hm : Standing stands m) :
    EndsWith (Standing stands) fails ((Source.file id size).readAt storage offset count)
      (fun answer => Supplies (content.take size.toNat) offset count answer.val) m := by
  obtain ⟨place, hplace⟩ := hm
  by_cases hbehind : size.toNat ≤ offset
  · refine .inl ⟨⟨[], Nat.zero_le _⟩, m, ?_, ⟨place, hplace⟩, List.nil_prefix, fun _ => .inr ?_⟩
    · rw [Source.readAt, if_pos hbehind, Action.runOn_pure]
    · rw [List.length_take]
      exact (Nat.min_le_left ..).trans hbehind
  rw [Source.readAt, if_neg hbehind]
  rcases holds.seek (Nat.lt_of_not_le hbehind) hplace with
    ⟨world, hseek, hworld⟩ | ⟨cause, place', world, hseek, hworld, hcause⟩
  · have hmoved : (Action.outside (storage.seek id offset)).runOn m =
        (.ok (), { m with world }) := by
      rw [Action.runOn_outside, hseek]
    rw [EndsWith, Action.runOn_bind_ok hmoved]
    rcases holds.read (min count (size.toNat - offset)) hworld with
      ⟨answer, place', world', hread, hworld', hsupplies⟩ |
        ⟨cause, place', world', hread, hworld', hcause⟩
    · refine .inl ⟨⟨answer.val, answer.property.trans (Nat.min_le_left ..)⟩,
        { m with world := world' }, ?_, ⟨place', hworld'⟩, hsupplies.take answer.property⟩
      apply Action.runOn_bind_ok
      rw [Action.runOn_outside, hread]
    · refine .inr ⟨cause, { m with world := world' }, ?_, ⟨place', hworld'⟩, hcause⟩
      apply Action.runOn_bind_error
      rw [Action.runOn_outside, hread]
  · refine .inr ⟨cause, { m with world }, ?_, ⟨place', hworld⟩, hcause⟩
    apply Action.runOn_bind_error
    rw [Action.runOn_outside, hseek]

theorem readExact (holds : HoldsFile storage id content size fails stands) (offset count : Nat)
    {m : Machine σ} (hm : Standing stands m) :
    ReadsOut (Standing stands) fails ((Source.file id size).readExact storage offset count)
      (exactOutcome (content.take size.toNat) offset count) m := by
  by_cases hoffset : offset ≤ (content.take size.toNat).length
  · have delivers : Delivers storage (Standing stands) fails (.file id size)
        (content.take size.toNat) := fun offset count _ hm _ => holds.readAt offset count hm
    exact delivers.readExact hoffset count hm
  · -- Behind the end the first request brings nothing already.
    rw [Nat.not_le] at hoffset
    by_cases hcount : 0 < count
    · rw [exactOutcome_beyond hoffset hcount, Source.readExact, Source.readRest, if_pos hcount]
      rcases holds.readAt (offset + 0) (count - 0) hm with
        ⟨answer, m₁, hanswer, hm₁, hstarts, -⟩ | ⟨cause, m₁, hanswer, hm₁, hcause⟩
      · have hempty : answer.val = [] := by
          rw [Nat.add_zero, List.drop_eq_nil_of_le hoffset.le] at hstarts
          exact List.prefix_nil.mp hstarts
        refine ⟨_, m₁, ?_, hm₁, .inl rfl⟩
        rw [Action.runOn_bind_ok hanswer, dif_pos hempty, Action.runOn_throw]
      · exact ⟨.error cause, m₁, Action.runOn_bind_error hanswer _, hm₁, .inr ⟨cause, rfl, hcause⟩⟩
    · obtain rfl : count = 0 := Nat.eq_zero_of_not_pos hcount
      refine ⟨.ok [], m, ?_, hm, .inl ?_⟩
      · rw [Source.readExact, Source.readRest_of_le (Nat.le_refl 0), Action.runOn_pure]
      · rw [exactOutcome, if_pos (.inl rfl), Bytes.slice_zero_count]

/-- The length of a file is taken when it is opened. -/
theorem ofFile (holds : HoldsFile storage id content size fails stands) {m : Machine σ}
    (hm : Standing stands m) :
    ∃ m', (Source.ofFile storage id).runOn m = (.ok (.file id size), m') ∧ Standing stands m' := by
  obtain ⟨place, hplace⟩ := hm
  obtain ⟨place', world, hsize, hworld⟩ := holds.reports hplace
  exact ⟨{ m with world }, Source.runOn_ofFile_ok hsize, place', hworld⟩

end HoldsFile

/-! ## Reads one after the other -/

/-- The machine after some requests and exact reads of a source, whatever they brought. -/
inductive AfterReads (storage : Storage σ) (source : Source) (m : Machine σ) : Machine σ → Prop
  | none : AfterReads storage source m m
  | request {m' : Machine σ} (before : AfterReads storage source m m') (offset count : Nat) :
      AfterReads storage source m ((source.readAt storage offset count).runOn m').2
  | exact {m' : Machine σ} (before : AfterReads storage source m m') (offset count : Nat) :
      AfterReads storage source m ((source.readExact storage offset count).runOn m').2

theorem EndsWith.stays {ε α : Type} {fails : ε → Prop} {act : Action σ ε α} {expected : α → Prop}
    {m : Machine σ} (h : EndsWith good fails act expected m) : good (act.runOn m).2 := by
  rcases h with ⟨_, _, hrun, hm, -⟩ | ⟨_, _, hrun, hm, -⟩ <;> rwa [hrun]

theorem ReadsOut.stays {act : Action σ ReadError Bytes} {expected : Except ReadError Bytes}
    {m : Machine σ} (h : ReadsOut good fails act expected m) : good (act.runOn m).2 := by
  obtain ⟨_, _, hrun, hm, -⟩ := h
  rwa [hrun]

theorem HoldsFile.standing {id : FileId} {size : UInt64} {stands : Nat → σ → Prop}
    (holds : HoldsFile storage id content size fails stands) {m m' : Machine σ}
    (hm : Standing stands m) (h : AfterReads storage (.file id size) m m') :
    Standing stands m' := by
  induction h with
  | none => exact hm
  | request _ offset count ih => exact (holds.readAt offset count ih).stays
  | exact _ offset count ih => exact (holds.readExact offset count ih).stays

/-- An exact read of an open file does not depend on how the file delivers its bytes, nor on what
was read of it before: it brings the range, if the content holds it as far as the reported length
reaches, and otherwise tells how much of it there is; but for a request that fails, with the
cause of which it fails.  From memory these bytes are read alike, except that a read that starts
behind their end is out of range. -/
theorem exact_reads_of_any_delivery {id : FileId} {size : UInt64} {stands : Nat → σ → Prop}
    (holds : HoldsFile storage id content size fails stands) {m : Machine σ}
    (hm : Standing stands m) :
    ∃ m₁, (Source.ofFile storage id).runOn m = (.ok (.file id size), m₁) ∧
      ∀ m₂, AfterReads storage (.file id size) m₁ m₂ → ∀ offset count,
        ReadsOut (Standing stands) fails ((Source.file id size).readExact storage offset count)
          (exactOutcome (content.take size.toNat) offset count) m₂ ∧
        ((Source.memory (content.take size.toNat)).readExact storage offset count).runOn m₂ =
          (if 0 < count ∧ (content.take size.toNat).length < offset then
              .error (.outOfRange offset count)
            else exactOutcome (content.take size.toNat) offset count, m₂) := by
  obtain ⟨m₁, hopened, hm₁⟩ := holds.ofFile hm
  refine ⟨m₁, hopened, fun m₂ hbefore offset count => ⟨?_, ?_⟩⟩
  · exact holds.readExact offset count (holds.standing hm₁ hbefore)
  · exact runOn_readExact_memory ..

section Portions

open Rehearsal

/-- A world that is one scripted file. -/
def scriptedStorage : Storage ScriptedFile where
  size _ file := (file.length, file)
  seek _ position file := file.seek position
  read _ count file := file.read count
  close _ file := file
  provide _ _ _ file := (.ok ⟨[], Nat.zero_le _⟩, file)
  patch rule offset data file := ((Storage.absent.patch rule offset data ()).1, file)

/-- Small portions are a delivery, and any length may be claimed. -/
theorem scriptedStorage_holdsFile (id : FileId) (data : Bytes) {portion : Nat}
    (hportion : 0 < portion) (size : UInt64) :
    HoldsFile scriptedStorage id data size (fun _ => False)
      fun place file => file = { data, portion, size, position := place } where
  reports := by
    rintro place _ rfl
    exact ⟨place, _, rfl, rfl⟩
  seek := by
    rintro position place _ - rfl
    exact .inl ⟨_, rfl, rfl⟩
  read := by
    rintro count place _ rfl
    refine .inl ⟨_, _, _, rfl, rfl, List.take_prefix .., fun hempty => ?_⟩
    have hlength : min (min count portion) (data.length - place) = 0 := by
      rw [← Bytes.length_slice]
      exact congrArg List.length hempty
    omega

/-- Ten bytes in portions of three, of which eight are reported. -/
theorem exact_reads_of_portions :
    ∃ m₁ m₂ m₃,
      (Source.ofFile scriptedStorage 0).runOn
          ⟨⟨[0, 1, 2, 3, 4, 5, 6, 7, 8, 9], 3, 8, none, none, none, 0, 5⟩, .empty, none⟩ =
        (.ok (.file 0 8), m₁) ∧
      ((Source.file 0 8).readExact scriptedStorage 1 7).runOn m₁ =
        (.ok [1, 2, 3, 4, 5, 6, 7], m₂) ∧
      ((Source.file 0 8).readExact scriptedStorage 6 3).runOn m₂ =
        (.error (.shortRead 6 3 2), m₃) ∧
      ((Source.memory [0, 1, 2, 3, 4, 5, 6, 7]).readExact scriptedStorage 9 1).runOn m₃ =
        (.error (.outOfRange 9 1), m₃) := by
  obtain ⟨m₁, hopened, hreads⟩ := exact_reads_of_any_delivery
    (scriptedStorage_holdsFile 0 [0, 1, 2, 3, 4, 5, 6, 7, 8, 9] (Nat.zero_lt_succ 2) 8)
    (m := ⟨⟨[0, 1, 2, 3, 4, 5, 6, 7, 8, 9], 3, 8, none, none, none, 0, 5⟩, .empty, none⟩) ⟨5, rfl⟩
  have hnone : AfterReads scriptedStorage (.file 0 8) m₁ m₁ := .none
  obtain ⟨_, m₂, hfirst, -, rfl | ⟨_, -, hfalse⟩⟩ := (hreads m₁ hnone 1 7).1
  · have hone := hnone.exact 1 7
    rw [hfirst] at hone
    obtain ⟨_, m₃, hsecond, -, rfl | ⟨_, -, hfalse⟩⟩ := (hreads m₂ hone 6 3).1
    · have htwo := hone.exact 6 3
      rw [hsecond] at htwo
      exact ⟨m₁, m₂, m₃, hopened, hfirst, hsecond, (hreads m₃ htwo 9 1).2⟩
    · exact hfalse.elim
  · exact hfalse.elim

end Portions

end BootVolume
