import Mathlib
import BootVolume.Machine

/-!
# What the journal still holds

A full ring is read from its head on, that is, rotated, and each line sends the head one place
further.  While the ring grows, a line goes behind the others (`toList_push_of_growing`); once
it is full, a line takes the place of the oldest one, which is also the place behind the newest
(`toList_push_of_full`).  So at any time the ring holds the newest lines in the order in which
they came: `Journal.Holds` ties it to all the lines that were ever written, and
`newest_lines_held` is what this means for the lines that a run reports.
-/

namespace BootVolume

variable {σ : Type}

/-! ## The newest elements of a list -/

section Lists

variable {α : Type*}

/-- Of a list that is read from one place on, the first element makes room for a new last one. -/
theorem rotate_set_succ {ring : List α} {place : ℕ} (h : place < ring.length) (x : α) :
    (ring.set place x).rotate (place + 1) = (ring.rotate place).tail ++ [x] := by
  have hdrop : (ring.set place x).drop (place + 1) = ring.drop (place + 1) :=
    List.drop_set_of_lt (Nat.lt_succ_self place)
  have htake : (ring.set place x).take (place + 1) = ring.take place ++ [x] := by
    have hplace : place < (ring.set place x).length := by rwa [List.length_set]
    rw [List.take_succ_eq_append_getElem hplace, List.take_set_of_le le_rfl, List.getElem_set_self]
  rw [List.rotate_eq_drop_append_take (by rwa [List.length_set]), hdrop, htake,
    List.rotate_eq_drop_append_take h.le, List.drop_eq_getElem_cons h, List.cons_append,
    List.tail_cons, List.append_assoc]

theorem rtake_of_length_le {xs : List α} {n : ℕ} (h : xs.length ≤ n) : xs.rtake n = xs := by
  rw [List.rtake, Nat.sub_eq_zero_of_le h, List.drop_zero]

theorem rtake_rtake (xs : List α) (m n : ℕ) : (xs.rtake m).rtake n = xs.rtake (min n m) := by
  rw [List.rtake, List.rtake, List.rtake, List.drop_drop, List.length_drop]
  congr 1
  omega

theorem tail_rtake {xs : List α} {n : ℕ} (h : n < xs.length) :
    (xs.rtake (n + 1)).tail = xs.rtake n := by
  rw [List.rtake, List.rtake, List.tail_drop]
  congr 1
  omega

end Lists

namespace Journal

/-- The ring stands as it does after `written` and no other lines. -/
structure Holds (j : Journal) (written : List (Level × String)) : Prop where
  size : j.lines.size = min written.length capacity
  /-- The head goes round with the number of lines, also before the ring is full. -/
  head : j.head = written.length % capacity
  newest : j.toList = written.rtake capacity

/-! ## One line -/

section OneLine

variable {j : Journal} (level : Level) (line : String)

theorem capacity_pos : 0 < capacity := by decide

@[simp] theorem head_push : (j.push level line).head = (j.head + 1) % capacity := rfl

theorem lines_push_of_growing (h : j.lines.size < capacity) :
    (j.push level line).lines = j.lines.push (level, line) := if_pos h

theorem lines_push_of_full (h : capacity ≤ j.lines.size) :
    (j.push level line).lines = j.lines.setIfInBounds j.head (level, line) := if_neg (by omega)

theorem size_push (h : j.lines.size ≤ capacity) :
    (j.push level line).lines.size = min (j.lines.size + 1) capacity := by
  by_cases hroom : j.lines.size < capacity
  · rw [lines_push_of_growing level line hroom, Array.size_push]
    omega
  · rw [lines_push_of_full level line (by omega), Array.size_setIfInBounds]
    omega

theorem toList_of_full (hsize : j.lines.size = capacity) (hhead : j.head < capacity) :
    j.toList = j.lines.toList.rotate j.head := by
  have hfull : ¬ j.lines.size < capacity := by omega
  rw [List.rotate_eq_drop_append_take (by rw [Array.length_toList]; omega)]
  exact if_neg hfull

/-- A ring that is not full yet is read from its start, and the line that fills it sends the
head back there. -/
theorem toList_push_of_growing (hsize : j.lines.size < capacity) (hhead : j.head = j.lines.size) :
    (j.push level line).toList = j.toList ++ [(level, line)] := by
  have hnow : j.toList = j.lines.toList := if_pos hsize
  have hgrown := size_push level line hsize.le
  rw [hnow, ← Array.toList_push, ← lines_push_of_growing level line hsize]
  by_cases hlast : j.lines.size + 1 < capacity
  · exact if_pos (by omega)
  · have hback : (j.push level line).head = 0 := by
      rw [head_push, hhead, show j.lines.size + 1 = capacity by omega, Nat.mod_self]
    have hin : (j.push level line).head < capacity := by
      rw [hback]
      exact capacity_pos
    rw [toList_of_full (by omega) hin, hback, List.rotate_zero]

/-- In a full ring the oldest line makes room for the newest. -/
theorem toList_push_of_full (hsize : j.lines.size = capacity) (hhead : j.head < capacity) :
    (j.push level line).toList = j.toList.tail ++ [(level, line)] := by
  have hlength : j.lines.toList.length = capacity := by rw [Array.length_toList, hsize]
  have hstill := size_push level line hsize.le
  have hin : (j.push level line).head < capacity := Nat.mod_lt _ capacity_pos
  -- the head comes back to the start where a rotation does
  have hround : (j.lines.toList.set j.head (level, line)).rotate ((j.head + 1) % capacity) =
      (j.lines.toList.set j.head (level, line)).rotate (j.head + 1) := by
    rw [← List.rotate_mod _ (j.head + 1), List.length_set, hlength]
  rw [toList_of_full (by omega) hin, head_push, lines_push_of_full level line hsize.ge,
    Array.toList_setIfInBounds, hround, rotate_set_succ (by rwa [hlength]),
    toList_of_full hsize hhead]

end OneLine

/-! ## All lines -/

theorem holds_empty : Holds empty [] := ⟨rfl, rfl, rfl⟩

namespace Holds

variable {j : Journal} {written : List (Level × String)}

theorem head_lt (holds : Holds j written) : j.head < capacity := by
  rw [holds.head]
  exact Nat.mod_lt _ capacity_pos

/-- The newest lines move on by one, whether there is room for another line or not. -/
theorem toList_push (holds : Holds j written) (level : Level) (line : String) :
    (j.push level line).toList = (written ++ [(level, line)]).rtake capacity := by
  have hsize := holds.size
  have hnewest := holds.newest
  obtain ⟨kept, hkept⟩ : ∃ kept, capacity = kept + 1 := ⟨255, rfl⟩
  rw [hkept] at hnewest
  rw [hkept, List.rtake_concat_succ]
  by_cases hroom : written.length < capacity
  · have hhead : j.head = j.lines.size := by
      rw [holds.head, Nat.mod_eq_of_lt hroom]
      omega
    rw [toList_push_of_growing level line (by omega) hhead, hnewest,
      rtake_of_length_le (by omega), rtake_of_length_le (by omega)]
  · rw [toList_push_of_full level line (by omega) holds.head_lt, hnewest, tail_rtake (by omega)]

theorem push (holds : Holds j written) (level : Level) (line : String) :
    Holds (j.push level line) (written ++ [(level, line)]) where
  size := by
    have hsize := holds.size
    rw [size_push level line (by omega), List.length_append, List.length_singleton]
    omega
  head := by
    rw [head_push, holds.head, List.length_append, List.length_singleton, Nat.mod_add_mod]
  newest := holds.toList_push level line

theorem length_toList (holds : Holds j written) : j.toList.length = j.lines.size := by
  rw [holds.newest, holds.size, List.rtake, List.length_drop]
  omega

theorem last_eq (holds : Holds j written) (n : ℕ) : j.last n = written.rtake (min n capacity) := by
  rw [last, ← holds.length_toList, ← rtake_rtake, ← holds.newest]
  rfl

end Holds

/-! ## A run -/

/-- What a run asks for around its journal. -/
inductive Request (σ : Type) where
  | report (level : Level) (line : String)
  /-- From now on lines are shown to someone else, or to nobody. -/
  | listen (sink : Option (Level → String → σ → σ))

namespace Request

/-- The step that is asked for. -/
def step : Request σ → Step σ Unit
  | report level line => BootVolume.report level line
  | listen sink => modify fun m => { m with sink }

/-- The line that is to be written, if one is. -/
def line? : Request σ → Option (Level × String)
  | report level line => some (level, line)
  | listen _ => none

end Request

/-- A line is written whoever listens, and listening writes none. -/
theorem holds_after_requests {written : List (Level × String)} {m : Machine σ}
    (holds : m.journal.Holds written) (requests : List (Request σ)) :
    ((requests.forM Request.step).run m).2.journal.Holds
      (written ++ requests.filterMap Request.line?) := by
  induction requests generalizing m written with
  | nil => rwa [List.filterMap_nil, List.append_nil]
  | cons request rest ih =>
      cases request with
      | report level line =>
          have hline : (Request.report level line : Request σ).line? = some (level, line) := rfl
          rw [List.filterMap_cons_some hline, List.append_cons]
          exact ih (m := m.report level line) (holds.push level line)
      | listen sink =>
          have hline : (Request.listen sink).line? = none := rfl
          rw [List.filterMap_cons_none hline]
          exact ih (m := { m with sink }) holds

end Journal

/-- However many lines are reported in a world, at whatever levels and whoever listens meanwhile,
the journal then holds the newest 256 of them, or all if there are fewer, oldest first, and gives
the newest `n` of those. -/
theorem newest_lines_held (world : σ) (requests : List (Journal.Request σ)) (n : ℕ) :
    let run : Step σ Unit := requests.forM Journal.Request.step
    let journal := (run.run { world }).2.journal
    let lines := requests.filterMap Journal.Request.line?
    journal.toList = lines.rtake (min lines.length 256) ∧
      journal.last n = lines.rtake (min n (min lines.length 256)) := by
  intro run journal lines
  have holds : journal.Holds lines :=
    Journal.holds_after_requests (m := { world }) Journal.holds_empty requests
  have hcapped : ∀ k, lines.rtake (min k lines.length) = lines.rtake k := by
    intro k
    rw [← rtake_rtake, rtake_of_length_le le_rfl]
  constructor
  · rw [min_comm, hcapped]
    exact holds.newest
  · rw [min_comm lines.length, ← min_assoc, hcapped]
    exact holds.last_eq n

end BootVolume
