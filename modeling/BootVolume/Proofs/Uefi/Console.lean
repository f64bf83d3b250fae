import BootVolume.Proofs.Text.Utf16
import BootVolume.Rehearsal.Platform

/-!
# What the console hands over

One buffer serves for a whole text, so each time it is handed over there may be units of
earlier times behind the zero.  `Filled` is the invariant of the loop: the units that wait are at
the start of the buffer, and there is room for one more and for the zero.  It follows that no
unit is ever put beside the buffer (`guardedCallsFrom_eq`), and that the buffers `Carry` the text
in chunks, all of them full but the last (`Filled.carry`).  A text without NUL is heard as it
stands: `text_carried_whole`.
-/

namespace BootVolume.Uefi

variable {σ : Type}

namespace Console

/-! ## Buffers and chunks -/

/-- A buffer after a unit was put into it, at a place that it has. -/
def put? (cells : List UInt16) (place : ℕ) (u : UInt16) : Option (List UInt16) :=
  if place < cells.length then some (cells.set place u) else none

/-- The buffer as it is handed over each time, unless some unit has no place in it. -/
def guardedCallsFrom (cells : List UInt16) (used : ℕ) :
    List UInt16 → Option (List (List UInt16))
  | [] => if used = 0 then some [] else (put? cells used 0).map fun cells => [cells]
  | u :: rest => do
      let cells ← put? cells used u
      if used + 1 = bufferSize - 1 then
        let cells ← put? cells (used + 1) 0
        (guardedCallsFrom cells 0 rest).map (cells :: ·)
      else guardedCallsFrom cells (used + 1) rest

/-- The buffers that are handed over for a text, unless some unit has no place in one. -/
def guardedCalls (text : String) : Option (List (List UInt16)) :=
  guardedCallsFrom (List.replicate bufferSize 0) 0 (Text.utf16 text)

/-- The units of `chunk` wait in the buffer, which has room for another one and for the zero. -/
structure Filled (cells chunk : List UInt16) : Prop where
  size : cells.length = bufferSize
  room : chunk.length + 1 < bufferSize
  start : chunk <+: cells

/-- A buffer that is handed over with `chunk` in it. -/
structure Ended (cells chunk : List UInt16) : Prop where
  size : cells.length = bufferSize
  /-- Behind the zero are units of earlier chunks. -/
  ends : chunk ++ [0] <+: cells

/-- Buffers that carry some units, one chunk after the other. -/
inductive Carry : List (List UInt16) → List UInt16 → Prop
  | nothing : Carry [] []
  | last {cells chunk : List UInt16} (ended : Ended cells chunk) (hpos : 1 ≤ chunk.length)
      (hle : chunk.length ≤ bufferSize - 1) : Carry [cells] chunk
  | full {cells chunk units : List UInt16} {buffers : List (List UInt16)}
      (ended : Ended cells chunk) (hfull : chunk.length = bufferSize - 1)
      (rest : Carry buffers units) : Carry (cells :: buffers) (chunk ++ units)

/-! ## The loop -/

theorem put?_eq {cells : List UInt16} {place : ℕ} (hsize : cells.length = bufferSize)
    (hplace : place < bufferSize) (u : UInt16) : put? cells place u = some (cells.set place u) :=
  if_pos (by rwa [hsize])

theorem append_isPrefix_set {chunk cells : List UInt16} (h : chunk <+: cells)
    (hlt : chunk.length < cells.length) (u : UInt16) :
    chunk ++ [u] <+: cells.set chunk.length u := by
  obtain ⟨behind, rfl⟩ := h
  cases behind with
  | nil => simp at hlt
  | cons old stale =>
      refine ⟨stale, ?_⟩
      rw [List.set_append_right _ _ le_rfl, Nat.sub_self, List.set_cons_zero, List.append_assoc]
      rfl

theorem filled_empty {cells : List UInt16} (h : cells.length = bufferSize) : Filled cells [] :=
  ⟨h, by decide, List.nil_prefix⟩

namespace Filled

variable {cells chunk : List UInt16}

theorem length_lt (filled : Filled cells chunk) : chunk.length < cells.length := by
  rw [filled.size]
  exact Nat.lt_of_succ_lt filled.room

/-- One more unit waits in the buffer. -/
theorem put (filled : Filled cells chunk) (u : UInt16)
    (hroom : chunk.length + 1 ≠ bufferSize - 1) :
    Filled (cells.set chunk.length u) (chunk ++ [u]) := by
  refine ⟨by rw [List.length_set, filled.size], ?_,
    append_isPrefix_set filled.start filled.length_lt u⟩
  have hlt := filled.room
  rw [List.length_append, List.length_singleton]
  omega

/-- The zero is put behind what waits. -/
theorem putZero (filled : Filled cells chunk) : Ended (cells.set chunk.length 0) chunk where
  size := by rw [List.length_set, filled.size]
  ends := append_isPrefix_set filled.start filled.length_lt 0

/-- The last unit that has room is put behind what waits, and the zero behind it. -/
theorem putEnd (filled : Filled cells chunk) (u : UInt16) :
    Ended ((cells.set chunk.length u).set (chunk.length + 1) 0) (chunk ++ [u]) := by
  have hput := append_isPrefix_set filled.start filled.length_lt u
  have hroom : (chunk ++ [u]).length < (cells.set chunk.length u).length := by
    rw [List.length_append, List.length_singleton, List.length_set, filled.size]
    exact filled.room
  have hends := append_isPrefix_set hput hroom 0
  rw [List.length_append, List.length_singleton] at hends
  exact ⟨by rw [List.length_set, List.length_set, filled.size], hends⟩

end Filled

/-- Every unit has a place in the buffer. -/
theorem guardedCallsFrom_eq {cells : List UInt16} {used : ℕ} (hsize : cells.length = bufferSize)
    (hroom : used + 1 < bufferSize) (units : List UInt16) :
    guardedCallsFrom cells used units = some (callsFrom cells used units) := by
  induction units generalizing cells used with
  | nil =>
      rw [guardedCallsFrom, callsFrom, put?_eq hsize (by omega)]
      split <;> rfl
  | cons u rest ih =>
      have hset : (cells.set used u).length = bufferSize := by rw [List.length_set, hsize]
      rw [guardedCallsFrom, callsFrom, put?_eq hsize (by omega), Option.bind_eq_bind,
        Option.bind_some]
      by_cases hfull : used + 1 = bufferSize - 1
      · rw [if_pos hfull, if_pos hfull, put?_eq hset hroom, Option.bind_some,
          ih (by rw [List.length_set, hset]) (by decide), Option.map_some]
      · rw [if_neg hfull, if_neg hfull, ih hset (by omega)]

/-- The buffers carry what waits and what is still to come.  The induction is on the latter, and
`Filled` goes from one unit to the next; a buffer that was handed over is an empty one again. -/
theorem Filled.carry {cells chunk : List UInt16} (filled : Filled cells chunk)
    (units : List UInt16) : Carry (callsFrom cells chunk.length units) (chunk ++ units) := by
  induction units generalizing cells chunk with
  | nil =>
      have hlt := filled.room
      rw [List.append_nil, callsFrom]
      by_cases hnone : chunk.length = 0
      · rw [if_pos hnone, List.length_eq_zero_iff.mp hnone]
        exact .nothing
      · rw [if_neg hnone]
        exact .last filled.putZero (by omega) (by omega)
  | cons u rest ih =>
      have hlength : (chunk ++ [u]).length = chunk.length + 1 := by
        rw [List.length_append, List.length_singleton]
      rw [callsFrom, List.append_cons]
      by_cases hfull : chunk.length + 1 = bufferSize - 1
      · rw [if_pos hfull]
        have ended := filled.putEnd u
        exact .full ended (hlength.trans hfull) (ih (filled_empty ended.size))
      · rw [if_neg hfull, ← hlength]
        exact ih (filled.put u hfull)

/-! ## What is heard -/

/-- The units of earlier chunks are not heard. -/
theorem Ended.heard_eq {cells chunk : List UInt16} (ended : Ended cells chunk)
    (h : 0 ∉ chunk) : heard cells = chunk := by
  obtain ⟨stale, hcells⟩ := ended.ends
  have hkept : ∀ u ∈ chunk, (u != 0) = true := by
    intro u hu
    exact bne_iff_ne.mpr fun hzero => h (hzero ▸ hu)
  rw [heard, ← hcells, List.append_assoc, List.takeWhile_append_of_pos hkept]
  exact List.append_nil chunk

theorem Ended.getElem?_length {cells chunk : List UInt16} (ended : Ended cells chunk) :
    cells[chunk.length]? = some 0 := by
  obtain ⟨stale, hcells⟩ := ended.ends
  rw [← hcells, List.append_assoc, List.getElem?_append_right le_rfl, Nat.sub_self]
  rfl

namespace Carry

variable {buffers : List (List UInt16)} {units : List UInt16}

theorem flatMap_heard (carry : Carry buffers units) (h : 0 ∉ units) :
    buffers.flatMap heard = units := by
  induction carry with
  | nothing => rfl
  | last ended _ _ => rw [List.flatMap_singleton, ended.heard_eq h]
  | full ended _ _ ih =>
      rw [List.mem_append, not_or] at h
      rw [List.flatMap_cons, ended.heard_eq h.1, ih h.2]

/-- Each buffer has a chunk in it and the zero behind that. -/
theorem ended_heard (carry : Carry buffers units) (h : 0 ∉ units) :
    ∀ cells ∈ buffers, Ended cells (heard cells) ∧ 1 ≤ (heard cells).length ∧
      (heard cells).length ≤ bufferSize - 1 := by
  induction carry with
  | nothing => exact List.forall_mem_nil _
  | last ended hpos hle =>
      rw [List.forall_mem_singleton, ended.heard_eq h]
      exact ⟨ended, hpos, hle⟩
  | full ended hfull _ ih =>
      rw [List.mem_append, not_or] at h
      rw [List.forall_mem_cons, ended.heard_eq h.1, hfull]
      exact ⟨⟨ended, by decide, le_rfl⟩, ih h.2⟩

/-- Only the last buffer may have room left. -/
theorem length_heard_of_mem_dropLast (carry : Carry buffers units) (h : 0 ∉ units) :
    ∀ cells ∈ buffers.dropLast, (heard cells).length = bufferSize - 1 := by
  induction carry with
  | nothing => exact List.forall_mem_nil _
  | last _ _ _ => exact List.forall_mem_nil _
  | @full _ _ _ buffers ended hfull _ ih =>
      rw [List.mem_append, not_or] at h
      cases buffers with
      | nil => exact List.forall_mem_nil _
      | cons next rest =>
          rw [List.dropLast_cons_of_ne_nil (List.cons_ne_nil _ _), List.forall_mem_cons,
            ended.heard_eq h.1]
          exact ⟨hfull, ih h.2⟩

end Carry

end Console

/-! ## Printing -/

open Console

/-- A text without NUL comes out whole: with a console, a buffer is handed over to the firmware
some number of times, no unit is ever put beside it, and each time it holds from 1 to 127 units
with a zero behind them, all but the last time 127; put together these are the units of the
text. -/
theorem text_carried_whole {services : Services σ} (hconsole : services.hasOutput = true)
    {text : String} (hnul : '\x00' ∉ text.toList) :
    ∃ buffers : List (List UInt16),
      guardedCalls text = some buffers ∧
      (∀ world, print services text world =
        buffers.foldl (fun world cells => services.outputString cells world) world) ∧
      (∀ cells ∈ buffers, cells.length = 128 ∧ cells[(heard cells).length]? = some 0 ∧
        1 ≤ (heard cells).length ∧ (heard cells).length ≤ 127) ∧
      (∀ cells ∈ buffers.dropLast, (heard cells).length = 127) ∧
      buffers.flatMap heard = Text.utf16 text := by
  have hempty : (List.replicate bufferSize (0 : UInt16)).length = bufferSize :=
    List.length_replicate
  have hcarry : Carry (calls text) (Text.utf16 text) := (filled_empty hempty).carry _
  have hzero : 0 ∉ Text.utf16 text := fun h => Text.ne_zero_of_mem_utf16 hnul 0 h rfl
  refine ⟨calls text, guardedCallsFrom_eq hempty (by decide) _, fun world => ?_,
    fun cells hcells => ?_, hcarry.length_heard_of_mem_dropLast hzero, hcarry.flatMap_heard hzero⟩
  · rw [print, if_pos hconsole]
  · obtain ⟨ended, hpos, hle⟩ := hcarry.ended_heard hzero cells hcells
    exact ⟨ended.size, ended.getElem?_length, hpos, hle⟩

/-- The two halves of a surrogate pair go into different chunks. -/
theorem split_pair_printed :
    let services := Rehearsal.Platform.services {}
    let text := String.ofList (List.replicate 126 'a' ++ ['😀', '!'])
    services.hasOutput = true ∧ '\x00' ∉ text.toList ∧
      ∃ buffers : List (List UInt16),
        buffers.map heard = [List.replicate 126 0x61 ++ [0xD83D], [0xDE00, 0x21]] ∧
        ∀ world, print services text world =
          buffers.foldl (fun world cells => services.outputString cells world) world := by
  intro services text
  have hnul : '\x00' ∉ text.toList := by
    rw [String.toList_ofList]
    decide
  have hconsole : services.hasOutput = true := rfl
  obtain ⟨buffers, hguarded, hprint, -⟩ := text_carried_whole hconsole hnul
  refine ⟨hconsole, hnul, buffers, ?_, hprint⟩
  have hheard : (guardedCalls text).map (List.map heard) =
      some [List.replicate 126 0x61 ++ [0xD83D], [0xDE00, 0x21]] := by
    rw [guardedCalls, Text.utf16, String.toList_ofList]
    decide +kernel
  rw [hguarded] at hheard
  exact Option.some.inj hheard

end BootVolume.Uefi
