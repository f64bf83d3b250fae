import Mathlib
import BootVolume.Fat.Table
import BootVolume.Proofs.Slices

/-!
# Tables of abutting chains

The chains of a disk stand one behind the other without a gap.  So a cluster
belongs to at most one of them, which alone writes its entry: the next cluster,
or the end mark for the last one.
-/

namespace BootVolume.Fat

theorem Chain.covers_iff {c : Chain} {n : Nat} :
    c.covers n = true ↔ c.first.toNat ≤ n ∧ n < c.stop := by
  simp [covers]

/-- Chains, none of them empty, that fill the clusters from `start` up to `stop`. -/
def Abut : (start : Nat) → List Chain → (stop : Nat) → Prop
  | start, [], stop => start = stop
  | start, c :: rest, stop => c.first.toNat = start ∧ 0 < c.count.toNat ∧ Abut c.stop rest stop

namespace Abut

variable {start stop : Nat} {chains : List Chain} {c : Chain} {n : Nat}

theorem start_le_stop (h : Abut start chains stop) : start ≤ stop := by
  induction chains generalizing start with
  | nil => exact Nat.le_of_eq h
  | cons c rest ih =>
      obtain ⟨hfirst, -, hrest⟩ := h
      have := ih hrest
      unfold Chain.stop at this
      omega

theorem bounds (h : Abut start chains stop) (hc : c ∈ chains) :
    start ≤ c.first.toNat ∧ 0 < c.count.toNat ∧ c.stop ≤ stop := by
  induction chains generalizing start with
  | nil => cases hc
  | cons d rest ih =>
      obtain ⟨hfirst, hcount, hrest⟩ := h
      rcases List.mem_cons.mp hc with rfl | hc
      · exact ⟨Nat.le_of_eq hfirst.symm, hcount, hrest.start_le_stop⟩
      · obtain ⟨hlow, hpos, hhigh⟩ := ih hrest hc
        unfold Chain.stop at hlow
        exact ⟨by omega, hpos, hhigh⟩

/-- A cluster belongs to one chain only. -/
theorem find?_of_covers (h : Abut start chains stop) (hc : c ∈ chains) (hn : c.covers n = true) :
    chains.find? (·.covers n) = some c := by
  induction chains generalizing start with
  | nil => cases hc
  | cons d rest ih =>
      obtain ⟨-, -, hrest⟩ := h
      rcases List.mem_cons.mp hc with rfl | hc
      · exact List.find?_cons_of_pos hn
      · have hbounds := hrest.bounds hc
        have hd : ¬ d.covers n = true := by
          rw [Chain.covers_iff] at hn ⊢
          omega
        rw [List.find?_cons_of_neg (p := fun e : Chain => e.covers n) hd]
        exact ih hrest hc

end Abut

/-! ## What a chain writes -/

namespace Chain

variable {c : Chain} {n : Nat}

theorem bound_toNat (h : c.stop < 2 ^ 32) : c.bound.toNat = c.stop := by
  rw [bound, UInt32.toNat_add]
  exact Nat.mod_eq_of_lt h

/-- A chain writes its own clusters, whatever their number, and no other entry. -/
theorem covers_of_writes (h : c.writes n = true) : c.covers n = true := by
  simp only [writes, covers, Bool.and_eq_true, decide_eq_true_eq] at h ⊢
  have hbound : c.bound.toNat ≤ c.stop := by
    rw [bound, UInt32.toNat_add]
    exact Nat.mod_le ..
  omega

theorem overwrite_of_covers (hwords : c.stop < 2 ^ 32) (h : c.covers n = true) (before : UInt32) :
    c.overwrite n before = if n + 1 = c.stop then endMark else UInt32.ofNat (n + 1) := by
  have hwrites : c.writes n = true := by
    rwa [writes, bound_toNat hwords]
  rw [overwrite, if_pos hwrites, entry, bound_toNat hwords]

theorem overwrite_of_not_covers (h : ¬ c.covers n = true) (before : UInt32) :
    c.overwrite n before = before :=
  if_neg (mt covers_of_writes h)

end Chain

namespace Abut

variable {start stop : Nat} {chains : List Chain} {c : Chain} {n : Nat}

/-- Where no chain stands, what was there before stays. -/
theorem foldl_of_outside (h : Abut start chains stop) (hn : n < start ∨ stop ≤ n)
    (before : UInt32) :
    chains.foldl (fun before c => c.overwrite n before) before = before := by
  induction chains generalizing start before with
  | nil => rfl
  | cons d rest ih =>
      have hbounds := h.bounds (List.mem_cons_self ..)
      obtain ⟨-, -, hrest⟩ := h
      have hd : ¬ d.covers n = true := by
        rw [Chain.covers_iff]
        omega
      rw [List.foldl_cons, Chain.overwrite_of_not_covers hd]
      refine ih hrest ?_ before
      unfold Chain.stop at hbounds ⊢
      omega

/-- The chain of a cluster writes its entry, and none of the others does. -/
theorem foldl_of_covers (h : Abut start chains stop) (hwords : stop < 2 ^ 32) (hc : c ∈ chains)
    (hn : c.covers n = true) (before : UInt32) :
    chains.foldl (fun before c => c.overwrite n before) before =
      if n + 1 = c.stop then endMark else UInt32.ofNat (n + 1) := by
  induction chains generalizing start before with
  | nil => cases hc
  | cons d rest ih =>
      obtain ⟨-, -, hrest⟩ := h
      rw [List.foldl_cons]
      rcases List.mem_cons.mp hc with rfl | hc
      · have hle := hrest.start_le_stop
        rw [hrest.foldl_of_outside (Or.inl (Chain.covers_iff.mp hn).2),
          Chain.overwrite_of_covers (Nat.lt_of_le_of_lt hle hwords) hn]
      · exact ih hrest hc _

end Abut

namespace Table

/-! ## Entries -/

theorem entry_of_covers {t : Table} {stop : Nat} (abut : Abut 2 t.chains stop)
    (hwords : stop < 2 ^ 32) {c : Chain} (hc : c ∈ t.chains) {n : Nat} (hn : c.first.toNat ≤ n)
    (hstop : n < c.stop) :
    t.entry n = if n + 1 = c.stop then endMark else UInt32.ofNat (n + 1) :=
  abut.foldl_of_covers hwords hc (Chain.covers_iff.mpr ⟨hn, hstop⟩) _

/-- Beside the chains the table is as it was before they were written. -/
theorem entry_of_outside {t : Table} {stop : Nat} (abut : Abut 2 t.chains stop) {n : Nat}
    (hn : n < 2 ∨ stop ≤ n) : t.entry n = reserved n :=
  abut.foldl_of_outside hn _

theorem entry_of_behind {t : Table} {stop : Nat} (abut : Abut 2 t.chains stop) {n : Nat}
    (hn : stop ≤ n) : t.entry n = 0 := by
  have := abut.start_le_stop
  rw [entry_of_outside abut (Or.inr hn), reserved, if_neg (by omega), if_neg (by omega)]

/-! ## Bytes -/

theorem byteAt_of_behind {t : Table} {stop : Nat} (abut : Abut 2 t.chains stop) {position : Nat}
    (h : 4 * stop ≤ position) : t.byteAt position = 0 := by
  rw [byteAt, entry_of_behind abut (by omega)]
  have : position % 4 < 4 := Nat.mod_lt _ (by decide)
  interval_cases position % 4 <;> rfl

/-- The entries as they are stored, four bytes each. -/
def bytes (t : Table) : Bytes := (List.range t.entries).flatMap fun n => Bytes.le32 (t.entry n)

@[simp] theorem length_bytes (t : Table) : t.bytes.length = t.size := by
  simp [bytes, size, List.length_flatMap, Nat.mul_comm]

theorem byteAt_of_stored {t : Table} {position : Nat} (h : position < t.size) :
    t.byteAt position = t.bytes.getD position 0 := by
  unfold size at h
  have hentry : (List.range t.entries)[position / 4]? = some (position / 4) :=
    List.getElem?_range (by omega)
  have hword : Bytes.slice t.bytes (4 * (position / 4)) 4 = Bytes.le32 (t.entry (position / 4)) :=
    Bytes.slice_flatMap (fun n => Bytes.length_le32 (t.entry n)) hentry
  rw [byteAt, ← hword, List.getD_eq_getElem?_getD, List.getD_eq_getElem?_getD,
    Bytes.getElem?_slice, if_pos (Nat.mod_lt _ (by decide)), Nat.div_add_mod]

/-- Where entries are stored, reading cuts them out of the stored bytes. -/
theorem read_eq_slice {t : Table} {offset count : Nat} (h : offset + count ≤ t.size) :
    t.read offset count = Bytes.slice t.bytes offset count := by
  have hbytes : t.read offset count =
      (List.range count).map fun i => t.bytes.getD (offset + i) 0 :=
    List.map_congr_left fun i hi => byteAt_of_stored (by
      have := List.mem_range.mp hi
      omega)
  have hnothing : count - (t.bytes.length - offset) = 0 := by
    rw [length_bytes]
    omega
  rw [hbytes, Bytes.map_getD_range, hnothing]
  exact List.append_nil _

/-- The word at the place of an entry is the entry. -/
theorem word32_read (t : Table) (n offset count : Nat) (hoffset : offset ≤ 4 * n)
    (hcount : 4 * n + 4 ≤ offset + count) :
    Bytes.word32 (t.read offset count) (4 * n - offset) = (t.entry n).toNat := by
  have hslice : Bytes.slice (t.read offset count) (4 * n - offset) 4 = Bytes.le32 (t.entry n) := by
    refine List.ext_getElem? fun i => ?_
    rw [Bytes.getElem?_slice]
    by_cases hi : i < 4
    · have hinside : 4 * n - offset + i < count := by omega
      have hquot : (offset + (4 * n - offset + i)) / 4 = n := by omega
      have hrest : (offset + (4 * n - offset + i)) % 4 = i := by omega
      have hlength : i < (Bytes.le32 (t.entry n)).length := by
        rw [Bytes.length_le32]
        exact hi
      simp only [if_pos hi, read, List.getElem?_map, List.getElem?_range hinside, Option.map_some,
        byteAt, hquot, hrest]
      rw [List.getD_eq_getElem _ _ hlength, List.getElem?_eq_getElem hlength]
    · rw [if_neg hi, List.getElem?_eq_none]
      rw [Bytes.length_le32]
      omega
  rw [Bytes.word32, hslice, Bytes.toNatLE_le32]

end Table

end BootVolume.Fat
