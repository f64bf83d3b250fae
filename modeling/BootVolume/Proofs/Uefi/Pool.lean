import BootVolume.Proofs.Uefi.Placement
import BootVolume.Rehearsal.Memory

/-!
# What the pool promises

`Pool.Lawful` lists what is relied on: the regions that are given out are
aligned and apart from one another until they are given back, and memory inside
them is memory.  Which regions are given out in a state is not something that
the pool can be asked for, so the laws are about a relation `Holds` that says
so.  The scripted pool is lawful (`lawful_pool`).
-/

namespace BootVolume.Uefi

variable {σ : Type}

/-! ## Calls -/

/-- A call of the pool with the answer to it. -/
inductive Call where
  | allocate (kind : Nat) (size : UInt64) (answer : Option Address)
  | free (address : Address)
  deriving DecidableEq, Repr

namespace Call

/-- The region that a call has obtained. -/
def obtained : Call → Option Region
  | .allocate _ size (some start) => some { start, size }
  | .allocate _ _ none => none
  | .free _ => none

/-- The address that a call has given back. -/
def returned : Call → Option Address
  | .allocate .. => none
  | .free address => some address

end Call

/-- The pool with a log of its calls. Words of memory are no calls. -/
def Pool.logged (pool : Pool σ) : Pool (σ × List Call) where
  allocate kind size world :=
    let (answer, after) := pool.allocate kind size world.1
    (answer, after, world.2 ++ [.allocate kind size answer.toOption])
  free address world := (pool.free address world.1, world.2 ++ [.free address])
  store address value world := (pool.store address value world.1, world.2)
  load address world := pool.load address world.1

/-! ## Laws -/

/-- The laws of a pool, where `Holds held world` says that just the regions `held` are given
out in `world`. -/
structure Pool.Lawful (pool : Pool σ) (Holds : List Region → σ → Prop) : Prop where
  /-- Every region is as it should be. -/
  proper {held world} : Holds held world → ∀ region ∈ held, region.IsProper
  /-- No two regions share a place. -/
  apart {held world} : Holds held world →
    held.Pairwise fun first second => Disjoint first.bytes second.bytes
  /-- In which order the regions are listed is of no importance. -/
  perm {held held' world} : held.Perm held' → Holds held world → Holds held' world
  /-- A request that is granted gives out a region. -/
  granted {held kind size world start after} : Holds held world →
    pool.allocate kind size world = (.ok start, after) →
    Holds ({ start, size } :: held) after
  /-- A request that is refused gives out nothing. -/
  refused {held kind size world status after} : Holds held world →
    pool.allocate kind size world = (.error status, after) → Holds held after
  /-- A region is given back by its address. -/
  freed {held region world} : Holds (region :: held) world →
    Holds held (pool.free region.start world)
  /-- To keep a word inside a region gives out nothing. -/
  stored {held region address world} (value : UInt64) : Holds held world → region ∈ held →
    word address ⊆ region.bytes → Holds held (pool.store address value world)
  /-- A word is found where it was kept. -/
  load_store {held region address world} (value : UInt64) : Holds held world → region ∈ held →
    word address ⊆ region.bytes → pool.load address (pool.store address value world) = value
  /-- To keep a word changes no word that is apart from it. -/
  load_store_of_disjoint {held region address other world} (value : UInt64) :
    Holds held world → region ∈ held → word address ⊆ region.bytes →
    Disjoint (word other) (word address) →
    pool.load other (pool.store address value world) = pool.load other world
  /-- A request changes nothing inside the regions. -/
  load_allocate {held region address kind size world answer after} : Holds held world →
    pool.allocate kind size world = (answer, after) →
    region ∈ held → word address ⊆ region.bytes →
    pool.load address after = pool.load address world
  /-- To give a region back changes nothing inside the others. -/
  load_free {held region other address world} : Holds (other :: held) world →
    region ∈ held → word address ⊆ region.bytes →
    pool.load address (pool.free other.start world) = pool.load address world

end BootVolume.Uefi

/-! ## The scripted pool -/

namespace BootVolume.Rehearsal.Memory

open Uefi

/-- In the scripted pool, blocks are moved on by a multiple of eight and by no more than a
page, and they all lie in the part of the stretch that is used. -/
structure Holds (held : List Region) (m : Memory) : Prop where
  skew_dvd : 8 ∣ m.skew
  skew_le : m.skew ≤ grain
  used_le : m.used ≤ capacity + grain
  aligned : ∀ region ∈ held, 8 ∣ region.start.toNat
  start_le : ∀ region ∈ held, start ≤ region.start.toNat
  stop_le : ∀ region ∈ held, region.start.toNat + region.size.toNat ≤ start + m.used
  apart : held.Pairwise fun first second => Disjoint first.bytes second.bytes

/-- Where the next block starts in the stretch. -/
def next (m : Memory) : Nat := (m.used + grain - 1) / grain * grain + m.skew

theorem used_le_next (m : Memory) : m.used ≤ m.next := by
  unfold next grain
  omega

theorem next_lt {m : Memory} : m.next < m.used + grain + m.skew := by
  unfold next grain
  omega

/-- A request is refused, or the next block is inside the stretch. -/
theorem allocate_cases (kind : Nat) (size : UInt64) (m : Memory) :
    (∃ calls, allocate kind size m = (.error Status.outOfResources, { m with calls })) ∨
      m.used + size.toNat + grain ≤ capacity ∧
        ∃ calls, allocate kind size m =
          (.ok (UInt64.ofNat (start + m.next)),
            { m with used := m.next + size.toNat, calls }) := by
  unfold allocate
  by_cases h : m.failNext ∨ capacity < m.used + size.toNat + grain
  · exact .inl ⟨_, if_pos h⟩
  · exact .inr ⟨Nat.not_lt.mp (not_or.mp h).2, _, if_neg h⟩

namespace Holds

variable {held : List Region} {m : Memory}

/-- What is listed and what is kept in memory have no influence on the regions. -/
theorem of_eq {m' : Memory} (h : Holds held m) (hskew : m'.skew = m.skew)
    (hused : m'.used = m.used) : Holds held m' where
  skew_dvd := hskew ▸ h.skew_dvd
  skew_le := hskew ▸ h.skew_le
  used_le := hused ▸ h.used_le
  aligned := h.aligned
  start_le := h.start_le
  stop_le := hused ▸ h.stop_le
  apart := h.apart

theorem isProper (h : Holds held m) {region : Region} (hregion : region ∈ held) :
    region.IsProper where
  start_ne := by
    intro hnull
    have hle := h.start_le region hregion
    rw [hnull] at hle
    exact absurd hle (by decide)
  aligned := h.aligned region hregion
  stop_le := by
    have hstop := h.stop_le region hregion
    have hused := h.used_le
    unfold start capacity grain at *
    omega

/-- The next block is behind all others. -/
theorem granted (h : Holds held m) {size : UInt64} (hroom : m.used + size.toNat + grain ≤ capacity)
    (calls : List PoolCall) :
    Holds (⟨UInt64.ofNat (start + m.next), size⟩ :: held)
      { m with used := m.next + size.toNat, calls } := by
  have hnext := m.used_le_next
  have hlt := m.next_lt
  have hskew := h.skew_le
  have hstart : (UInt64.ofNat (start + m.next)).toNat = start + m.next := by
    refine UInt64.toNat_ofNat_of_lt' ?_
    unfold start capacity grain UInt64.size at *
    omega
  refine ⟨h.skew_dvd, h.skew_le, ?_, ?_, ?_, ?_, ?_⟩
  · dsimp only
    unfold grain at *
    omega
  · refine List.forall_mem_cons.mpr ⟨?_, h.aligned⟩
    have hdvd := h.skew_dvd
    rw [hstart]
    unfold start next grain
    omega
  · refine List.forall_mem_cons.mpr ⟨?_, h.start_le⟩
    rw [hstart]
    exact Nat.le_add_right ..
  · refine List.forall_mem_cons.mpr ⟨?_, fun region hregion => ?_⟩
    · rw [hstart, Nat.add_assoc]
    · have hstop := h.stop_le region hregion
      dsimp only
      omega
  · refine List.pairwise_cons.mpr ⟨fun region hregion => ?_, h.apart⟩
    have hstop := h.stop_le region hregion
    rw [Region.bytes, Region.bytes, span, span, hstart]
    refine Set.disjoint_left.mpr fun place hnew hold => ?_
    have hlow : start + m.next ≤ place := hnew.1
    have hhigh : place < region.start.toNat + region.size.toNat := hold.2
    omega

end Holds

theorem load_store_of_ne {address other : Address} (h : other ≠ address) (value : UInt64)
    (m : Memory) : pool.load other (pool.store address value m) = pool.load other m := by
  have hne : (other == address) = false := beq_eq_false_iff_ne.mpr h
  simp only [pool, List.lookup_cons, hne]

theorem lawful_pool : pool.Lawful Holds where
  proper h _ hregion := h.isProper hregion
  apart h := h.apart
  perm hperm h :=
    { skew_dvd := h.skew_dvd
      skew_le := h.skew_le
      used_le := h.used_le
      aligned region hregion := h.aligned region (hperm.mem_iff.mpr hregion)
      start_le region hregion := h.start_le region (hperm.mem_iff.mpr hregion)
      stop_le region hregion := h.stop_le region (hperm.mem_iff.mpr hregion)
      apart := hperm.pairwise h.apart fun hdisjoint => hdisjoint.symm }
  granted {held kind size m start after} h hallocate := by
    rcases allocate_cases kind size m with ⟨calls, hrefused⟩ | ⟨hroom, calls, hgranted⟩
    · exact absurd (congrArg Prod.fst (hrefused.symm.trans hallocate)) (by nofun)
    · obtain ⟨hstart, rfl⟩ := Prod.mk.inj (hgranted.symm.trans hallocate)
      obtain rfl := Except.ok.inj hstart
      exact h.granted hroom calls
  refused {held kind size m status after} h hallocate := by
    rcases allocate_cases kind size m with ⟨calls, hrefused⟩ | ⟨hroom, calls, hgranted⟩
    · obtain ⟨-, rfl⟩ := Prod.mk.inj (hrefused.symm.trans hallocate)
      exact h.of_eq rfl rfl
    · exact absurd (congrArg Prod.fst (hgranted.symm.trans hallocate)) (by nofun)
  freed h :=
    { skew_dvd := h.skew_dvd
      skew_le := h.skew_le
      used_le := h.used_le
      aligned := (List.forall_mem_cons.mp h.aligned).2
      start_le := (List.forall_mem_cons.mp h.start_le).2
      stop_le := (List.forall_mem_cons.mp h.stop_le).2
      apart := (List.pairwise_cons.mp h.apart).2 }
  stored _ h _ _ := h.of_eq rfl rfl
  load_store _ _ _ _ := by simp [pool]
  load_store_of_disjoint {held region address other m} value _ _ _ hdisjoint := by
    refine load_store_of_ne ?_ value m
    rintro rfl
    have hplace : other.toNat ∈ word other := ⟨le_rfl, Nat.lt_add_of_pos_right (by decide)⟩
    exact Set.disjoint_left.mp hdisjoint hplace hplace
  load_allocate {held region address kind size m answer after} _ hallocate _ _ := by
    rcases allocate_cases kind size m with ⟨calls, hrefused⟩ | ⟨-, calls, hgranted⟩
    · obtain ⟨-, rfl⟩ := Prod.mk.inj (hrefused.symm.trans hallocate)
      rfl
    · obtain ⟨-, rfl⟩ := Prod.mk.inj (hgranted.symm.trans hallocate)
      rfl
  load_free _ _ _ := rfl

end BootVolume.Rehearsal.Memory
