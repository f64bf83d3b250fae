import BootVolume.Proofs.Rounding
import BootVolume.Uefi.Heap

/-!
# Where a block stands

A block with a strict alignment is placed inside a larger region of the pool.
The sums on 64-bit words do not overflow, because a layout takes at most half of
the address space and a region does not reach beyond its end.  So the block and
the word below it lie in the region, whatever address it starts at
(`span_site_subset`, `stash_subset`).
-/

namespace BootVolume.Uefi

/-- The places of `length` bytes of memory from an address on. -/
def span (address : Address) (length : Nat) : Set Nat :=
  Set.Ico address.toNat (address.toNat + length)

/-- The places of the word at an address. -/
def word (address : Address) : Set Nat := span address 8

/-- A stretch of memory that the pool has given out. -/
structure Region where
  start : Address
  size : UInt64
  deriving DecidableEq, Repr

/-- The places of the bytes of a region. -/
def Region.bytes (region : Region) : Set Nat := span region.start region.size.toNat

/-- What the pool promises about a single region. -/
structure Region.IsProper (region : Region) : Prop where
  start_ne : region.start ≠ Heap.null
  aligned : Heap.poolAlignment.toNat ∣ region.start.toNat
  stop_le : region.start.toNat + region.size.toNat ≤ 2 ^ 64

namespace Layout

variable (layout : Layout)

/-- Whether every region of the pool is aligned enough. -/
abbrev IsPlain : Prop := layout.alignment ≤ Heap.poolAlignment

/-- The size that is asked of the pool. -/
def request : UInt64 :=
  if layout.IsPlain then layout.size else layout.size + layout.alignment + Heap.wordSize

/-- Where the block stands in a region that starts at `base`. -/
def site (base : Address) : Address :=
  if layout.IsPlain then base else Heap.alignUp base layout.alignment

/-- The places of the word that is kept below a block, if there is one. -/
def stash (address : Address) : Set Nat :=
  if layout.IsPlain then ∅ else word (address - Heap.wordSize)

variable {layout}

theorem exists_alignment : ∃ k, layout.alignment.toNat = 2 ^ k :=
  exists_two_pow layout.alignment_ne layout.alignment_power

/-- The pool is asked for a block, the word below it and the way to the next aligned address. -/
theorem toNat_request (h : ¬ layout.IsPlain) :
    layout.request.toNat = layout.size.toNat + layout.alignment.toNat + 8 := by
  have hfits := layout.fits
  rw [request, if_neg h, UInt64.toNat_add, UInt64.toNat_add, Heap.wordSize]
  simp only [UInt64.toNat_ofNat]
  omega

/-! ## Rounding up -/

variable {base : Address}

/-- The address is rounded up without an overflow if the next aligned one is in memory. -/
theorem toNat_alignUp {k : Nat} (hk : layout.alignment.toNat = 2 ^ k)
    (hbase : base.toNat + 8 + 2 ^ k ≤ 2 ^ 64) :
    (Heap.alignUp base layout.alignment).toNat = (base.toNat + 8 + 2 ^ k - 1) / 2 ^ k * 2 ^ k := by
  have hpos : 1 ≤ 2 ^ k := Nat.one_le_two_pow
  have hsum : (base + Heap.wordSize + layout.alignment - 1).toNat = base.toNat + 8 + 2 ^ k - 1 := by
    rw [UInt64.toNat_sub, UInt64.toNat_add, UInt64.toNat_add, hk, Heap.wordSize]
    simp only [UInt64.toNat_ofNat]
    omega
  rw [Heap.alignUp, toNat_and_not hk, hsum]

theorem dvd_alignUp (hbase : base.toNat + 8 + layout.alignment.toNat ≤ 2 ^ 64) :
    layout.alignment.toNat ∣ (Heap.alignUp base layout.alignment).toNat := by
  obtain ⟨k, hk⟩ := layout.exists_alignment
  rw [hk] at hbase ⊢
  rw [toNat_alignUp hk hbase]
  exact Nat.dvd_mul_left ..

/-- There is a word between an address and the address rounded up. -/
theorem le_alignUp (hbase : base.toNat + 8 + layout.alignment.toNat ≤ 2 ^ 64) :
    base.toNat + 8 ≤ (Heap.alignUp base layout.alignment).toNat := by
  obtain ⟨k, hk⟩ := layout.exists_alignment
  rw [hk] at hbase
  have hpos : 1 ≤ 2 ^ k := Nat.one_le_two_pow
  have hmod := Nat.mod_lt (base.toNat + 8 + 2 ^ k - 1) hpos
  have hdiv := Nat.div_add_mod' (base.toNat + 8 + 2 ^ k - 1) (2 ^ k)
  rw [toNat_alignUp hk hbase]
  omega

theorem alignUp_lt (hbase : base.toNat + 8 + layout.alignment.toNat ≤ 2 ^ 64) :
    (Heap.alignUp base layout.alignment).toNat < base.toNat + 8 + layout.alignment.toNat := by
  obtain ⟨k, hk⟩ := layout.exists_alignment
  rw [hk] at hbase ⊢
  have hpos : 1 ≤ 2 ^ k := Nat.one_le_two_pow
  have hdiv := Nat.div_mul_le_self (base.toNat + 8 + 2 ^ k - 1) (2 ^ k)
  rw [toNat_alignUp hk hbase]
  omega

/-! ## A block in its region -/

/-- A region for a block with a strict alignment leaves room for the way to it. -/
theorem room_of_isProper (h : ¬ layout.IsPlain)
    (hproper : (Region.mk base layout.request).IsProper) :
    base.toNat + 8 + layout.alignment.toNat ≤ 2 ^ 64 := by
  have hstop : base.toNat + layout.request.toNat ≤ 2 ^ 64 := hproper.stop_le
  rw [toNat_request h] at hstop
  omega

theorem dvd_site (hproper : (Region.mk base layout.request).IsProper) :
    layout.alignment.toNat ∣ (layout.site base).toNat := by
  by_cases h : layout.IsPlain
  · rw [site, if_pos h]
    obtain ⟨k, hk⟩ := layout.exists_alignment
    have hle : 2 ^ k ≤ 2 ^ 3 := by
      rw [← hk]
      exact UInt64.le_iff_toNat_le.mp h
    -- a power of two that is not above eight divides it
    have hdvd : 2 ^ k ∣ 2 ^ 3 :=
      Nat.pow_dvd_pow 2 ((Nat.pow_le_pow_iff_right (by decide)).mp hle)
    rw [hk]
    exact hdvd.trans hproper.aligned
  · rw [site, if_neg h]
    exact dvd_alignUp (room_of_isProper h hproper)

theorem site_ne_null (hproper : (Region.mk base layout.request).IsProper) :
    layout.site base ≠ Heap.null := by
  by_cases h : layout.IsPlain
  · rw [site, if_pos h]
    exact hproper.start_ne
  · rw [site, if_neg h]
    intro hnull
    have hle := le_alignUp (room_of_isProper h hproper)
    rw [hnull] at hle
    exact absurd hle (by simp [Heap.null])

theorem span_site_subset (hproper : (Region.mk base layout.request).IsProper) :
    span (layout.site base) layout.size.toNat ⊆ (Region.mk base layout.request).bytes := by
  by_cases h : layout.IsPlain
  · rw [site, if_pos h, Region.bytes, request, if_pos h]
  · have hroom := room_of_isProper h hproper
    have hle := le_alignUp hroom
    have hlt := alignUp_lt hroom
    rw [site, if_neg h, Region.bytes, toNat_request h]
    exact Set.Ico_subset_Ico (by dsimp only; omega) (by dsimp only; omega)

/-- The word below a block starts eight bytes before it. -/
theorem toNat_word {address : Address} (h : 8 ≤ address.toNat) :
    (address - Heap.wordSize).toNat = address.toNat - 8 :=
  UInt64.toNat_sub_of_le _ _ (UInt64.le_iff_toNat_le.mpr h)

theorem stash_subset (hproper : (Region.mk base layout.request).IsProper) :
    layout.stash (layout.site base) ⊆ (Region.mk base layout.request).bytes := by
  by_cases h : layout.IsPlain
  · rw [stash, if_pos h]
    exact Set.empty_subset _
  · have hroom := room_of_isProper h hproper
    have hle := le_alignUp hroom
    have hlt := alignUp_lt hroom
    rw [stash, if_neg h, site, if_neg h, Region.bytes, toNat_request h, word, span,
      toNat_word (by omega)]
    exact Set.Ico_subset_Ico (by dsimp only; omega) (by dsimp only; omega)

theorem disjoint_stash (hproper : (Region.mk base layout.request).IsProper) :
    Disjoint (span (layout.site base) layout.size.toNat) (layout.stash (layout.site base)) := by
  by_cases h : layout.IsPlain
  · rw [stash, if_pos h]
    exact Set.disjoint_empty _
  · have hle := le_alignUp (room_of_isProper h hproper)
    rw [stash, if_neg h, site, if_neg h, span, word, span, toNat_word (by omega)]
    refine Set.disjoint_left.mpr fun place hblock hword => ?_
    have hend : place < (Heap.alignUp base layout.alignment).toNat - 8 + 8 := hword.2
    have hstart : (Heap.alignUp base layout.alignment).toNat ≤ place := hblock.1
    omega

end Layout

/-! ## The steps of the heap -/

namespace Heap

variable {σ : Type} (pool : Pool σ) (layout : Layout)

/-- Note below a block at `address` where its region starts, if that is not plain. -/
def note (address base : Address) (world : σ) : σ :=
  if layout.IsPlain then world else pool.store (address - wordSize) base world

/-- Where the region of the block at `address` starts, as far as memory tells. -/
def origin (address : Address) (world : σ) : Address :=
  if layout.IsPlain then address else pool.load (address - wordSize) world

variable {pool layout} {world world' : σ} {base address : Address}

theorem allocate_ok
    (h : pool.allocate memoryKind layout.request world = (.ok base, world')) :
    allocate (some pool) layout world =
      (layout.site base, note pool layout (layout.site base) base world') := by
  unfold Layout.request at h
  unfold allocate Layout.site note
  by_cases hplain : layout.IsPlain
  · rw [if_pos hplain] at h
    simp only [if_pos hplain, h]
  · rw [if_neg hplain] at h
    simp only [if_neg hplain, h]

theorem allocate_error {status : Status}
    (h : pool.allocate memoryKind layout.request world = (.error status, world')) :
    allocate (some pool) layout world = (null, world') := by
  unfold Layout.request at h
  unfold allocate
  by_cases hplain : layout.IsPlain
  · rw [if_pos hplain] at h
    simp only [if_pos hplain, h]
  · rw [if_neg hplain] at h
    simp only [if_neg hplain, h]

theorem release_eq (h : address ≠ null) :
    release (some pool) address layout world =
      pool.free (origin pool layout address world) world := by
  rw [release, if_neg h, origin]
  split <;> rfl

end Heap

end BootVolume.Uefi
