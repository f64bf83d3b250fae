import BootVolume.Machine
import BootVolume.Status

/-!
# A heap over the firmware pool

The firmware pool gives blocks at addresses that are multiples of eight. For a
stricter alignment a larger block is taken, the address inside it is rounded up,
and the address of the block itself is kept in the eight bytes below, where it
is found when the memory is given back. Addresses and sizes are 64-bit words.
-/

namespace BootVolume.Uefi

/-- An address in memory. -/
abbrev Address := UInt64

/-- What the heap needs: the pool of the firmware, and words of memory. -/
structure Pool (σ : Type) where
  /-- Take a block of memory of some kind. -/
  allocate : (kind : Nat) → (size : UInt64) → σ → Except Status Address × σ
  /-- Give a block back. -/
  free : (address : Address) → σ → σ
  /-- Keep a word at an address. -/
  store : (address : Address) → (value : UInt64) → σ → σ
  /-- The word at an address. -/
  load : (address : Address) → σ → UInt64

/-- The size and the alignment of a block of memory. The alignment is a power of two, and
the size rounded up to it is at most half of the address space. -/
structure Layout where
  size : UInt64
  alignment : UInt64
  alignment_ne : alignment ≠ 0
  alignment_power : alignment &&& (alignment - 1) = 0
  fits : size.toNat + alignment.toNat ≤ 0x8000000000000000
  deriving DecidableEq, Repr

/-- The layout with the given size and alignment, if there is one. -/
def Layout.ofWords? (size alignment : UInt64) : Option Layout :=
  if h : alignment ≠ 0 ∧ alignment &&& (alignment - 1) = 0 ∧
      size.toNat + alignment.toNat ≤ 0x8000000000000000 then
    some { size, alignment, alignment_ne := h.1, alignment_power := h.2.1, fits := h.2.2 }
  else none

namespace Heap

variable {σ : Type}

/-- The address that stands for no memory. -/
def null : Address := 0

/-- The alignment of every block of the pool. -/
def poolAlignment : UInt64 := 8

/-- The size of an address in memory. -/
def wordSize : UInt64 := 8

/-- The kind of memory that blocks are made of. -/
def memoryKind : Nat := 2

/-- The first multiple of `alignment` with room for a word between it and `address`, where
`alignment` is a power of two. -/
def alignUp (address : Address) (alignment : UInt64) : Address :=
  (address + wordSize + alignment - 1) &&& ~~~(alignment - 1)

/-- Memory of the given layout, or null if there is none to be had. There is none before a
pool is known. -/
def allocate (pool : Option (Pool σ)) (layout : Layout) (world : σ) : Address × σ :=
  match pool with
  | none => (null, world)
  | some pool =>
      if layout.alignment ≤ poolAlignment then
        match pool.allocate memoryKind layout.size world with
        | (.ok address, world) => (address, world)
        | (.error _, world) => (null, world)
      else
        match pool.allocate memoryKind (layout.size + layout.alignment + wordSize) world with
        | (.ok block, world) =>
            let address := alignUp block layout.alignment
            (address, pool.store (address - wordSize) block world)
        | (.error _, world) => (null, world)

/-- Give memory back that was taken with the given layout. -/
def release (pool : Option (Pool σ)) (address : Address) (layout : Layout) (world : σ) : σ :=
  if address = null then world
  else
    match pool with
    | none => world
    | some pool =>
        if layout.alignment ≤ poolAlignment then pool.free address world
        else pool.free (pool.load (address - wordSize) world) world

end Heap

end BootVolume.Uefi
