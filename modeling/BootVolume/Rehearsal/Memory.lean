import BootVolume.Uefi.Heap

/-!
# A scripted pool

A stretch of memory from which the pool is served. Each block starts at the end
of the previous one, rounded up to a page and moved on by a given number of
bytes. Words of memory are kept by their address. Calls are listed with offsets
from the start of the stretch.
-/

namespace BootVolume.Rehearsal

open Uefi

/-- A call to the pool, as it is listed. -/
inductive PoolCall where
  | allocate (kind size : Nat) (block : Option Nat)
  | free (block : Nat)
  deriving DecidableEq, Repr, Inhabited

/-- Memory behind a pool. -/
structure Memory where
  /-- The end of the last block. -/
  used : Nat := 0
  /-- How far the next block is moved on. -/
  skew : Nat := 0
  /-- Whether the next request fails. -/
  failNext : Bool := false
  calls : List PoolCall := []
  /-- The words that were kept, the latest first. -/
  words : List (Address × UInt64) := []
  deriving DecidableEq, Repr, Inhabited

namespace Memory

/-- The address of the stretch. -/
def start : Nat := 0x10000

/-- Bytes in the stretch. -/
def capacity : Nat := 0x100000

/-- The grain of the blocks. -/
def grain : Nat := 4096

/-- Take a block, if the stretch still has room for it. -/
def allocate (kind : Nat) (size : UInt64) (m : Memory) : Except Status Address × Memory :=
  let size := size.toNat
  if m.failNext ∨ capacity < m.used + size + grain then
    (.error Status.outOfResources,
      { m with calls := m.calls ++ [.allocate kind size none] })
  else
    let block := (m.used + grain - 1) / grain * grain + m.skew
    (.ok (UInt64.ofNat (start + block)), { m with
      used := block + size
      calls := m.calls ++ [.allocate kind size (some block)] })

/-- The pool over the stretch. -/
def pool : Pool Memory where
  allocate := allocate
  free address m := { m with calls := m.calls ++ [.free (address.toNat - start)] }
  store address value m := { m with words := (address, value) :: m.words }
  load address m := (m.words.lookup address).getD 0

end Memory

/-! ## Sessions -/

/-- A user of the heap, who remembers what was allocated. -/
structure Session where
  memory : Memory := {}
  /-- The place in the stretch and the layout of every allocation so far. -/
  given : List (Option Nat × Option Layout) := []
  deriving DecidableEq, Repr, Inhabited

namespace Session

/-- The pool, if it is known yet. -/
def poolIf (isKnown : Bool) : Option (Pool Memory) := if isKnown then some Memory.pool else none

/-- The session before a step, with an empty list of calls. -/
def fresh (s : Session) : Session := { s with memory := { s.memory with calls := [] } }

/-- The place of an address in the stretch, none for null. -/
def place (address : Address) : Option Nat :=
  if address = Heap.null then none else some (address.toNat - Memory.start)

/-- Allocate memory, where the next block is moved on by `skew` or refused. -/
def take (s : Session) (isKnown : Bool) (size alignment skew : Nat) (refused : Bool) : Session :=
  let memory := { s.memory with skew, failNext := refused }
  match Layout.ofWords? (UInt64.ofNat size) (UInt64.ofNat alignment) with
  | some layout =>
      let (address, memory) := Heap.allocate (poolIf isKnown) layout memory
      { memory, given := s.given ++ [(place address, some layout)] }
  | none => { memory, given := s.given ++ [(none, none)] }

/-- Give the allocation with the given number back, if there is one. -/
def giveBack (s : Session) (isKnown : Bool) (number : Nat) : Session :=
  match s.given[number]? with
  | some (some place, some layout) =>
      let address := UInt64.ofNat (Memory.start + place)
      { s with memory := Heap.release (poolIf isKnown) address layout s.memory }
  | _ => s

end Session

end BootVolume.Rehearsal
