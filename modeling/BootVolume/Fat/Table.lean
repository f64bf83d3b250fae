import BootVolume.Bytes
import BootVolume.Fat.Geometry

/-!
# The allocation table

The table says for each cluster which one follows it. All files and directories
of this library occupy consecutive clusters, so the table is given by its chains
and its entries are computed when they are read. An entry is what stands there
after all chains have been written one after the other.
-/

namespace BootVolume.Fat

/-- The first entry of the table: the kind of medium. -/
def mediaMark : UInt32 := 0x0FFFFFF8

/-- The entry of a cluster that no other one follows. -/
def endMark : UInt32 := 0x0FFFFFFF

/-- Consecutive clusters that belong together. -/
structure Chain where
  first : UInt32
  count : UInt32
  deriving DecidableEq, Repr, Inhabited

namespace Chain

/-- The number behind the last cluster. -/
def stop (c : Chain) : Nat := c.first.toNat + c.count.toNat

/-- Whether a cluster belongs to the chain. -/
def covers (c : Chain) (cluster : Nat) : Bool :=
  decide (c.first.toNat ≤ cluster) && decide (cluster < c.stop)

/-- The word up to which the chain is written. It is the number behind the last cluster,
unless that one takes more than 32 bits. -/
def bound (c : Chain) : UInt32 := c.first + c.count

/-- Whether an entry is written for a cluster. -/
def writes (c : Chain) (cluster : Nat) : Bool :=
  decide (c.first.toNat ≤ cluster) && decide (cluster < c.bound.toNat)

/-- The entry that is written for a cluster: the next one, or the end mark for the last one. -/
def entry (c : Chain) (cluster : Nat) : UInt32 :=
  if cluster + 1 = c.bound.toNat then endMark else UInt32.ofNat (cluster + 1)

/-- The entry of a cluster after the chain is written, where `before` stood. -/
def overwrite (c : Chain) (cluster : Nat) (before : UInt32) : UInt32 :=
  if c.writes cluster then c.entry cluster else before

end Chain

/-- An allocation table. -/
structure Table where
  chains : List Chain
  /-- The number of entries that are stored; the entries behind them are zero. -/
  entries : Nat
  deriving DecidableEq, Repr, Inhabited

namespace Table

/-- The entries before any chain is written. -/
def reserved (n : Nat) : UInt32 := if n = 0 then mediaMark else if n = 1 then endMark else 0

/-- The entry with the given number. Where chains meet, the last one counts. -/
def entry (t : Table) (n : Nat) : UInt32 :=
  t.chains.foldl (fun before c => c.overwrite n before) (reserved n)

/-- The byte at a position of the table. -/
def byteAt (t : Table) (position : Nat) : UInt8 :=
  (Bytes.le32 (t.entry (position / 4))).getD (position % 4) 0

/-- The number of bytes that are stored. -/
def size (t : Table) : Nat := 4 * t.entries

/-- The `count` bytes from `offset`. -/
def read (t : Table) (offset count : Nat) : Bytes :=
  (List.range count).map fun i => t.byteAt (offset + i)

@[simp] theorem length_read (t : Table) (offset count : Nat) :
    (t.read offset count).length = count := by
  simp [read]

end Table

end BootVolume.Fat
