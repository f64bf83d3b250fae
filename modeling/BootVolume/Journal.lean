/-!
# The journal

The lines that a run has reported, kept in a ring of fixed capacity: once it is
full, each new line takes the place of the oldest one. `Journal.toList` is the
view of the ring, oldest line first.
-/

namespace BootVolume

/-- How much a line matters, in rising order. -/
inductive Level where
  | debug
  | info
  | warn
  | error
  deriving DecidableEq, Repr, Inhabited

namespace Level

/-- The position of a level in the rising order. -/
def rank : Level → Nat
  | debug => 0
  | info => 1
  | warn => 2
  | error => 3

/-- The name of a level as it is printed. -/
def label : Level → String
  | debug => "DEBUG"
  | info => "INFO"
  | warn => "WARN"
  | error => "ERROR"

/-- The level with the given name. -/
def ofLabel? (name : String) : Option Level :=
  [debug, info, warn, error].find? fun level => level.label == name

theorem ofLabel?_label (level : Level) : ofLabel? level.label = some level := by
  cases level <;> rfl

end Level

/-- The latest lines of a run. The ring grows until it holds `capacity` lines;
from then on `head` is the position of the oldest one. -/
structure Journal where
  /-- The lines in storage order. -/
  lines : Array (Level × String)
  /-- The position that the next line takes once the ring is full. -/
  head : Nat
  /-- How many lines were ever written. -/
  total : Nat
  deriving Repr, Inhabited

namespace Journal

/-- How many lines the ring holds at most. -/
def capacity : Nat := 256

/-- A journal without lines. -/
def empty : Journal := ⟨#[], 0, 0⟩

/-- Write a line, over the oldest one if the ring is full. -/
def push (j : Journal) (level : Level) (line : String) : Journal where
  lines :=
    if j.lines.size < capacity then j.lines.push (level, line)
    else j.lines.setIfInBounds j.head (level, line)
  head := (j.head + 1) % capacity
  total := j.total + 1

/-- The lines that are still held, oldest first. -/
def toList (j : Journal) : List (Level × String) :=
  let lines := j.lines.toList
  if j.lines.size < capacity then lines else lines.drop j.head ++ lines.take j.head

/-- The newest `n` of the lines that are still held, oldest first. -/
def last (j : Journal) (n : Nat) : List (Level × String) :=
  j.toList.drop (j.lines.size - n)

/-- How many lines are held. -/
def count (j : Journal) : Nat := min j.total capacity

end Journal

end BootVolume
