import BootVolume.Uefi.Services

/-!
# The text console

Text goes out in UTF-16 through one buffer of 128 units. Whenever 127 units are
in it, and at the end of the text, a zero is put behind them and the buffer is
handed to the firmware, which writes it up to the first zero.
-/

namespace BootVolume.Uefi

variable {σ : Type}

namespace Console

/-- Units in the buffer. -/
def bufferSize : Nat := 128

/-- The buffer as it is handed over each time. `cells` is the buffer and `used` the
number of units in it that were not handed over yet. -/
def callsFrom (cells : List UInt16) (used : Nat) : List UInt16 → List (List UInt16)
  | [] => if used = 0 then [] else [cells.set used 0]
  | u :: rest =>
      let cells := cells.set used u
      if used + 1 = bufferSize - 1 then
        let cells := cells.set (used + 1) 0
        cells :: callsFrom cells 0 rest
      else callsFrom cells (used + 1) rest

/-- The buffers that are handed over for a text. -/
def calls (text : String) : List (List UInt16) :=
  callsFrom (List.replicate bufferSize 0) 0 (Text.utf16 text)

/-- What the firmware makes of a buffer: the units before the first zero. -/
def heard (buffer : List UInt16) : List UInt16 := buffer.takeWhile (· != 0)

/-- Write a text; without a console nothing is written. -/
def print (services : Services σ) (text : String) (world : σ) : σ :=
  if services.hasOutput then
    (calls text).foldl (fun world buffer => services.outputString buffer world) world
  else world

/-- Choose the colour of what is written from now on. -/
def setColour (services : Services σ) (colour : Nat) (world : σ) : σ :=
  if services.hasOutput then services.setAttribute colour world else world

/-- The colour that the console rests in. -/
def lightGrey : Nat := 0x07

/-- The colour of a line, as far as its level gives it one of its own. -/
def colourOf : Level → Nat
  | .error => 0x0C
  | .warn => 0x0E
  | _ => lightGrey

/-- Show a journal line in the colour of its level, warnings and errors with the name
of the level before them. -/
def showLine (services : Services σ) (level : Level) (line : String) (world : σ) : σ :=
  let world := setColour services (colourOf level) world
  let world :=
    if Level.warn.rank ≤ level.rank then
      print services ": " (print services level.label world)
    else world
  let world := print services "\r\n" (print services line world)
  setColour services lightGrey world

/-- Where journal lines are shown, if there is a console. -/
def sink? (services : Services σ) : Option (Level → String → σ → σ) :=
  if services.hasOutput then some (Console.showLine services) else none

/-- Wait for a key and swallow it; without a keyboard there is nothing to wait for. -/
def waitForKey (services : Services σ) (world : σ) : σ :=
  if services.hasInput then
    services.readKey (services.waitForKeyEvent 1 (services.resetInput false world))
  else world

end Console

end BootVolume.Uefi
