/-!
# UTF-16

A text as 16-bit units, and units as text. A unit string may hold surrogates
without a partner; the strict reading refuses those, the lenient one puts
U+FFFD in their place.
-/

namespace BootVolume.Text

/-- The units of one character: one, or a surrogate pair from U+10000 on. -/
def unitsOfChar (c : Char) : List UInt16 :=
  if c.toNat < 0x10000 then [UInt16.ofNat c.toNat]
  else
    let n := c.toNat - 0x10000
    [UInt16.ofNat (0xD800 + n / 0x400), UInt16.ofNat (0xDC00 + n % 0x400)]

/-- The units of a text. -/
def utf16 (text : String) : List UInt16 := text.toList.flatMap unitsOfChar

/-- A unit that opens a surrogate pair. -/
def isHighSurrogate (u : UInt16) : Bool := 0xD800 ≤ u && u < 0xDC00

/-- A unit that closes a surrogate pair. -/
def isLowSurrogate (u : UInt16) : Bool := 0xDC00 ≤ u && u < 0xE000

/-- The character of a unit that stands alone, none for a surrogate. -/
def charOfUnit (u : UInt16) : Option Char :=
  if isHighSurrogate u || isLowSurrogate u then none else some (Char.ofNat u.toNat)

/-- The character of a surrogate pair. -/
def charOfPair (high low : UInt16) : Char :=
  Char.ofNat (0x10000 + (high.toNat - 0xD800) * 0x400 + (low.toNat - 0xDC00))

/-- The characters of a unit string, with `none` for each surrogate that has no
partner. -/
def charsOfUnits : List UInt16 → List (Option Char)
  | [] => []
  | [u] => [charOfUnit u]
  | u :: v :: rest =>
      if isHighSurrogate u && isLowSurrogate v then
        some (charOfPair u v) :: charsOfUnits rest
      else
        charOfUnit u :: charsOfUnits (v :: rest)

/-- The text of a unit string, with U+FFFD for each surrogate that has no
partner. -/
def ofUtf16Lossy (units : List UInt16) : String :=
  String.ofList ((charsOfUnits units).map fun c => c.getD '\uFFFD')

/-- The text of a unit string, if every surrogate has its partner. -/
def ofUtf16? (units : List UInt16) : Option String :=
  ((charsOfUnits units).mapM id).map String.ofList

end BootVolume.Text
