import BootVolume.Bytes

/-!
# Checksums of names

Two sums over names: the 32-bit cyclic redundancy check, which makes a short
name out of a long one, and the 8-bit sum by which long-name slots refer to the
short name they belong to.
-/

namespace BootVolume.Fat

/-- One bit of the division by the polynomial with the reversed form 0xEDB88320. -/
def crcBit (crc : UInt32) : UInt32 :=
  if crc &&& 1 = 0 then crc >>> 1 else (crc >>> 1) ^^^ 0xEDB88320

/-- The remainder after one more byte. -/
def crcByte (crc : UInt32) (b : UInt8) : UInt32 :=
  Nat.repeat crcBit 8 (crc ^^^ b.toUInt32)

/-- The 32-bit cyclic redundancy check of `data`. -/
def crc32 (data : Bytes) : UInt32 := ~~~(data.foldl crcByte 0xFFFFFFFF)

/-- A byte rotated right by one bit. -/
def rotateRight (b : UInt8) : UInt8 := (b >>> 1) ||| (b <<< 7)

/-- The sum of a short name that its long-name slots carry. -/
def shortSum (short : Bytes) : UInt8 := short.foldl (fun sum b => rotateRight sum + b) 0

end BootVolume.Fat
