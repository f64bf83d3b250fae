import BootVolume.Bytes

/-!
# Patching the boot configuration store

A boot configuration store names its programs in UTF-16 text. Whatever ends in
`.exe` there, in letters of either case, ends in `.efi` after patching, so
that a store made for one kind of firmware serves the other. Only references
that lie inside the bytes at hand are seen.
-/

namespace BootVolume.Files.BootStore

/-- `.exe` in UTF-16. -/
def sought : Bytes := [0x2E, 0, 0x65, 0, 0x78, 0, 0x65, 0]

/-- `.efi` in UTF-16. -/
def replacement : Bytes := [0x2E, 0, 0x65, 0, 0x66, 0, 0x69, 0]

/-- A byte with the letters A to Z in lower case. -/
def foldByte (b : UInt8) : UInt8 := if 65 ≤ b ∧ b ≤ 90 then b + 32 else b

/-- Whether bytes start with the reference sought, in letters of either case. -/
def isHit (data : Bytes) : Bool := (data.take 8).map foldByte == sought

/-- Patch at the first `windows` positions of `data` in turn, each looking at
what the ones before have left. The positions that were patched are given
with the result, counted from `position`. -/
def patchFrom (position : Nat) : (windows : Nat) → Bytes → Bytes × List Nat
  | 0, data => (data, [])
  | _ + 1, [] => ([], [])
  | windows + 1, b :: rest =>
      if isHit (b :: rest) then
        let (out, hits) := patchFrom (position + 1) windows (replacement.tail ++ rest.drop 7)
        (0x2E :: out, position :: hits)
      else
        let (out, hits) := patchFrom (position + 1) windows rest
        (b :: out, hits)

/-- The patched bytes, and where references were patched. -/
def patch (data : Bytes) : Bytes × List Nat := patchFrom 0 (data.length - 7) data

end BootVolume.Files.BootStore
