import BootVolume.Content.Source

/-!
# Scripted content

Open files and providers whose behaviour is written down in advance: files that
deliver in small portions or fail after a while, and providers that fail, bring
less than they claim, or compute their bytes. They let a run be rehearsed
without firmware.
-/

namespace BootVolume.Rehearsal

/-- An open file that follows a script. -/
structure ScriptedFile where
  data : Bytes
  /-- The most bytes that one read delivers. -/
  portion : Nat
  /-- The length that is claimed. -/
  size : UInt64
  failSize : Option Status := none
  failSeek : Option Status := none
  /-- The failure of each read after the first `readsLeft`. -/
  failRead : Option Status := none
  readsLeft : Nat := 0
  position : Nat := 0
  deriving DecidableEq, Repr, Inhabited

namespace ScriptedFile

/-- The claimed length. -/
def length (f : ScriptedFile) : Except ReadError UInt64 :=
  match f.failSize with
  | some status => .error (.device status)
  | none => .ok f.size

/-- Move to a position. -/
def seek (f : ScriptedFile) (position : Nat) : Except ReadError Unit × ScriptedFile :=
  match f.failSeek with
  | some status => (.error (.device status), f)
  | none => (.ok (), { f with position })

/-- Read on from the position. -/
def read (f : ScriptedFile) (count : Nat) : Except ReadError (AtMost count) × ScriptedFile :=
  match f.failRead, f.readsLeft with
  | some status, 0 => (.error (.device status), f)
  | _, _ =>
      let data := Bytes.slice f.data f.position (min count f.portion)
      (.ok ⟨data, by simp only [data, Bytes.length_slice]; omega⟩,
        { f with position := f.position + data.length, readsLeft := f.readsLeft - 1 })

end ScriptedFile

/-- A provider that follows a script. -/
inductive ScriptedProvider where
  /-- Every request fails. -/
  | failing (status : Status)
  /-- The bytes are these, whatever length is claimed. -/
  | fixed (data : Bytes)
  /-- The byte at `i` is the low byte of `i * factor + start`. -/
  | computed (length factor start : Nat)
  deriving DecidableEq, Repr, Inhabited

/-- The answer of a provider. -/
def ScriptedProvider.provide (p : ScriptedProvider) (offset count : Nat) :
    Except ReadError (AtMost count) :=
  match p with
  | failing status => .error (.device status)
  | fixed data => .ok (AtMost.slice data offset count)
  | computed length factor start =>
      let available := min count (length - offset)
      .ok ⟨(List.range available).map fun i => UInt8.ofNat ((offset + i) * factor + start), by
        simp only [List.length_map, List.length_range, available]; omega⟩

end BootVolume.Rehearsal
