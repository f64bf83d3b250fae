import BootVolume.Bytes
import BootVolume.Machine
import BootVolume.Status
import BootVolume.Text.Hex

/-!
# Sources of content

The bytes of a file either are in memory or are fetched on demand: from an open
file that is positioned and read, or from a provider outside this library.
`Source.readAt` is one request, which may bring less than was asked for;
`Source.readExact` repeats requests until the whole range is there.
-/

namespace BootVolume

/-- Why content could not be read. -/
inductive ReadError where
  /-- The source ended after `got` of the `expected` bytes from `offset`. -/
  | shortRead (offset expected got : Nat)
  /-- The range lies outside the source. -/
  | outOfRange (offset count : Nat)
  /-- The device behind the source failed. -/
  | device (status : Status)
  deriving DecidableEq, Repr, Inhabited

namespace ReadError

/-- The status of the device, if it is to blame. -/
def status? : ReadError → Option Status
  | device status => some status
  | _ => none

/-- The failure in words. -/
def message : ReadError → String
  | shortRead offset expected got =>
      "premature end of file at " ++ Text.hex offset ++ ": wanted " ++ toString expected ++
        " bytes, got " ++ toString got
  | outOfRange offset count =>
      "read of " ++ toString count ++ " bytes at " ++ Text.hex offset ++ " is out of range"
  | device status => "device read failed (" ++ Text.hex status.toNat ++ ")"

end ReadError

/-- At most `count` bytes: the answer to a request for `count`. -/
abbrev AtMost (count : Nat) := { data : Bytes // data.length ≤ count }

/-- The `count` bytes at `offset`, as far as `data` reaches. -/
def AtMost.slice (data : Bytes) (offset count : Nat) : AtMost count :=
  ⟨Bytes.slice data offset count, by rw [Bytes.length_slice]; omega⟩

/-- An open file of the outside world. -/
abbrev FileId := Nat

/-- A provider of content outside this library. -/
abbrev ProviderId := Nat

/-- A patching rule of the outside world, applied to content as it is read. -/
abbrev RuleId := Nat

/-- What the outside world offers for reading content. -/
structure Storage (σ : Type) where
  /-- The length of an open file. -/
  size : FileId → σ → Except ReadError UInt64 × σ
  /-- Position an open file. -/
  seek : FileId → Nat → σ → Except ReadError Unit × σ
  /-- Read from the position of an open file, at most `count` bytes. -/
  read : FileId → (count : Nat) → σ → Except ReadError (AtMost count) × σ
  /-- Give an open file back. -/
  close : FileId → σ → σ
  /-- Ask a provider for at most `count` bytes from `offset`. -/
  provide : ProviderId → (offset count : Nat) → σ → Except ReadError (AtMost count) × σ
  /-- Apply a rule to the bytes that were read from `offset`; the length stays. -/
  patch : RuleId → (offset : Nat) → (data : Bytes) → σ →
    { out : Bytes // out.length = data.length } × σ

/-- Where the bytes of a file come from, with their claimed length. -/
inductive Source where
  /-- Bytes in memory. -/
  | memory (data : Bytes)
  /-- An open file; the length was taken when it was opened. -/
  | file (id : FileId) (length : UInt64)
  /-- A provider outside this library. -/
  | provider (id : ProviderId) (length : UInt64)
  deriving DecidableEq, Repr, Inhabited

namespace Source

variable {σ : Type}

/-- The claimed length. -/
def length : Source → Nat
  | memory data => data.length
  | file _ length => length.toNat
  | provider _ length => length.toNat

/-- The open file behind a source, if there is one. -/
def fileId? : Source → Option FileId
  | file id _ => some id
  | _ => none

/-- A source over an open file. The length is asked for once; if that fails, the
file is closed again. -/
def ofFile (storage : Storage σ) (id : FileId) : Action σ ReadError Source :=
  ExceptT.mk do
    match ← (Action.outside (storage.size id)).outcome with
    | .ok length => pure (.ok (.file id length))
    | .error cause =>
        Step.outside fun world => ((), storage.close id world)
        pure (.error cause)

/-- One request for `count` bytes from `offset`. An answer without bytes means
the end of the content. -/
def readAt (storage : Storage σ) (source : Source) (offset count : Nat) :
    Action σ ReadError (AtMost count) :=
  match source with
  | memory data =>
      if data.length < offset then throw (.outOfRange offset count)
      else pure (AtMost.slice data offset count)
  | file id length =>
      if length.toNat ≤ offset then pure ⟨[], Nat.zero_le _⟩
      else do
        Action.outside (storage.seek id offset)
        let answer ← Action.outside (storage.read id (min count (length.toNat - offset)))
        pure ⟨answer.val, by have := answer.property; omega⟩
  | provider id _ => Action.outside (storage.provide id offset count)

/-- The bytes from `offset + done` to `offset + count`, by repeated requests. -/
def readRest (storage : Storage σ) (source : Source) (offset count done : Nat) :
    Action σ ReadError Bytes :=
  if done < count then do
    let answer ← source.readAt storage (offset + done) (count - done)
    if _h : answer.val = [] then
      throw (.shortRead offset count done)
    else
      let rest ← readRest storage source offset count (done + answer.val.length)
      pure (answer.val ++ rest)
  else
    pure []
termination_by count - done
decreasing_by
  have : 0 < answer.val.length := List.length_pos_iff.2 _h
  omega

/-- Exactly the `count` bytes from `offset`. -/
def readExact (storage : Storage σ) (source : Source) (offset count : Nat) :
    Action σ ReadError Bytes :=
  source.readRest storage offset count 0

end Source

end BootVolume
