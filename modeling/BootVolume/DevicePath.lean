import BootVolume.Bytes
import BootVolume.Text.Utf16

/-!
# Device paths

A device path names a device to the firmware. It is a string of nodes, each with
a type, a subtype, its length and a body, and is closed by an end node.
`DevicePath.nodes` takes a path apart again.

* `unitsIn_flatMap_le16`: the text of a file node reads back.
-/

namespace BootVolume

/-- A device path in the form the firmware reads. -/
structure DevicePath where
  bytes : Bytes
  deriving DecidableEq, Repr, Inhabited

namespace DevicePath

/-- The identifier 1322d197-15dc-4a45-a6a4-fa57054ea614 of the virtual disk, in
firmware byte order. -/
def vendorId : Bytes :=
  [0x97, 0xD1, 0x22, 0x13, 0xDC, 0x15, 0x45, 0x4A, 0xA6, 0xA4, 0xFA, 0x57, 0x05, 0x4E, 0xA6, 0x14]

/-- A node. Its length field has 16 bits. -/
def node (kind subtype : UInt8) (body : Bytes) : Bytes :=
  [kind, subtype] ++ Bytes.le16 (UInt16.ofNat (4 + body.length)) ++ body

/-- The vendor node of the virtual disk. -/
def vendorNode : Bytes := node 0x01 0x04 vendorId

/-- The node of the first unit on the first bus. -/
def busNode : Bytes := node 0x03 0x01 [0, 0, 0, 0]

/-- The node of the first partition of a disk with a partition table of the old kind. -/
def partitionNode (start sectors : Nat) (signature : UInt32) : Bytes :=
  node 0x04 0x01
    (Bytes.le32 1 ++ Bytes.le64 start ++ Bytes.le64 sectors ++ Bytes.le32 signature ++
      Bytes.zeros 12 ++ [0x01, 0x01])

/-- The node of a file: its path in UTF-16 with a zero behind it. -/
def fileNode (file : String) : Bytes :=
  node 0x04 0x04 ((Text.utf16 file ++ [0]).flatMap Bytes.le16)

/-- The node behind the last one. -/
def endNode : Bytes := node 0x7F 0xFF []

/-- The path of the virtual disk. -/
def disk : DevicePath := ⟨vendorNode ++ busNode ++ endNode⟩

/-- The path of the partition of the virtual disk. -/
def partition (start sectors : Nat) (signature : UInt32) : DevicePath :=
  ⟨vendorNode ++ busNode ++ partitionNode start sectors signature ++ endNode⟩

/-- The path of a file on the device. -/
def withFile (path : DevicePath) (file : String) : DevicePath :=
  ⟨path.bytes.take (path.bytes.length - endNode.length) ++ fileNode file ++ endNode⟩

/-! ## Reading a path -/

/-- A node as the firmware finds it. -/
structure Node where
  kind : UInt8
  subtype : UInt8
  /-- The length field. -/
  length : Nat
  body : Bytes
  deriving DecidableEq, Repr, Inhabited

/-- The nodes in a byte string. A node whose length field is less than that of a node
without a body, or reaches past the end, is the last one seen. -/
def nodesIn (data : Bytes) : List Node :=
  match data with
  | kind :: subtype :: low :: high :: rest =>
      let length := Bytes.toNatLE [low, high]
      let node : Node := { kind, subtype, length, body := rest.take (length - 4) }
      if length < 4 ∨ 4 + rest.length < length then [node]
      else node :: nodesIn (rest.drop (length - 4))
  | _ => []
termination_by data.length
decreasing_by
  simp only [List.length_drop, List.length_cons]
  omega

/-- The nodes of a path. -/
def nodes (path : DevicePath) : List Node := nodesIn path.bytes

/-- Bytes as the UTF-16 units they stand for; an odd byte at the end is dropped. -/
def unitsIn : Bytes → List UInt16
  | low :: high :: rest => UInt16.ofNat (Bytes.toNatLE [low, high]) :: unitsIn rest
  | _ => []

/-- The partition that a node describes. -/
structure PartitionPlace where
  start : Nat
  sectors : Nat
  signature : Nat
  deriving DecidableEq, Repr, Inhabited

/-- What the body of a partition node says. -/
def PartitionPlace.ofBody (body : Bytes) : PartitionPlace where
  start := Bytes.word64 body 4
  sectors := Bytes.word64 body 12
  signature := Bytes.word32 body 20

theorem unitsIn_flatMap_le16 (units : List UInt16) :
    unitsIn (units.flatMap Bytes.le16) = units := by
  induction units with
  | nil => rfl
  | cons u rest ih =>
      have hlt : u.toNat < Bytes.wordCount 2 := u.toNat_lt
      have hu : UInt16.ofNat (Bytes.toNatLE (Bytes.le16 u)) = u := by
        rw [Bytes.le16, Bytes.toNatLE_ofNatLE, Nat.mod_eq_of_lt hlt]
        exact UInt16.ofNat_toNat
      simp only [Bytes.le16, Bytes.ofNatLE] at hu
      simp only [List.flatMap_cons, Bytes.le16, Bytes.ofNatLE, List.cons_append,
        List.nil_append, unitsIn, hu]
      exact congrArg (u :: ·) ih

end DevicePath

end BootVolume
