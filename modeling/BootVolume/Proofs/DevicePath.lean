import BootVolume.DevicePath
import BootVolume.Proofs.Slices

/-!
# Device paths taken apart

Taking a path apart gives back the nodes that it was put together from, as long
as each of them is short enough for its length field (`nodesIn_node`).  The paths
that are used are `Closed`: whole nodes, and one behind them that closes the path
(`Closed.nodes_eq`).  So the path of a partition tells where the partition stands
(`nodes_partition`).
-/

namespace BootVolume.DevicePath

/-! ## Whole nodes -/

/-- A node is found in front of whatever follows it. -/
theorem nodesIn_node (kind subtype : UInt8) {body : Bytes} (h : 4 + body.length < 0x10000)
    (rest : Bytes) :
    nodesIn (node kind subtype body ++ rest) =
      { kind, subtype, length := 4 + body.length, body } :: nodesIn rest := by
  obtain ⟨low, high, hpair⟩ :
      ∃ low high, Bytes.le16 (UInt16.ofNat (4 + body.length)) = [low, high] := ⟨_, _, rfl⟩
  have hlength : Bytes.toNatLE [low, high] = 4 + body.length := by
    rw [← hpair, Bytes.toNatLE_le16, UInt16.toNat_ofNat']
    exact Nat.mod_eq_of_lt h
  have hbytes : node kind subtype body ++ rest =
      kind :: subtype :: low :: high :: (body ++ rest) := by
    rw [node, hpair]
    simp
  have hwhole : ¬ (4 + body.length < 4 ∨ 4 + (body ++ rest).length < 4 + body.length) := by
    rw [List.length_append]
    omega
  rw [hbytes, nodesIn]
  simp only [hlength, if_neg hwhole, Nat.add_sub_cancel_left, List.take_left, List.drop_left]

theorem nodesIn_nil : nodesIn [] = [] := by
  rw [nodesIn]
  simp

namespace Node

/-- The bytes that a node is found in. -/
def bytes (n : Node) : Bytes := [n.kind, n.subtype] ++ Bytes.ofNatLE 2 n.length ++ n.body

/-- A node with a body. -/
def ofBody (kind subtype : UInt8) (body : Bytes) : Node :=
  { kind, subtype, length := 4 + body.length, body }

/-- The length field gives the size of the node and can hold it. -/
structure Whole (n : Node) : Prop where
  length_eq : n.length = 4 + n.body.length
  length_lt : n.length < 0x10000

theorem length_bytes (n : Node) : n.bytes.length = 4 + n.body.length := by
  simp only [bytes, List.length_append, List.length_cons, List.length_nil, Bytes.length_ofNatLE]

theorem Whole.ofBody {body : Bytes} (h : 4 + body.length < 0x10000) (kind subtype : UInt8) :
    (Node.ofBody kind subtype body).Whole :=
  ⟨rfl, h⟩

end Node

theorem node_eq_bytes {body : Bytes} (h : 4 + body.length < 0x10000) (kind subtype : UInt8) :
    node kind subtype body = (Node.ofBody kind subtype body).bytes := by
  rw [node, Node.bytes, Bytes.le16, UInt16.toNat_ofNat', Nat.mod_eq_of_lt h]
  rfl

/-- The walk over whole nodes finds them all and nothing else. -/
theorem nodesIn_flatMap_bytes {nodes : List Node} (h : ∀ n ∈ nodes, n.Whole) :
    nodesIn (nodes.flatMap Node.bytes) = nodes := by
  induction nodes with
  | nil => exact nodesIn_nil
  | cons n rest ih =>
      obtain ⟨kind, subtype, length, body⟩ := n
      obtain ⟨rfl : length = 4 + body.length, hlt⟩ := h _ List.mem_cons_self
      have hfound := nodesIn_node kind subtype hlt (rest.flatMap Node.bytes)
      rw [node_eq_bytes hlt, ih fun n hn => h n (List.mem_cons_of_mem _ hn)] at hfound
      exact hfound

/-! ## Closed paths -/

/-- The node behind the last one. -/
def Node.closing : Node := .ofBody 0x7F 0xFF []

theorem endNode_eq_bytes : endNode = Node.closing.bytes := node_eq_bytes (by decide) _ _

/-- The path consists of the nodes of `front` and of one behind them that closes it. -/
structure Closed (path : DevicePath) (front : List Node) : Prop where
  bytes_eq : path.bytes = (front ++ [Node.closing]).flatMap Node.bytes
  whole : ∀ n ∈ front, n.Whole

namespace Closed

variable {path : DevicePath} {front : List Node}

theorem whole_nodes (closed : Closed path front) : ∀ n ∈ front ++ [Node.closing], n.Whole := by
  intro n hn
  rcases List.mem_append.mp hn with hn | hn
  · exact closed.whole n hn
  · rw [List.mem_singleton.mp hn]
    exact .ofBody (by decide) _ _

theorem nodes_eq (closed : Closed path front) : path.nodes = front ++ [Node.closing] := by
  rw [nodes, closed.bytes_eq, nodesIn_flatMap_bytes closed.whole_nodes]

end Closed

/-! ## Devices -/

/-- The nodes that both devices have. -/
def diskFront : List Node := [.ofBody 0x01 0x04 vendorId, .ofBody 0x03 0x01 [0, 0, 0, 0]]

/-- The node of a partition. -/
def Node.ofPartition (start sectors : ℕ) (signature : UInt32) : Node :=
  .ofBody 0x04 0x01
    (Bytes.le32 1 ++ Bytes.le64 start ++ Bytes.le64 sectors ++ Bytes.le32 signature ++
      Bytes.zeros 12 ++ [0x01, 0x01])

theorem Node.length_ofPartition (start sectors : ℕ) (signature : UInt32) :
    (Node.ofPartition start sectors signature).length = 42 := by
  simp only [ofPartition, ofBody, List.length_append, Bytes.length_le32, Bytes.length_le64,
    Bytes.length_zeros]
  rfl

theorem whole_diskFront : ∀ n ∈ diskFront, n.Whole := by
  rw [diskFront, List.forall_mem_cons, List.forall_mem_singleton]
  exact ⟨.ofBody (by decide) _ _, .ofBody (by decide) _ _⟩

theorem flatMap_bytes_diskFront : diskFront.flatMap Node.bytes = vendorNode ++ busNode := by
  rw [vendorNode, busNode, node_eq_bytes (by decide), node_eq_bytes (by decide)]
  rfl

theorem closed_disk : Closed disk diskFront where
  bytes_eq := by
    rw [List.flatMap_append, flatMap_bytes_diskFront, List.flatMap_singleton, ← endNode_eq_bytes]
    rfl
  whole := whole_diskFront

theorem closed_partition (start sectors : ℕ) (signature : UInt32) :
    Closed (partition start sectors signature)
      (diskFront ++ [.ofPartition start sectors signature]) := by
  have hsize : (Node.ofPartition start sectors signature).length < 0x10000 := by
    rw [Node.length_ofPartition]
    decide
  refine ⟨?_, fun n hn => ?_⟩
  · rw [List.flatMap_append, List.flatMap_append, flatMap_bytes_diskFront, List.flatMap_singleton,
      List.flatMap_singleton, ← endNode_eq_bytes, partition, partitionNode, node_eq_bytes hsize]
    rfl
  · rcases List.mem_append.mp hn with hn | hn
    · exact whole_diskFront n hn
    · rw [List.mem_singleton.mp hn]
      exact .ofBody hsize _ _

/-- What the node of a partition says. -/
theorem ofBody_partitionNode {start sectors : Nat} (signature : UInt32)
    (hstart : start < Bytes.wordCount 8) (hsectors : sectors < Bytes.wordCount 8) :
    PartitionPlace.ofBody
        (Bytes.le32 1 ++ Bytes.le64 start ++ Bytes.le64 sectors ++ Bytes.le32 signature ++
          Bytes.zeros 12 ++ [0x01, 0x01]) =
      { start, sectors, signature := signature.toNat } := by
  have hword : ∀ n, n < Bytes.wordCount 8 → Bytes.toNatLE (Bytes.le64 n) = n := by
    intro n hn
    rw [Bytes.le64, Bytes.toNatLE_ofNatLE]
    exact Nat.mod_eq_of_lt hn
  unfold PartitionPlace.ofBody Bytes.word64 Bytes.word32
  simp (disch := simp only [List.length_append, Bytes.length_le32, Bytes.length_le64,
    Bytes.length_zeros]; omega) only [Bytes.slice_append_left, Bytes.slice_append_right]
  simp only [List.length_append, Bytes.length_le32, Bytes.length_le64, Nat.reduceAdd,
    Nat.reduceSub, Bytes.slice_self (Bytes.length_le32 _), Bytes.slice_self (Bytes.length_le64 _),
    Bytes.toNatLE_le32, hword _ hstart, hword _ hsectors]

/-- The path of a partition has one node for a partition, which tells where it stands. -/
theorem nodes_partition {start sectors : Nat} (signature : UInt32)
    (hstart : start < Bytes.wordCount 8) (hsectors : sectors < Bytes.wordCount 8) :
    ∃ body, (partition start sectors signature).nodes =
        [{ kind := 0x01, subtype := 0x04, length := 20, body := vendorId },
          { kind := 0x03, subtype := 0x01, length := 8, body := [0, 0, 0, 0] },
          { kind := 0x04, subtype := 0x01, length := 42, body },
          { kind := 0x7F, subtype := 0xFF, length := 4, body := [] }] ∧
      PartitionPlace.ofBody body = { start, sectors, signature := signature.toNat } := by
  refine ⟨_, ?_, ofBody_partitionNode signature hstart hsectors⟩
  rw [(closed_partition start sectors signature).nodes_eq, ← Node.length_ofPartition]
  rfl

end BootVolume.DevicePath
