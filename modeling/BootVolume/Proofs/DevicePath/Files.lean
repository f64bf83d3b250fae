import BootVolume.Proofs.DevicePath
import BootVolume.Proofs.Text.Utf16

/-!
# Files on a device

A walk over a path only finds its way by the length fields, and each file that is
added cuts the end off and puts another one behind.  A path that was closed stays
closed, with one node more (`Closed.withFile`), as long as the length of that node
fits into its field.  So the walk over the path of any number of files on a device
finds every node of it, and the bodies say what the path was made from:
`walk_of_files`.
-/

namespace BootVolume.DevicePath

/-! ## The node of a file -/

theorem length_flatMap_le16 (units : List UInt16) :
    (units.flatMap Bytes.le16).length = 2 * units.length := by
  induction units with
  | nil => rfl
  | cons u rest ih =>
      rw [List.flatMap_cons, List.length_append, Bytes.length_le16, ih, List.length_cons]
      omega

namespace Node

/-- What a node is a node of. -/
def sort (n : Node) : UInt8 × UInt8 := (n.kind, n.subtype)

/-- The node of a file. -/
def ofFile (file : String) : Node := .ofBody 0x04 0x04 ((Text.utf16 file ++ [0]).flatMap Bytes.le16)

theorem length_ofFile (file : String) :
    (ofFile file).length = 4 + 2 * ((Text.utf16 file).length + 1) := by
  show 4 + ((Text.utf16 file ++ [0]).flatMap Bytes.le16).length = _
  rw [length_flatMap_le16, List.length_append, List.length_singleton]

/-- The body is the path of the file with one zero behind it. -/
theorem text_ofFile (file : String) :
    Text.ofUtf16? (unitsIn (ofFile file).body) = some (file.push '\x00') := by
  have hunits : Text.utf16 file ++ [0] = Text.utf16 (file.push '\x00') := by
    rw [Text.utf16, Text.utf16, String.toList_push, List.flatMap_append]
    rfl
  show Text.ofUtf16? (unitsIn ((Text.utf16 file ++ [0]).flatMap Bytes.le16)) = _
  rw [unitsIn_flatMap_le16, hunits, Text.ofUtf16?_utf16]

end Node

namespace Closed

variable {path : DevicePath} {front : List Node}

/-- A file whose node can say how long it is becomes the last node before the end. -/
theorem withFile (closed : Closed path front) {file : String}
    (hfile : (Text.utf16 file).length ≤ 32764) :
    Closed (path.withFile file) (front ++ [.ofFile file]) := by
  have hlength := Node.length_ofFile file
  have hsize : (Node.ofFile file).length < 0x10000 := by omega
  have hnode : fileNode file = (Node.ofFile file).bytes := node_eq_bytes hsize _ _
  have hcut : path.bytes.take (path.bytes.length - endNode.length) = front.flatMap Node.bytes := by
    rw [closed.bytes_eq, List.flatMap_append, List.flatMap_singleton, ← endNode_eq_bytes,
      List.length_append, Nat.add_sub_cancel, List.take_left]
  refine ⟨?_, fun n hn => ?_⟩
  · rw [DevicePath.withFile, hcut, hnode, endNode_eq_bytes]
    simp only [List.flatMap_append, List.flatMap_singleton]
  · rcases List.mem_append.mp hn with hn | hn
    · exact closed.whole n hn
    · rw [List.mem_singleton.mp hn]
      exact .ofBody hsize _ _

theorem withFiles (closed : Closed path front) {files : List String}
    (hfiles : ∀ file ∈ files, (Text.utf16 file).length ≤ 32764) :
    Closed (files.foldl DevicePath.withFile path) (front ++ files.map Node.ofFile) := by
  induction files generalizing path front with
  | nil => rwa [List.map_nil, List.append_nil]
  | cons file rest ih =>
      rw [List.forall_mem_cons] at hfiles
      rw [List.foldl_cons, List.map_cons, List.append_cons]
      exact ih (closed.withFile hfiles.1) hfiles.2

end Closed

/-! ## The device -/

/-- A device that files are on. -/
inductive Origin where
  | disk
  | partition (start sectors : UInt64) (signature : UInt32)
  deriving DecidableEq, Repr

namespace Origin

/-- The path of the device itself. -/
def path : Origin → DevicePath
  | disk => .disk
  | partition start sectors signature => .partition start.toNat sectors.toNat signature

/-- The partition that the device is, if it is one. -/
def place? : Origin → Option PartitionPlace
  | disk => none
  | partition start sectors signature =>
      some { start := start.toNat, sectors := sectors.toNat, signature := signature.toNat }

/-- The nodes of the device. -/
def front : Origin → List Node
  | disk => diskFront
  | partition start sectors signature =>
      diskFront ++ [.ofPartition start.toNat sectors.toNat signature]

theorem closed (origin : Origin) : Closed origin.path origin.front := by
  cases origin with
  | disk => exact closed_disk
  | partition start sectors signature => exact closed_partition ..

theorem map_sort_front (origin : Origin) :
    origin.front.map Node.sort =
      [(0x01, 0x04), (0x03, 0x01)] ++ origin.place?.toList.map fun _ => (0x04, 0x01) := by
  cases origin <;> rfl

/-- The node of a partition tells which one the device is. -/
theorem map_place_front (origin : Origin) :
    (origin.front.filter (·.sort == (0x04, 0x01))).map (.ofBody ·.body) =
      origin.place?.toList := by
  cases origin with
  | disk => rfl
  | partition start sectors signature =>
      have hplace := ofBody_partitionNode signature start.toNat_lt sectors.toNat_lt
      exact congrArg (fun place => [place]) hplace

end Origin

/-! ## The walk -/

/-- What a walk finds on the path of files on a device. -/
structure Walk (path : DevicePath) (origin : Origin) (files : List String) : Prop where
  /-- The walk goes on to the end of the path and leaves nothing out. -/
  bytes_eq : path.nodes.flatMap Node.bytes = path.bytes
  length_eq : ∀ n ∈ path.nodes, n.length = n.bytes.length
  total : (path.nodes.map Node.length).sum = path.bytes.length
  /-- Only the device decides whether there is a node of a partition, and only the last node
  closes the path. -/
  sorts : path.nodes.map Node.sort =
    [(0x01, 0x04), (0x03, 0x01)] ++ origin.place?.toList.map (fun _ => (0x04, 0x01)) ++
      files.map (fun _ => (0x04, 0x04)) ++ [(0x7F, 0xFF)]
  place : (path.nodes.filter (·.sort == (0x04, 0x01))).map (.ofBody ·.body) =
    origin.place?.toList
  /-- The nodes of files, in the order in which the files were added. -/
  texts : (path.nodes.filter (·.sort == (0x04, 0x04))).map
      (fun n => (n.length, Text.ofUtf16? (unitsIn n.body))) =
    files.map fun file => (4 + 2 * ((Text.utf16 file).length + 1), some (file.push '\x00'))

/-- Files of up to 32764 units may be added to the path of a device in any number: all nodes are
found again and say what they were made from. -/
theorem walk_of_files (origin : Origin) {files : List String}
    (hfiles : ∀ file ∈ files, (Text.utf16 file).length ≤ 32764) :
    Walk (files.foldl withFile origin.path) origin files := by
  -- the walk finds the nodes that the path was put together from, and the rest is read off them
  have closed := origin.closed.withFiles hfiles
  have hnodes := closed.nodes_eq
  have hlength : ∀ n ∈ (files.foldl withFile origin.path).nodes, n.length = n.bytes.length := by
    intro n hn
    rw [hnodes] at hn
    rw [Node.length_bytes, (closed.whole_nodes n hn).length_eq]
  have hbytes : (files.foldl withFile origin.path).nodes.flatMap Node.bytes =
      (files.foldl withFile origin.path).bytes := by
    rw [hnodes, closed.bytes_eq]
  refine ⟨hbytes, hlength, ?_, ?_, ?_, ?_⟩
  · rw [← hbytes, List.length_flatMap, List.map_congr_left hlength]
  · rw [hnodes, List.map_append, List.map_append, List.map_map, origin.map_sort_front]
    rfl
  · have hfile : (files.map Node.ofFile).filter (·.sort == (0x04, 0x01)) = [] :=
      List.filter_eq_nil_iff.mpr (List.forall_mem_map.mpr fun _ _ => Bool.false_ne_true)
    have hclosing : [Node.closing].filter (·.sort == (0x04, 0x01)) = [] := rfl
    rw [hnodes, List.filter_append, List.filter_append, hfile, hclosing, List.append_nil,
      List.append_nil, origin.map_place_front]
  · have hdevice : origin.front.filter (·.sort == (0x04, 0x04)) = [] := by cases origin <;> rfl
    have hfile : (files.map Node.ofFile).filter (·.sort == (0x04, 0x04)) = files.map Node.ofFile :=
      List.filter_eq_self.mpr (List.forall_mem_map.mpr fun _ _ => rfl)
    have hclosing : [Node.closing].filter (·.sort == (0x04, 0x04)) = [] := rfl
    rw [hnodes, List.filter_append, List.filter_append, hdevice, hfile, hclosing, List.nil_append,
      List.append_nil, List.map_map]
    exact List.map_congr_left fun file _ =>
      congrArg₂ Prod.mk (Node.length_ofFile file) (Node.text_ofFile file)

theorem Walk.lengths {path : DevicePath} {origin : Origin} {files : List String}
    (walk : Walk path origin files) :
    (path.nodes.filter (·.sort == (0x04, 0x04))).map Node.length =
      files.map fun file => 4 + 2 * ((Text.utf16 file).length + 1) := by
  have hfirst := congrArg (List.map Prod.fst) walk.texts
  rwa [List.map_map, List.map_map] at hfirst

theorem length_utf16_replicate (n : ℕ) :
    (Text.utf16 (String.ofList (List.replicate n 'x'))).length = n := by
  rw [Text.utf16, String.toList_ofList, List.length_flatMap, List.map_replicate,
    List.sum_replicate]
  exact Nat.mul_one n

/-- A name of the greatest length, behind one with a surrogate pair, on the last partition that a
path can describe. -/
theorem longest_name_walked :
    let origin : Origin := .partition 0xFFFFFFFFFFFFFFFF 0xFFFFFFFFFFFFFFFF 0xC0FFEEEE
    let files := ["\\EFI\\😀", String.ofList (List.replicate 32764 'x')]
    let path := files.foldl withFile origin.path
    (∀ file ∈ files, (Text.utf16 file).length ≤ 32764) ∧ Walk path origin files ∧
      (path.nodes.filter (·.sort == (0x04, 0x04))).map Node.length = [20, 65534] := by
  have hlong := length_utf16_replicate 32764
  -- from here on the long name is a name like any other
  generalize String.ofList (List.replicate 32764 'x') = long at hlong ⊢
  intro origin files path
  have hfiles : ∀ file ∈ files, (Text.utf16 file).length ≤ 32764 := by
    rw [List.forall_mem_cons, List.forall_mem_singleton]
    exact ⟨by decide, hlong.le⟩
  have hwalk : Walk path origin files := walk_of_files origin hfiles
  refine ⟨hfiles, hwalk, ?_⟩
  rw [hwalk.lengths]
  simp only [files, List.map_cons, List.map_nil, hlong]
  decide

end BootVolume.DevicePath
