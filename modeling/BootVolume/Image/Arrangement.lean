import BootVolume.Fat.Table
import BootVolume.Image.Visible

/-!
# Where files stand

Directories and files occupy consecutive clusters: the root directory first,
then the directory `\EFI`, then the visible files in their order, and last the
boot target, if it is not among them. Cluster numbers are 32-bit words.
-/

namespace BootVolume.Image

open Fat Files

/-- A file with its place on the volume. -/
structure Placement where
  /-- The position of the file in its set. -/
  index : Nat
  file : FileEntry
  /-- The name in the root directory; a file without one is reached through the alias
  of the boot target alone. -/
  stored : Option StoredName
  /-- The first cluster, zero for an empty file. -/
  first : UInt32
  deriving DecidableEq, Repr, Inhabited

namespace Placement

/-- The number of clusters. -/
def count (p : Placement) : UInt32 := clustersFor p.file.length

/-- The length as the directory gives it. -/
def size (p : Placement) : UInt32 := UInt32.ofNat p.file.length

/-- The chain of clusters, if there is one. -/
def chain? (p : Placement) : Option Chain :=
  if p.count = 0 then none else some { first := p.first, count := p.count }

end Placement

/-- Place a file at cluster `next`; an empty file needs no cluster. -/
def placeAt (next : UInt32) (index : Nat) (file : FileEntry) (stored : Option StoredName) :
    Placement :=
  { index, file, stored, first := if clustersFor file.length = 0 then 0 else next }

/-- Place visible files one after the other from cluster `next` on, and give the first
cluster behind them. -/
def placeFrom (next : UInt32) : List Visible → List Placement × UInt32
  | [] => ([], next)
  | v :: rest =>
      let p := placeAt next v.index v.file (some v.stored)
      let (others, stop) := placeFrom (next + p.count) rest
      (p :: others, stop)

/-- The places of all directories and files. -/
structure Arrangement where
  /-- The number of clusters of the root directory. -/
  rootClusters : UInt32
  /-- The files, the visible ones first. -/
  placements : List Placement
  /-- The first cluster of the boot target. -/
  bootCluster : UInt32
  /-- The name by which the boot target is also shown, if its own name is another. -/
  bootAlias : Option StoredName
  /-- The first cluster behind everything. -/
  next : UInt32
  deriving DecidableEq, Repr, Inhabited

namespace Arrangement

/-- The number of slots that visible files take up. -/
def fileSlotCount : List Visible → Nat
  | [] => 0
  | v :: rest => v.stored.slots + fileSlotCount rest

/-- The number of slots in the root directory: the label, the directories, the visible
files, and the alias of the boot target. -/
def rootSlots (shown : List Visible) (bootAlias : Option StoredName) : Nat :=
  1 + rootAliases.length + 1 + fileSlotCount shown +
    (bootAlias.map StoredName.slots).getD 0

/-- Whether the boot target is shown under the name that the firmware looks for. -/
def bootNameShown (boot : Nat) (shown : List Visible) : Bool :=
  shown.any fun v => v.index == boot && Text.sameName v.file.baseName bootName

/-- The places of the given visible files and of the boot target. -/
def make (set : FileSet) (shown : List Visible) : Arrangement :=
  let bootAlias := if bootNameShown set.boot shown then none else storedName? bootName
  let rootClusters := max (clustersFor (rootSlots shown bootAlias * slotSize)) 1
  let (placements, next) := placeFrom (rootCluster + rootClusters + 1) shown
  match placements.find? (·.index == set.boot) with
  | some boot => { rootClusters, placements, bootCluster := boot.first, bootAlias, next }
  | none =>
      let boot := placeAt next set.boot set.bootTarget none
      { rootClusters
        placements := placements ++ [boot]
        bootCluster := boot.first
        bootAlias
        next := next + boot.count }

/-- The cluster of the directory `\EFI`. -/
def firmwareCluster (a : Arrangement) : UInt32 := rootCluster + a.rootClusters

/-- The number of clusters in use. -/
def used (a : Arrangement) : UInt32 := a.next - 2

/-- The volume that holds everything. -/
def geometry (a : Arrangement) : Geometry := Geometry.forClusters a.used

/-- The chains of all directories and files. -/
def chains (a : Arrangement) : List Chain :=
  { first := rootCluster, count := a.rootClusters } :: { first := a.firmwareCluster, count := 1 } ::
    a.placements.filterMap Placement.chain?

/-- The allocation table. -/
def table (a : Arrangement) : Table := { chains := a.chains, entries := a.next.toNat }

/-! ## Directories -/

/-- The slot of a directory. -/
def directorySlot (short : Bytes) (cluster : UInt32) : Bytes :=
  { short, attributes := attrDirectory, cluster, size := 0 : DirectoryEntry }.encode

/-- The attributes of all files. -/
def fileAttributes : UInt8 := attrReadOnly ||| attrArchive

/-- The slots of a placed file, none if it is not shown. -/
def fileSlots (p : Placement) : Bytes :=
  match p.stored with
  | some stored => stored.encode fileAttributes p.first p.size
  | none => []

/-- The slots under which the boot target is also shown. -/
def aliasSlots (a : Arrangement) (set : FileSet) : Bytes :=
  match a.bootAlias with
  | some stored =>
      stored.encode fileAttributes a.bootCluster (UInt32.ofNat set.bootTarget.length)
  | none => []

/-- The root directory: the label, the directories, the visible files, and the alias
of the boot target. -/
def rootDirectory (a : Arrangement) (set : FileSet) : Bytes :=
  { short := volumeLabel, attributes := attrVolume, cluster := 0, size := 0 :
      DirectoryEntry }.encode ++
    rootAliases.flatMap (directorySlot · rootCluster) ++
    directorySlot firmwareDirectory a.firmwareCluster ++
    a.placements.flatMap fileSlots ++ a.aliasSlots set

/-- The directory `\EFI`: itself, its parent, which is named by zero, and a way back to
the root. -/
def firmwareDirectorySlots (a : Arrangement) : Bytes :=
  directorySlot (Bytes.ascii ".          ") a.firmwareCluster ++
    directorySlot (Bytes.ascii "..         ") 0 ++ directorySlot bootDirectory rootCluster

end Arrangement

end BootVolume.Image
