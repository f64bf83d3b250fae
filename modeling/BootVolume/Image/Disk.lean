import BootVolume.Fat.Sectors
import BootVolume.Image.Arrangement

/-!
# The virtual disk

The disk is sparse: its metadata are computed when it is built, the content of
its files is read from their sources when a request falls inside their clusters,
and all else reads as zero. `VirtualDisk.build` lays the disk out for a file set,
`VirtualDisk.read` answers requests for any range of its bytes.
-/

namespace BootVolume.Image

open Fat Files

/-- The first block of the partition. -/
def partitionStart : Nat := 0x40

/-- The signature of the disk, which also identifies its medium. -/
def diskSignature : UInt32 := 0xC0FFEEEE

/-- What stands in a region of the disk. -/
inductive Content where
  | bytes (data : Bytes)
  /-- A copy of the allocation table. -/
  | table
  | file (entry : FileEntry)
  deriving DecidableEq, Repr, Inhabited

/-- A range of the disk that does not read as zero. -/
structure Region where
  start : Nat
  length : Nat
  content : Content
  deriving DecidableEq, Repr, Inhabited

/-- The first position behind a region. -/
def Region.stop (r : Region) : Nat := r.start + r.length

/-- A virtual disk. -/
structure VirtualDisk where
  files : FileSet
  arrangement : Arrangement
  /-- The regions in the order of their starts. -/
  regions : List Region

namespace VirtualDisk

/-- The sizes of the volume. -/
def geometry (d : VirtualDisk) : Geometry := d.arrangement.geometry

/-- The number of blocks of the disk. -/
def blocks (d : VirtualDisk) : Nat := partitionStart + d.geometry.totalSectors.toNat

/-- The number of blocks of the partition. -/
def partitionBlocks (d : VirtualDisk) : Nat := d.geometry.totalSectors.toNat

/-- The number of bytes of the disk. -/
def byteLength (d : VirtualDisk) : Nat := d.blocks * sectorSize

end VirtualDisk

/-! ## Layout -/

/-- The position of a sector of the volume on the disk. -/
def sectorOffset (sector : UInt32) : Nat := (partitionStart + sector.toNat) * sectorSize

/-- The position of a cluster on the disk. -/
def clusterOffset (g : Geometry) (cluster : UInt32) : Nat := sectorOffset (g.clusterSector cluster)

/-- A region with the given bytes. -/
def bytesRegion (start : Nat) (data : Bytes) : Region :=
  { start, length := data.length, content := .bytes data }

/-- The regions with metadata sectors. -/
def sectorRegions (a : Arrangement) : List Region :=
  let g := a.geometry
  let boot := bootSector g (UInt32.ofNat partitionStart) diskSignature
  let free := freeSpaceSector (g.clusters - a.used) a.next
  [ bytesRegion 0 (partitionTable diskSignature (UInt32.ofNat partitionStart) g.totalSectors),
    bytesRegion (sectorOffset 0) boot,
    bytesRegion (sectorOffset infoSector) free,
    bytesRegion (sectorOffset backupSector) boot,
    bytesRegion (sectorOffset (backupSector + 1)) free ]

/-- The regions of the two copies of the table. -/
def tableRegions (a : Arrangement) : List Region :=
  [0, 1].map fun copy =>
    { start := sectorOffset (a.geometry.tableStart copy)
      length := a.table.size
      content := .table }

/-- The regions of the directories. -/
def directoryRegions (a : Arrangement) (set : FileSet) : List Region :=
  [ bytesRegion (clusterOffset a.geometry rootCluster)
      (padDirectory (a.rootDirectory set) clusterSize),
    bytesRegion (clusterOffset a.geometry a.firmwareCluster)
      (padDirectory a.firmwareDirectorySlots clusterSize) ]

/-- The region of a placed file, if it is not empty. -/
def fileRegion? (g : Geometry) (p : Placement) : Option Region :=
  if p.first = 0 then none
  else some
    { start := clusterOffset g p.first, length := p.size.toNat, content := .file p.file }

/-- The regions of the disk in the order of their starts. -/
def layRegions (a : Arrangement) (set : FileSet) : List Region :=
  (sectorRegions a ++ tableRegions a ++ directoryRegions a set ++
    a.placements.filterMap (fileRegion? a.geometry)).mergeSort
      fun r s => decide (r.start ≤ s.start)

/-- The disk of a file set with the given visible files. -/
def assemble (set : FileSet) (shown : List Visible) : VirtualDisk :=
  let arrangement := Arrangement.make set shown
  { files := set, arrangement, regions := layRegions arrangement set }

/-- The first file that is too long for a directory entry: of the visible files in
their order, or else the boot target. -/
def oversized? (set : FileSet) (shown : List Visible) : Option FileEntry :=
  (shown.map (·.file) ++ [set.bootTarget]).find? fun file => decide (Bytes.limit32 ≤ file.length)

variable {σ : Type}

/-- Lay out the disk of a file set. The number behind its last cluster has to be a word:
beyond that the entries of the table may have no places, and what is given here for such
a set stands for no disk. -/
def VirtualDisk.build (set : FileSet) : Action σ Failure VirtualDisk := do
  let (shown, warnings) := visibleFiles set
  warnings.forM (reportWarn (σ := σ) ·)
  if let some file := oversized? set shown then
    throw (.input (.fileTooLarge file.name))
  let disk := assemble set shown
  if disk.arrangement.bootAlias.isSome then
    reportDebug (σ := σ) (set.bootTarget.name ++ " also visible as " ++ bootName)
  reportDebug (σ := σ) ("virtual disk: " ++ toString disk.blocks ++ " blocks, " ++
    toString disk.geometry.clusters.toNat ++ " clusters, " ++
    toString disk.arrangement.used.toNat ++ " used")
  return disk

/-! ## Reading -/

/-- The `count` bytes from `offset` of what stands in a region. -/
def Content.read (storage : Storage σ) (table : Table) (offset count : Nat) :
    Content → Action σ ReadError Bytes
  | .bytes data => pure (Bytes.slice data offset count)
  | .table => pure (table.read offset count)
  | .file entry => entry.read storage offset count

/-- `buffer`, which holds the range from `start` to `stop`, with the parts of the given
regions that lie in the range written over it. -/
def overlay (storage : Storage σ) (table : Table) (start stop : Nat) (buffer : Bytes) :
    List Region → Action σ ReadError Bytes
  | [] => pure buffer
  | r :: rest =>
      let low := max start r.start
      let high := min stop r.stop
      if low < high then do
        let data ← r.content.read storage table (low - r.start) (high - low)
        overlay storage table start stop (Bytes.splice buffer (low - start) data) rest
      else
        overlay storage table start stop buffer rest

/-- The number of elements at the start of `xs` that satisfy `p`, for a list where none
behind them does. It is found by halving the stretch of `size` elements from `base` on. -/
def splitPoint {α : Type} (p : α → Bool) (xs : List α) (base size : Nat) : Nat :=
  if 1 < size then
    let middle := base + size / 2
    splitPoint p xs (if xs[middle]?.any p then middle else base) (size - size / 2)
  else if xs[base]?.any p then base + 1
  else base
termination_by size

/-- The regions that a range from `offset` to `stop` touches. -/
def touchedRegions (regions : List Region) (offset stop : Nat) : List Region :=
  let first := splitPoint (fun r => decide (r.stop ≤ offset)) regions 0 regions.length
  (regions.drop first).takeWhile fun r => decide (r.start < stop)

/-- The `count` bytes of the disk from `offset`. -/
def VirtualDisk.read (storage : Storage σ) (d : VirtualDisk) (offset count : Nat) :
    Action σ ReadError Bytes :=
  let stop := offset + count
  if d.byteLength < stop then throw (.outOfRange offset count)
  else
    overlay storage d.arrangement.table offset stop (Bytes.zeros count)
      (touchedRegions d.regions offset stop)

end BootVolume.Image
