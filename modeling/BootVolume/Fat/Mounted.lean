import BootVolume.Fat.Listing
import BootVolume.Fat.ParameterBlock

/-!
# Mounted volumes

A volume as a driver uses it, over any way of reading sectors: it follows the
chains of the allocation table, lists directories, and finds files by their
path, component by component, taking the first entry whose name matches in
letters of either case.
-/

namespace BootVolume.Fat

/-- A volume with a way to read `count` of its sectors from one on. -/
structure Mounted (m : Type → Type) where
  block : ParameterBlock
  read : (sector count : Nat) → m Bytes

namespace Mounted

variable {m : Type → Type} [Monad m] (v : Mounted m)

/-- The entry of a cluster in a copy of the table; its highest four bits mean nothing. -/
def entry (copy cluster : Nat) : m Nat := do
  let offset := 4 * cluster
  let sector ← v.read (v.block.tableStart copy + offset / v.block.sectorSize) 1
  return Bytes.word32 sector (offset % v.block.sectorSize) % 0x10000000

/-- Whether an entry names a cluster and is no mark for the end of a chain. -/
def isLink (entry : Nat) : Bool := decide (2 ≤ entry) && decide (entry < 0x0FFFFFF8)

/-- The first `limit` clusters of the chain that starts at a cluster. -/
def chainFrom : (limit cluster : Nat) → m (List Nat)
  | 0, _ => pure []
  | limit + 1, cluster => do
      if isLink cluster then
        let next ← v.entry 0 cluster
        return cluster :: (← chainFrom limit next)
      else
        return []

/-- The chain that starts at a cluster. One that is longer than the volume runs in a
circle and is cut off. -/
def chain (first : Nat) : m (List Nat) := v.chainFrom v.block.clusterCount first

/-- The bytes of clusters, one after the other. -/
def readClusters : List Nat → m Bytes
  | [] => pure []
  | cluster :: rest => do
      let head ← v.read (v.block.clusterSector cluster) v.block.sectorsPerCluster
      return head ++ (← readClusters rest)

/-- The entries of the directory that starts at a cluster. -/
def directory (cluster : Nat) : m (List Listed) := do
  return listing (← v.readClusters (← v.chain cluster))

/-- The content of a file. -/
def readFile (item : Listed) : m Bytes := do
  return (← v.readClusters (← v.chain item.cluster)).take item.size

/-- Whether an entry is what a component of a path asks for. -/
def answers (component : String) (item : Listed) : Bool :=
  !item.isLabel && Text.sameName item.name component

/-- The cluster of the directory behind an entry; zero stands for the root. -/
def directoryCluster (item : Listed) : Nat :=
  if item.cluster = 0 then v.block.rootCluster else item.cluster

/-- The entry at a path below the directory at a cluster. -/
def resolveFrom (cluster : Nat) : List String → m (Option Listed)
  | [] => pure none
  | component :: rest => do
      match (← v.directory cluster).find? (answers component) with
      | none => return none
      | some item =>
          if rest.isEmpty then return some item
          else resolveFrom (v.directoryCluster item) rest

/-- The entry at a path below the root. -/
def resolve (path : List String) : m (Option Listed) := v.resolveFrom v.block.rootCluster path

end Mounted

/-- The components in the rest of a path with backslashes, where `word` is the current
one so far, last character first. -/
def componentsFrom (word : List Char) : List Char → List String
  | [] => if word.isEmpty then [] else [String.ofList word.reverse]
  | c :: rest =>
      if c = '\\' then
        if word.isEmpty then componentsFrom [] rest
        else String.ofList word.reverse :: componentsFrom [] rest
      else componentsFrom (c :: word) rest

/-- The components of a path with backslashes. -/
def components (path : String) : List String := componentsFrom [] path.toList

end BootVolume.Fat
