import BootVolume.BlockDevice.Mount
import BootVolume.Proofs.Image.ServedRead

/-!
# Reading the devices

A read of whole blocks of a device is a read of the disk at the place of these
blocks; only its failures are replaced by the status of the device (`runOn_read`).
`BlockDevice.readInTurn` reads consecutive blocks in parts of any sizes.
-/

namespace BootVolume.BlockDevice

open Image

variable {σ : Type} {storage : Storage σ} {d : VirtualDisk}

/-- The position of a block of the partition on the disk. -/
def blockPlace (block : Nat) : Nat := (partitionStart + block) * blockSize

/-- What a device makes of the answer of its disk: a failure is reported with the block that was
asked for, and its cause is not passed on. -/
def relay (block : Nat) : Except ReadError Bytes × Machine σ → Except Status Bytes × Machine σ
  | (.ok data, m) => (.ok data, m)
  | (.error cause, m) => (.error Status.deviceError, m.report .warn
      ("virtual disk read at LBA " ++ Text.hex block ++ " failed: " ++ cause.message))

/-- A read is refused without touching the machine, or it is a read of the disk. -/
theorem runOn_read (device : BlockDevice) (storage : Storage σ) (media : UInt32)
    (block count : Nat) (m : Machine σ) :
    (device.read storage media block count).runOn m =
      if media ≠ device.mediaId then (.error Status.mediaChanged, m)
      else if count % blockSize ≠ 0 then (.error Status.badBufferSize, m)
      else if device.blocks < block + count / blockSize then (.error Status.invalidParameter, m)
      else relay block
        ((device.disk.read storage ((block + device.start) * blockSize) count).runOn m) := by
  unfold BlockDevice.read
  split_ifs
  · rfl
  · rfl
  · rfl
  · simp only [Action.runOn_attempt_bind]
    rcases (device.disk.read storage ((block + device.start) * blockSize) count).runOn m with
      ⟨cause | data, m'⟩ <;> rfl

/-- A read of blocks of a device is a read of its disk at their place. -/
theorem runOn_readSectors_device (device : BlockDevice) {sector count : Nat}
    (hrange : sector + count ≤ device.blocks) (storage : Storage σ) (m : Machine σ) :
    (device.readSectors storage sector count).runOn m =
      relay sector ((device.disk.read storage ((sector + device.start) * blockSize)
        (count * blockSize)).runOn m) := by
  have hwhole : ¬ count * blockSize % blockSize ≠ 0 := by
    rw [Nat.mul_mod_left]
    exact fun h => h rfl
  have hinside : ¬ device.blocks < sector + count * blockSize / blockSize := by
    rw [Nat.mul_div_cancel _ (by decide)]
    exact Nat.not_lt.mpr hrange
  rw [readSectors, runOn_read, if_neg (fun h => h rfl), if_neg hwhole, if_neg hinside]

theorem runOn_readSectors {sector count : Nat} (hrange : sector + count ≤ d.partitionBlocks)
    (storage : Storage σ) (m : Machine σ) :
    ((partition d).readSectors storage sector count).runOn m =
      relay sector ((d.read storage (blockPlace sector) (count * blockSize)).runOn m) := by
  rw [runOn_readSectors_device (partition d) hrange, Nat.add_comm sector]
  rfl

theorem runOn_readSectors_ok {sector count : Nat} (hrange : sector + count ≤ d.partitionBlocks)
    {m m' : Machine σ} {data : Bytes}
    (h : (d.read storage (blockPlace sector) (count * blockSize)).runOn m = (.ok data, m')) :
    ((partition d).readSectors storage sector count).runOn m = (.ok data, m') := by
  rw [runOn_readSectors hrange, h, relay]

theorem readSectors_eq_pure {sector count : Nat} (hrange : sector + count ≤ d.partitionBlocks)
    {data : Bytes} (h : d.read storage (blockPlace sector) (count * blockSize) = pure data) :
    (partition d).readSectors storage sector count = pure data :=
  Action.ext_runOn fun m => runOn_readSectors_ok hrange (by rw [h, Action.runOn_pure])

theorem readSectors_wholeDisk_eq_pure {sector count : Nat} (hrange : sector + count ≤ d.blocks)
    {data : Bytes} (h : d.read storage (sector * blockSize) (count * blockSize) = pure data) :
    (wholeDisk d).readSectors storage sector count = pure data := by
  apply Action.ext_runOn
  intro m
  have hread : ((wholeDisk d).disk.read storage ((sector + (wholeDisk d).start) * blockSize)
      (count * blockSize)).runOn m = (.ok data, m) := congrArg (Action.runOn · m) h
  rw [runOn_readSectors_device (wholeDisk d) hrange, hread, relay, Action.runOn_pure]

/-! ## Reads in parts -/

/-- Consecutive blocks from `block` on, read in parts of the given numbers of blocks. -/
def readInTurn (storage : Storage σ) (device : BlockDevice) :
    (block : Nat) → (counts : List Nat) → Action σ Status Bytes
  | _, [] => pure []
  | block, count :: rest => do
      let head ← device.readSectors storage block count
      let tail ← readInTurn storage device (block + count) rest
      return head ++ tail

theorem blockPlace_add (block count : Nat) :
    blockPlace block + count * blockSize = blockPlace (block + count) := by
  unfold blockPlace
  rw [← Nat.add_mul, Nat.add_assoc]

theorem runOn_readInTurn_ok {block : Nat} {counts : List Nat}
    (hrange : block + counts.sum ≤ d.partitionBlocks) {m m' : Machine σ} {data : Bytes}
    (h : (d.readInTurn storage (blockPlace block) (counts.map (· * blockSize))).runOn m =
      (.ok data, m')) :
    ((partition d).readInTurn storage block counts).runOn m = (.ok data, m') := by
  induction counts generalizing block m data with
  | nil =>
      cases h
      rfl
  | cons count rest ih =>
      rw [List.sum_cons] at hrange
      rw [List.map_cons, VirtualDisk.readInTurn, blockPlace_add] at h
      rcases hhead : (d.read storage (blockPlace block) (count * blockSize)).runOn m with
        ⟨cause | head, m₁⟩
      · rw [Action.runOn_bind_error hhead] at h
        cases h
      · rw [Action.runOn_bind_ok hhead] at h
        rcases htail : (d.readInTurn storage (blockPlace (block + count))
            (rest.map (· * blockSize))).runOn m₁ with ⟨cause | tail, m₂⟩
        · rw [Action.runOn_bind_error htail] at h
          cases h
        · rw [Action.runOn_bind_ok htail] at h
          cases h
          rw [readInTurn, Action.runOn_bind_ok (runOn_readSectors_ok (by omega) hhead),
            Action.runOn_bind_ok (ih (by omega) htail), Action.runOn_pure]

theorem readInTurn_eq_pure {block : Nat} {counts : List Nat}
    (hrange : block + counts.sum ≤ d.partitionBlocks) {data : Bytes}
    (h : d.readInTurn storage (blockPlace block) (counts.map (· * blockSize)) = pure data) :
    (partition d).readInTurn storage block counts = pure data :=
  Action.ext_runOn fun m => runOn_readInTurn_ok hrange (by rw [h, Action.runOn_pure])

/-- Clusters in a row are read one after the other. -/
theorem readClusters_range' {device : BlockDevice} {block : Fat.ParameterBlock}
    (first : Nat) (hfirst : 2 ≤ first) (count : Nat) :
    (Fat.Mounted.mk block (device.readSectors storage)).readClusters (List.range' first count) =
      device.readInTurn storage (block.clusterSector first)
        (List.replicate count block.sectorsPerCluster) := by
  induction count generalizing first with
  | zero => rfl
  | succ count ih =>
      have hnext : block.clusterSector (first + 1) =
          block.clusterSector first + block.sectorsPerCluster := by
        unfold Fat.ParameterBlock.clusterSector
        rw [show first + 1 - 2 = first - 2 + 1 by omega, Nat.add_mul, Nat.one_mul, Nat.add_assoc]
      rw [List.range'_succ, List.replicate_succ, Fat.Mounted.readClusters, readInTurn,
        ih (first + 1) (by omega), hnext]

end BootVolume.BlockDevice
