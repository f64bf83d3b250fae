import BootVolume.BlockDevice

/-!
# Firmware services

What the firmware offers to a run: it publishes block devices, gives memory,
loads an image and starts it. Every call acts on the machine and may fail with a
status.
-/

namespace BootVolume

/-- A firmware object: a device or an image. -/
abbrev Handle := Nat

/-- The services that a run uses. -/
structure Firmware (σ : Type) where
  /-- Publish a device on a new handle. -/
  install : BlockDevice → Action σ Status Handle
  /-- Give so many pages of zero bytes for good; the answer is the number of bytes. -/
  allocatePages : (pages : Nat) → Action σ Status Nat
  /-- Load an image that is at hand in memory, as if from the given path. -/
  loadImage : DevicePath → (image : Bytes) → Action σ Status Handle
  /-- The device that a loaded image believes to come from. -/
  imageDevice : (image : Handle) → Action σ Status Handle
  /-- Tell a loaded image that it comes from a device. -/
  setImageDevice : (image device : Handle) → Action σ Status Unit
  /-- Wait until a key is pressed. -/
  waitForKey : Step σ Unit
  /-- Start a loaded image; the answer comes if the image returns. -/
  startImage : (image : Handle) → Step σ Status

end BootVolume
