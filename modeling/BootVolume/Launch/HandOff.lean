import BootVolume.Launch.Firmware

/-!
# Handing over to the boot manager

The boot target is copied into fresh memory, loaded as an image that comes from
the virtual partition, and started. Every step can fail, and so does an image
that comes back: a hand-off has no other outcome than a failure.
-/

namespace BootVolume

open Files

variable {σ : Type}

/-- Bytes in a page of memory. -/
def pageSize : Nat := 4096

/-- The number of pages that hold `length` bytes. -/
def pagesFor (length : Nat) : Nat := (length + pageSize - 1) / pageSize

/-- Get memory for `length` bytes, which are `what` in a message. The answer is the
number of bytes there are, at least `length`. -/
def allocate (fw : Firmware σ) (length : Nat) (what : String) : Action σ Failure Nat := do
  let granted ← Action.mapError (fun status => .allocation what length (some status))
    (fw.allocatePages (pagesFor length))
  if granted < length then
    throw (.allocation what length none)
  return granted

/-- Load a file as an image that comes from `path`, tell it that its device is the
partition, and start it. -/
def handOff (storage : Storage σ) (fw : Firmware σ) (target : FileEntry) (path : DevicePath)
    (partition : Handle) (settings : Settings) : Action σ Failure Empty := do
  let _ ← allocate fw target.length "boot image"
  let image ← Action.mapError (.read target.name) (target.read storage 0 target.length)
  let handle ← Action.mapError (.firmware .loadImage) (fw.loadImage path image)
  reportInfo (σ := σ)
    ("loaded " ++ target.name ++ " (" ++ toString target.length ++ " bytes)")
  let device ← Action.mapError (.firmware .handleProtocol) (fw.imageDevice handle)
  if device ≠ partition then
    reportDebug (σ := σ) ("image device " ++ toString device ++ " -> " ++ toString partition)
    Action.mapError (.firmware .handleProtocol) (fw.setImageDevice handle partition)
  if settings.pause then
    reportInfo (σ := σ) "Press any key to continue booting..."
    fw.waitForKey
  let status ← fw.startImage handle
  throw (.firmware (if status.isError then .startImage else .imageReturned) status)

end BootVolume
