import BootVolume.Options.Arguments
import BootVolume.Uefi.Console
import BootVolume.Uefi.Files

/-!
# The program

Under UEFI the program reads its options, opens its files, and goes through the
boot sequence on the services of the firmware. It ends with a report of the
failure on the console.
-/

namespace BootVolume.Uefi

open Files

variable {σ : Type}

/-- The kind of memory that a program keeps for what it loads. -/
def loaderData : Nat := 2

/-- Publish a device: first the protocol for block devices on a new handle, then the
path of the device on the same one. -/
def publish (services : Services σ) (device : BlockDevice) : Action σ Status Handle := do
  let handle ← Action.outside (services.installProtocol nullHandle 0 (.blockIo device))
  Action.outside (services.installProtocol handle 0 (.devicePath device.path.bytes))

/-- Get pages of zero bytes. No call is made for none. -/
def givePages (services : Services σ) (pages : Nat) : Action σ Status Nat :=
  if pages = 0 then pure 0
  else
    Action.outside fun world =>
      match services.allocatePages 0 loaderData pages world with
      | (status, world) =>
          (if status = Status.success then .ok (pages * pageSize) else .error status, world)

/-- The services of a run, made from those of the firmware. `self` is the image of the
program. -/
def firmware (services : Services σ) (self : Handle) : Firmware σ where
  install := publish services
  allocatePages := givePages services
  loadImage path image := Action.outside (services.loadImage false self path.bytes image)
  imageDevice image := do
    let record ← findProtocol services image .loadedImage
    return (← (Step.outside (services.loadedImage record) : Step σ LoadedImage)).device
  setImageDevice image device := do
    let record ← findProtocol services image .loadedImage
    Action.outside fun world => (.ok (), services.setImageDevice record device world)
  waitForKey := Step.outside fun world => ((), Console.waitForKey services world)
  startImage := services.startImage

/-- Go through the boot sequence with the given inputs. The inputs that the disk does
not read are closed at the end; before there is a disk, those are all. -/
def bootInputs (services : Services σ) (self : Handle) (settings : Settings)
    (inputs : List Newc.Entry) : Action σ Failure Empty := do
  let fw := firmware services self
  match ← (prepare (storage services) fw settings Container.opaqueFiles inputs).attempt with
  | .error cause =>
      closeInputs services inputs
      throw cause
  | .ok disk =>
      match ← (launch (storage services) fw settings disk).attempt with
      | .error cause =>
          closeInputs services (notRetained disk inputs)
          throw cause
      | .ok never => nomatch never

/-- Everything the program does before it reports. -/
def run (services : Services σ) (self : Handle) : Action σ Failure Empty := do
  let record ← Action.mapError (.firmware .handleProtocol)
    (findProtocol services self .loadedImage)
  let image ← (Step.outside (services.loadedImage record) : Step σ LoadedImage)
  let options := image.optionText?
  if let some text := options then
    reportDebug (σ := σ) ("load options: " ++ text)
  match Options.parseLine (options.getD "") with
  | .error cause => throw (.input cause)
  | .ok (settings, files) =>
      let root ← openRoot services image.device
      let rest : Action σ Failure Empty := do
        let inputs ← openInputs services root [] files
        bootInputs services self settings inputs
      match ← rest.attempt with
      | .error cause =>
          close services root
          throw cause
      | .ok never => nomatch never

/-- The program: journal lines are shown on the console, the watchdog is stopped, and
the failure that the run ends in is reported. -/
def start (services : Services σ) (self : Handle) : Step σ Unit := do
  modify fun m => { m with sink := Console.sink? services }
  let _ ← (Step.outside (services.setWatchdog 0 0 0 none) : Step σ Status)
  match ← (run services self).outcome with
  | .error cause =>
      Step.outside fun world => ((), Console.print services cause.report world)
  | .ok never => nomatch never

end BootVolume.Uefi
