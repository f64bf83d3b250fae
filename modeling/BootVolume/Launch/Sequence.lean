import BootVolume.Launch.HandOff

/-!
# The whole boot sequence

The inputs are gathered into a catalog, the disk is built from the closed catalog
and published, and the boot manager on it is started.

In memory mode all inputs are first written into one archive in memory, and the
catalog takes its files from there. Otherwise named inputs are read on demand,
and only archives are loaded and unpacked.
-/

namespace BootVolume

open Files

variable {σ : Type}

/-- Copy an input into memory. -/
def loadWhole (storage : Storage σ) (fw : Firmware σ) (input : Newc.Entry) :
    Action σ Failure Bytes := do
  let _ ← allocate fw input.source.length "input file"
  Action.mapError (.read input.path) (input.source.readExact storage 0 input.source.length)

/-- Write all inputs into one archive in memory. -/
def renderInputs (storage : Storage σ) (fw : Firmware σ) (inputs : List Newc.Entry) :
    Action σ Failure Bytes :=
  match Newc.measure inputs with
  | .error cause => throw (.input (.archive cause))
  | .ok size => do
      let _ ← allocate fw size.toNat "archive"
      let rendered ← Action.mapError Failure.ofRender
        (Newc.render storage inputs (Bytes.zeros size.toNat))
      reportDebug (σ := σ) ("rendered " ++ toString inputs.length ++ " inputs into " ++
        toString rendered.written ++ " bytes")
      return rendered.buffer.take rendered.written

/-- A step on the machine alone, as a part of gathering. -/
def Gathering.lift {α : Type} (act : Action σ Failure α) : Gathering σ α := do
  match ← (act.run : StateM (Machine σ) (Except Failure α)) with
  | .ok value => return value
  | .error cause => throw cause

/-- Take inputs into the catalog one after the other. -/
def takeInputs (storage : Storage σ) (fw : Firmware σ) (settings : Settings)
    (container : Container σ) : List Newc.Entry → Gathering σ Unit
  | [] => pure ()
  | input :: rest => do
      match input.name with
      | some name => Catalog.register container settings name input.source
      | none =>
          let data ← Gathering.lift (loadWhole storage fw input)
          Catalog.unpack container settings data
      takeInputs storage fw settings container rest

/-- Fill the catalog from the inputs. -/
def gather (storage : Storage σ) (fw : Firmware σ) (settings : Settings)
    (container : Container σ) (inputs : List Newc.Entry) : Gathering σ Unit := do
  if inputs.isEmpty then
    throw (.input .noFiles)
  if settings.inMemory then
    let archive ← Gathering.lift (renderInputs storage fw inputs)
    Catalog.unpack container settings archive
  else
    takeInputs storage fw settings container inputs

/-- Gather the inputs and build the disk. -/
def prepare (storage : Storage σ) (fw : Firmware σ) (settings : Settings)
    (container : Container σ) (inputs : List Newc.Entry) :
    Action σ Failure Image.VirtualDisk := do
  if settings.gui then
    reportInfo (σ := σ) "graphical boot messages requested"
  let (outcome, catalog) ←
    ((gather storage fw settings container inputs).run.run Catalog.empty :
      StateM (Machine σ) (Except Failure Unit × Catalog))
  match outcome with
  | .error cause => throw cause
  | .ok () =>
      match catalog.finish with
      | .error cause => throw (.input cause)
      | .ok set =>
          reportInfo (σ := σ) ("booting " ++ set.bootTarget.name)
          Image.VirtualDisk.build set

/-- Publish the disk and its partition, and start the boot manager. -/
def launch (storage : Storage σ) (fw : Firmware σ) (settings : Settings)
    (disk : Image.VirtualDisk) : Action σ Failure Empty := do
  let _ ← Action.mapError (.firmware .installDisk) (fw.install (BlockDevice.wholeDisk disk))
  let partition := BlockDevice.partition disk
  let handle ← Action.mapError (.firmware .installPartition) (fw.install partition)
  handOff storage fw disk.files.bootTarget (partition.path.withFile bootFilePath) handle settings

/-- The whole sequence, which ends in a failure at the latest when the boot manager
comes back. -/
def boot (storage : Storage σ) (fw : Firmware σ) (settings : Settings)
    (container : Container σ) (inputs : List Newc.Entry) : Action σ Failure Empty := do
  let disk ← prepare storage fw settings container inputs
  launch storage fw settings disk

end BootVolume
