import BootVolume.Proofs.Launch.Kept
import BootVolume.Uefi.BlockIo
import BootVolume.Uefi.Program

/-!
# Calls on open files

The firmware is thought to keep a ledger of what the program does to its files: which calls open
a file, are made on it and close it, and which devices the program publishes (`Recorded`).  A
program that has opened some files and closed none is `Holding` them.  While it is, reading these
files, reporting and calling the firmware for other things leaves it so, and so does an image that
is started, since it gets at the files only through the devices that were published (`Visits`).
-/

namespace BootVolume.Uefi

open Files

variable {σ ε α : Type}

/-! ## The ledger -/

/-- A call that concerns a file. -/
inductive FileCall where
  /-- The file came out of the call. -/
  | opened (id : FileId)
  /-- The call was made on the open file. -/
  | used (id : FileId)
  | closed (id : FileId)
  deriving DecidableEq, Repr

/-- The file that a call concerns. -/
def FileCall.file : FileCall → FileId
  | opened id => id
  | used id => id
  | closed id => id

/-- The files that are open after one more call. -/
def openAfter (files : List FileId) : FileCall → List FileId
  | .opened id => files ++ [id]
  | .used _ => files
  | .closed id => files.filter (· != id)

/-- The files that are open after calls. -/
def openFiles (calls : List FileCall) : List FileId := calls.foldl openAfter []

/-- What was done to files, and the devices that were published. -/
structure Ledger where
  calls : List FileCall := []
  devices : List BlockDevice := []

namespace Ledger

def note (l : Ledger) (call : FileCall) : Ledger := { l with calls := l.calls ++ [call] }

/-- A call that was to open a file gave this answer. -/
def answered (l : Ledger) : Status × Option FileId → Ledger
  | (status, some id) => if status = Status.success then l.note (.opened id) else l
  | (_, none) => l

/-- A call that was to publish a protocol instance gave this answer. -/
def published (l : Ledger) : Published → Except Status Handle → Ledger
  | .blockIo device, .ok _ => { l with devices := l.devices ++ [device] }
  | _, _ => l

@[simp] theorem calls_published (l : Ledger) (what : Published) (answer : Except Status Handle) :
    (l.published what answer).calls = l.calls := by
  cases what <;> cases answer <;> rfl

theorem mem_devices_published {l : Ledger} {device other : BlockDevice}
    {answer : Except Status Handle} (h : other ∈ (l.published (.blockIo device) answer).devices) :
    other ∈ l.devices ∨ other = device := by
  cases answer with
  | error status => exact .inl h
  | ok handle => simpa [published] using h

end Ledger

/-- What may happen while a started image runs: it reads devices that were published, and otherwise
leaves alone what the ledger is about. -/
inductive Visits (services : Services σ) (ledger : σ → Ledger) : Machine σ → Machine σ → Prop
  | done (m : Machine σ) : Visits services ledger m m
  | aside {m m₁ m' : Machine σ} (hledger : ledger m₁.world = ledger m.world)
      (hsink : m₁.sink = m.sink) (rest : Visits services ledger m₁ m') :
      Visits services ledger m m'
  | read {m m' : Machine σ} {device : BlockDevice} (hdevice : device ∈ (ledger m.world).devices)
      (medium : UInt32) (block count : Nat) (hasBuffer : Bool)
      (rest : Visits services ledger ((BlockIo.readBlocks (storage services) device medium block
        count hasBuffer).runOn m).2 m') :
      Visits services ledger m m'

/-- The firmware keeps a ledger.  A file that it opens is not one that is open already. -/
structure Recorded (services : Services σ) (ledger : σ → Ledger) : Prop where
  openVolume : ∀ volume world, ledger (services.openVolume volume world).2 =
    (ledger world).answered (services.openVolume volume world).1
  openFile : ∀ directory path mode attributes world,
    ledger (services.openFile directory path mode attributes world).2 =
      ((ledger world).note (.used directory)).answered
        (services.openFile directory path mode attributes world).1
  newVolume : ∀ {volume world id}, (services.openVolume volume world).1 = (.success, some id) →
    id ∉ openFiles (ledger world).calls
  newFile : ∀ {directory path mode attributes world id},
    (services.openFile directory path mode attributes world).1 = (.success, some id) →
      id ∉ openFiles (ledger world).calls
  closeFile : ∀ id world, ledger (services.closeFile id world) = (ledger world).note (.closed id)
  readFile : ∀ id count world, ledger (services.readFile id count world).2 =
    (ledger world).note (.used id)
  setPosition : ∀ id position world, ledger (services.setPosition id position world).2 =
    (ledger world).note (.used id)
  getPosition : ∀ id world, ledger (services.getPosition id world).2 =
    (ledger world).note (.used id)
  installProtocol : ∀ handle kind what world,
    ledger (services.installProtocol handle kind what world).2 =
      (ledger world).published what (services.installProtocol handle kind what world).1
  startImage : ∀ image m, Visits services ledger m (services.startImage image m).2
  handleProtocol : ∀ handle protocol world,
    ledger (services.handleProtocol handle protocol world).2 = ledger world
  loadedImage : ∀ record world, ledger (services.loadedImage record world).2 = ledger world
  setImageDevice : ∀ record device world,
    ledger (services.setImageDevice record device world) = ledger world
  allocatePages : ∀ kind memory pages world,
    ledger (services.allocatePages kind memory pages world).2 = ledger world
  loadImage : ∀ policy parent path image world,
    ledger (services.loadImage policy parent path image world).2 = ledger world
  setAttribute : ∀ colour world, ledger (services.setAttribute colour world) = ledger world
  outputString : ∀ units world, ledger (services.outputString units world) = ledger world
  resetInput : ∀ extended world, ledger (services.resetInput extended world) = ledger world
  waitForKeyEvent : ∀ count world, ledger (services.waitForKeyEvent count world) = ledger world
  readKey : ∀ world, ledger (services.readKey world) = ledger world

/-- Lines are shown without a call that the ledger is about. -/
def Quiet (ledger : σ → Ledger) (m : Machine σ) : Prop :=
  ∀ shown, m.sink = some shown → ∀ level line world, ledger (shown level line world) = ledger world

/-! ## Files that were opened and not closed -/

/-- A call that does not open a file comes after one that opened it. -/
def OpenedFirst (calls : List FileCall) : Prop :=
  ∀ before call after, calls = before ++ call :: after →
    call = .opened call.file ∨ .opened call.file ∈ before

namespace OpenedFirst

variable {calls more : List FileCall} {last : FileCall}

theorem concat (h : OpenedFirst calls)
    (hlast : last = .opened last.file ∨ .opened last.file ∈ calls) : OpenedFirst (calls ++ [last]) := by
  intro before call after heq
  rcases List.eq_nil_or_concat after with rfl | ⟨front, other, rfl⟩
  · obtain ⟨rfl, hcall⟩ := List.append_inj' heq rfl
    cases hcall
    exact hlast
  · rw [List.concat_eq_append, ← List.cons_append, ← List.append_assoc] at heq
    exact h before call front (List.append_inj_left' heq rfl)

theorem append (h : OpenedFirst calls) (hmore : ∀ call ∈ more, .opened call.file ∈ calls) :
    OpenedFirst (calls ++ more) := by
  induction more generalizing calls with
  | nil => rwa [List.append_nil]
  | cons call rest ih =>
      rw [List.append_cons]
      exact ih (h.concat (.inr (hmore call (List.mem_cons_self ..)))) fun other hother =>
        List.mem_append_left _ (hmore other (List.mem_cons_of_mem _ hother))

end OpenedFirst

/-- Calls by which just these files were opened, one after the other, and none of them closed.
Between these calls others were made on files that were open by then. -/
inductive Orderly : List FileId → List FileCall → Prop
  | nil : Orderly [] []
  | opened {ids : List FileId} {calls : List FileCall} {id : FileId} (h : Orderly ids calls)
      (hnew : id ∉ ids) : Orderly (ids ++ [id]) (calls ++ [.opened id])
  | used {ids : List FileId} {calls : List FileCall} {id : FileId} (h : Orderly ids calls)
      (hopen : id ∈ ids) : Orderly ids (calls ++ [.used id])

namespace Orderly

variable {ids : List FileId} {calls : List FileCall} {id : FileId}

theorem nodup (h : Orderly ids calls) : ids.Nodup := by
  induction h with
  | nil => exact List.nodup_nil
  | opened _ hnew ih =>
      exact List.nodup_append_comm.mp (List.nodup_cons.mpr ⟨hnew, ih⟩)
  | used _ _ ih => exact ih

theorem openFiles_eq (h : Orderly ids calls) : openFiles calls = ids := by
  induction h with
  | nil => rfl
  | opened _ _ ih => rw [openFiles, List.foldl_concat, ← openFiles, ih, openAfter]
  | used _ _ ih => rw [openFiles, List.foldl_concat, ← openFiles, ih, openAfter]

theorem opened_mem_iff (h : Orderly ids calls) : .opened id ∈ calls ↔ id ∈ ids := by
  induction h with
  | nil => simp
  | opened _ _ ih => simp [ih]
  | used _ _ ih => simp [ih]

theorem closed_not_mem (h : Orderly ids calls) : .closed id ∉ calls := by
  induction h with
  | nil => simp
  | opened _ _ ih => simp [ih]
  | used _ _ ih => simp [ih]

theorem openedFirst (h : Orderly ids calls) : OpenedFirst calls := by
  induction h with
  | nil => exact fun before call after heq => absurd heq (by simp)
  | opened _ _ ih => exact ih.concat (.inl rfl)
  | used h hopen ih => exact ih.concat (.inr (h.opened_mem_iff.mpr hopen))

end Orderly

/-! ## What the program leaves so -/

/-- A source that reads no other open files than these. -/
def Within (ids : List FileId) (source : Source) : Prop := ∀ id, source.fileId? = some id → id ∈ ids

/-- These files are open, and the devices that were published read no others. -/
structure Held (ids : List FileId) (l : Ledger) : Prop where
  orderly : Orderly ids l.calls
  devices : ∀ device ∈ l.devices, ∀ r ∈ device.disk.regions, ∀ file, r.content = .file file →
    Within ids file.source

namespace Held

variable {ids : List FileId} {l : Ledger} {id : FileId}

theorem used (h : Held ids l) (hopen : id ∈ ids) : Held ids (l.note (.used id)) :=
  ⟨h.orderly.used hopen, h.devices⟩

theorem opened (h : Held ids l) (hnew : id ∉ ids) : Held (ids ++ [id]) (l.note (.opened id)) where
  orderly := h.orderly.opened hnew
  devices device hdevice r hr file hfile other hother :=
    List.mem_append_left _ (h.devices device hdevice r hr file hfile other hother)

/-- A device may be published if its disk reads no files but those that are open. -/
theorem published (h : Held ids l) {device : BlockDevice}
    (hdevice : ∀ r ∈ device.disk.regions, ∀ file, r.content = .file file → Within ids file.source)
    (answer : Except Status Handle) : Held ids (l.published (.blockIo device) answer) where
  orderly := by
    rw [Ledger.calls_published]
    exact h.orderly
  devices other hother := by
    rcases Ledger.mem_devices_published hother with hother | rfl
    · exact h.devices other hother
    · exact hdevice

end Held

/-- The program holds these files open. -/
structure Holding (ledger : σ → Ledger) (ids : List FileId) (m : Machine σ) : Prop where
  quiet : Quiet ledger m
  held : Held ids (ledger m.world)

variable {services : Services σ} {ledger : σ → Ledger} {ids : List FileId} {id : FileId}
  {m m' : Machine σ}

namespace Holding

theorem step (h : Holding ledger ids m) {ids' : List FileId} {world : σ}
    (hheld : Held ids' (ledger world)) : Holding ledger ids' { m with world } :=
  ⟨h.quiet, hheld⟩

theorem aside (h : Holding ledger ids m) {world : σ} (hledger : ledger world = ledger m.world) :
    Holding ledger ids { m with world } := h.step (hledger ▸ h.held)

theorem keptByReports (ledger : σ → Ledger) (ids : List FileId) :
    KeptByReports (Holding ledger ids) := by
  intro m level line h
  have hworld : ledger (m.report level line).world = ledger m.world := by
    unfold Machine.report
    cases hsink : m.sink with
    | none => rfl
    | some shown =>
        dsimp only
        split
        · rfl
        · exact h.quiet shown hsink ..
  exact ⟨h.quiet, hworld ▸ h.held⟩

/-- Calls that the ledger is not about. -/
theorem keeps_outside {f : σ → Except ε α × σ} (hf : ∀ world, ledger (f world).2 = ledger world) :
    (Action.outside f).Keeps (Holding ledger ids) := fun _ h => h.aside (hf _)

end Holding

namespace Recorded

variable (recorded : Recorded services ledger)
include recorded

theorem keeps_findProtocol (handle : Handle) (protocol : Protocol) :
    (findProtocol services handle protocol).Keeps (Holding ledger ids) := by
  refine Holding.keeps_outside fun world => ?_
  have hasked := recorded.handleProtocol handle protocol world
  rcases hanswer : services.handleProtocol handle protocol world with ⟨⟨status, found⟩, world'⟩
  rw [hanswer] at hasked
  dsimp only
  split
  · exact hasked
  · cases found <;> exact hasked

theorem keeps_loadedImage (record : Interface) :
    (liftM (Step.outside (services.loadedImage record)) : Action σ ε LoadedImage).Keeps
      (Holding ledger ids) := fun _ h => h.aside (recorded.loadedImage ..)

theorem keeps_seek (hopen : id ∈ ids) (position : Nat) :
    (Action.outside ((storage services).seek id position)).Keeps (Holding ledger ids) :=
  fun m h => h.step (recorded.setPosition id position m.world ▸ h.held.used hopen)

theorem keeps_fileRead (hopen : id ∈ ids) (count : Nat) :
    (Action.outside ((storage services).read id count)).Keeps (Holding ledger ids) := by
  intro m h
  have hread := h.step (recorded.readFile id count m.world ▸ h.held.used hopen)
  rw [Action.runOn_outside]
  dsimp only [storage]
  rcases hanswer : services.readFile id count m.world with ⟨answer, world⟩
  rw [hanswer] at hread
  cases answer <;> exact hread

/-- Requests made of open files leave them open. -/
theorem keeps_readAt {source : Source} (hsource : Within ids source) (offset count : Nat) :
    (source.readAt (storage services) offset count).Keeps (Holding ledger ids) := by
  cases source with
  | memory data =>
      rw [Source.readAt]
      split
      · exact .throw _
      · exact .pure _
  | file id length =>
      have hopen : id ∈ ids := hsource id rfl
      rw [Source.readAt]
      split
      · exact .pure _
      · exact (recorded.keeps_seek hopen _).bind fun _ =>
          (recorded.keeps_fileRead hopen _).bind fun _ => .pure _
  | provider id length => exact Holding.keeps_outside fun _ => rfl

theorem keeps_fileEntry {file : FileEntry} (hsource : Within ids file.source)
    (offset count : Nat) : (file.read (storage services) offset count).Keeps (Holding ledger ids) :=
  FileEntry.keeps_read (Holding.keptByReports ledger ids) (recorded.keeps_readAt hsource)
    (fun _ _ _ _ h => h.aside rfl) offset count

/-! ## The firmware of a run -/

theorem holding_of_visits (h : Visits services ledger m m') (hm : Holding ledger ids m) :
    Holding ledger ids m' := by
  -- On what the image does: it reads no device but those that were published while files were held.
  induction h with
  | done m => exact hm
  | @aside m m₁ m' hledger hsink _ ih =>
      refine ih ⟨?_, hledger ▸ hm.held⟩
      unfold Quiet
      rw [hsink]
      exact hm.quiet
  | @read m m' device hdevice medium block count hasBuffer _ ih =>
      refine ih ?_
      have hread : (device.read (storage services) medium block count).Keeps
          (Holding ledger ids) :=
        keeps_read (Holding.keptByReports ledger ids) (fun r hr file hfile =>
          recorded.keeps_fileEntry (hm.held.devices device hdevice r hr file hfile)) ..
      unfold BlockIo.readBlocks
      split
      · exact hm
      · exact hread hm

theorem keeps_firmware (self : Handle) :
    (firmware services self).Keeps (Holding ledger ids) where
  allocatePages pages := by
    show (givePages services pages).Keeps _
    unfold givePages
    split
    · exact .pure _
    · exact Holding.keeps_outside fun world => recorded.allocatePages ..
  loadImage path image := Holding.keeps_outside fun world => recorded.loadImage ..
  imageDevice image := (recorded.keeps_findProtocol ..).bind fun record =>
    (recorded.keeps_loadedImage record).bind fun _ => .pure _
  setImageDevice image device := (recorded.keeps_findProtocol ..).bind fun record =>
    Holding.keeps_outside fun world => recorded.setImageDevice ..
  waitForKey := by
    intro m h
    refine h.aside ?_
    show ledger (Console.waitForKey services m.world) = _
    unfold Console.waitForKey
    split
    · rw [recorded.readKey, recorded.waitForKeyEvent, recorded.resetInput]
    · rfl
  startImage image m h := recorded.holding_of_visits (recorded.startImage image m) h

theorem keeps_publish {device : BlockDevice}
    (hdevice : ∀ r ∈ device.disk.regions, ∀ file, r.content = .file file →
      Within ids file.source) :
    (publish services device).Keeps (Holding ledger ids) := by
  refine Action.Keeps.bind (fun m h => ?_) fun handle => Holding.keeps_outside fun world =>
    recorded.installProtocol ..
  exact h.step (recorded.installProtocol nullHandle 0 (.blockIo device) m.world ▸
    h.held.published hdevice _)

end Recorded

/-! ## The console -/

theorem Recorded.quiet_console (recorded : Recorded services ledger)
    (h : m.sink = Console.sink? services) : Quiet ledger m := by
  have hprint : ∀ text world, ledger (Console.print services text world) = ledger world := by
    intro text world
    unfold Console.print
    split
    · induction Console.calls text generalizing world with
      | nil => rfl
      | cons buffer rest ih => rw [List.foldl_cons, ih, recorded.outputString]
    · rfl
  have hcolour : ∀ colour world, ledger (Console.setColour services colour world) =
      ledger world := by
    intro colour world
    unfold Console.setColour
    split
    · exact recorded.setAttribute colour world
    · rfl
  intro shown hshown level line world
  rw [h] at hshown
  unfold Console.sink? at hshown
  split at hshown
  · cases hshown
    unfold Console.showLine
    dsimp only
    rw [hcolour, hprint, hprint]
    split
    · rw [hprint, hprint, hcolour]
    · exact hcolour ..
  · cases hshown

end BootVolume.Uefi
