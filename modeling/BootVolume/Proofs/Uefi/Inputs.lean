import BootVolume.Proofs.Launch.Taken
import BootVolume.Proofs.Uefi.OpenFiles

/-!
# Opening the inputs, and closing files

The files of a run are opened one after the other: the root of the volume, then the inputs in it.
A call that is to open a file either leaves one more file open or fails and leaves the rest as they
were (`Opens`).  Once a file is closed, nothing but further closing follows (`Closing`).  So if the
inputs cannot all be opened, just the root is left open (`Recorded.openInputs_cases`).
-/

namespace BootVolume.Uefi

open Files Newc

variable {σ ε : Type} {services : Services σ} {ledger : σ → Ledger} {ids closes : List FileId}
  {id root : FileId} {m m' : Machine σ}

/-! ## Opening -/

/-- The action opens one more file, or fails and opens none. -/
def Opens (ledger : σ → Ledger) (ids : List FileId) (act : Action σ ε FileId) : Prop :=
  ∀ ⦃m⦄, Holding ledger ids m →
    (∃ id m', act.runOn m = (.ok id, m') ∧ Holding ledger (ids ++ [id]) m') ∨
      ∃ failure m', act.runOn m = (.error failure, m') ∧ Holding ledger ids m'

theorem Opens.after {α : Type} {act : Action σ ε α} (hact : act.Keeps (Holding ledger ids))
    {next : α → Action σ ε FileId} (h : ∀ a, Opens ledger ids (next a)) :
    Opens ledger ids (act >>= next) := by
  intro m hm
  have hkept := hact hm
  rcases hrun : act.runOn m with ⟨failure | a, m₁⟩ <;> rw [hrun] at hkept
  · exact .inr ⟨failure, m₁, Action.runOn_bind_error hrun _, hkept⟩
  · rw [Action.runOn_bind_ok hrun]
    exact h a hkept

/-- A call that is to open a file, and what is made of its answer. -/
theorem opens_call {call : σ → (Status × Option FileId) × σ}
    {next : Status × Option FileId → Action σ ε FileId}
    (hcall : ∀ ⦃m⦄, Holding ledger ids m →
      ∃ l, Held ids l ∧ ledger (call m.world).2 = l.answered (call m.world).1)
    (hnew : ∀ ⦃m⦄, Holding ledger ids m → ∀ id, (call m.world).1 = (.success, some id) → id ∉ ids)
    (hopened : ∀ id m, (next (.success, some id)).runOn m = (.ok id, m))
    (hfailed : ∀ answer m, (∀ id, answer ≠ (.success, some id)) →
      ∃ failure, (next answer).runOn m = (.error failure, m)) :
    Opens ledger ids ((liftM (Step.outside call) : Action σ ε _) >>= next) := by
  intro m hm
  obtain ⟨l, hl, hledger⟩ := hcall hm
  have hfresh := hnew hm
  rcases hanswer : call m.world with ⟨answer, world⟩
  rw [hanswer] at hledger hfresh
  have hrun : (liftM (Step.outside call) : Action σ ε _).runOn m =
      (.ok answer, { m with world }) := by
    rw [Action.runOn_lift, Step.outside, hanswer]
  rw [Action.runOn_bind_ok hrun]
  by_cases hsuccess : ∃ id, answer = (.success, some id)
  · obtain ⟨id, rfl⟩ := hsuccess
    refine .inl ⟨id, _, hopened id _, hm.step ?_⟩
    rw [hledger, Ledger.answered, if_pos rfl]
    exact hl.opened (hfresh id rfl)
  · have hnone : l.answered answer = l := by
      obtain ⟨status, _ | id⟩ := answer
      · rfl
      · exact if_neg fun hstatus => hsuccess ⟨id, by rw [hstatus]⟩
    obtain ⟨failure, hfailure⟩ := hfailed answer { m with world } (not_exists.mp hsuccess)
    exact .inr ⟨failure, _, hfailure, hm.step (hledger ▸ hnone.symm ▸ hl)⟩

namespace Recorded

variable (recorded : Recorded services ledger)
include recorded

theorem opens_openRoot (device : Handle) : Opens ledger ids (openRoot services device) := by
  refine Opens.after ((recorded.keeps_findProtocol ..).mapError _) fun volume => opens_call
    (fun m h => ⟨_, h.held, recorded.openVolume ..⟩) ?_ (fun _ _ => rfl) ?_
  · intro m h id hanswer
    rw [← h.held.orderly.openFiles_eq]
    exact recorded.newVolume hanswer
  · rintro ⟨status, _ | id⟩ m hfailed
    · exact ⟨_, rfl⟩
    · have hstatus : status ≠ .success := fun heq => hfailed id (by rw [heq])
      refine ⟨.read "\\" (.device status), ?_⟩
      dsimp only
      rw [if_neg hstatus, Action.runOn_throw]

theorem opens_openFile {root : FileId} (hroot : root ∈ ids) (path : String) :
    Opens ledger ids (Uefi.openFile services root path) := by
  unfold Uefi.openFile
  refine opens_call (fun m h => ⟨_, h.held.used hroot, recorded.openFile ..⟩) ?_ (fun _ _ => rfl) ?_
  · intro m h id hanswer
    rw [← h.held.orderly.openFiles_eq]
    exact recorded.newFile hanswer
  · rintro ⟨status, file⟩ m hfailed
    by_cases hstatus : status = .success
    · subst hstatus
      cases file with
      | none => exact ⟨_, rfl⟩
      | some id => exact absurd rfl (hfailed id)
    · refine ⟨.device status, ?_⟩
      apply Action.runOn_bind_error
      rw [Action.runOn_outside, checked, if_neg hstatus]

end Recorded

/-! ## Closing -/

theorem openFiles_append_closed (calls : List FileCall) (closes : List FileId) :
    openFiles (calls ++ closes.map .closed) = (openFiles calls).filter (· ∉ closes) := by
  induction closes generalizing calls with
  | nil => simp
  | cons id rest ih =>
      rw [List.map_cons, List.append_cons, ih, openFiles, List.foldl_concat, ← openFiles, openAfter,
        List.filter_filter]
      refine List.filter_congr fun other _ => ?_
      rw [Bool.eq_iff_iff]
      simp [and_comm]

/-- Of the files that were opened, some were closed, one after the other and last of all. -/
def Closing (ledger : σ → Ledger) (ids closes : List FileId) (m : Machine σ) : Prop :=
  ∃ calls, Orderly ids calls ∧ (ledger m.world).calls = calls ++ closes.map .closed

theorem Holding.closing (h : Holding ledger ids m) : Closing ledger ids [] m :=
  ⟨_, h.held.orderly, (List.append_nil _).symm⟩

namespace Closing

theorem opened_mem_iff (h : Closing ledger ids closes m) :
    .opened id ∈ (ledger m.world).calls ↔ id ∈ ids := by
  obtain ⟨calls, horderly, heq⟩ := h
  rw [heq, List.mem_append, horderly.opened_mem_iff]
  simp

theorem closed_mem_iff (h : Closing ledger ids closes m) :
    .closed id ∈ (ledger m.world).calls ↔ id ∈ closes := by
  obtain ⟨calls, horderly, heq⟩ := h
  rw [heq, List.mem_append, or_iff_right horderly.closed_not_mem]
  simp

theorem count_closed (h : Closing ledger ids closes m) (id : FileId) :
    (ledger m.world).calls.count (.closed id) = closes.count id := by
  obtain ⟨calls, horderly, heq⟩ := h
  rw [heq, List.count_append, List.count_eq_zero_of_not_mem horderly.closed_not_mem, Nat.zero_add]
  exact List.count_map_of_injective _ _ (fun _ _ h => FileCall.closed.inj h) _

theorem nodup (h : Closing ledger ids closes m) : ids.Nodup := by
  obtain ⟨calls, horderly, -⟩ := h
  exact horderly.nodup

theorem openFiles_eq (h : Closing ledger ids closes m) :
    openFiles (ledger m.world).calls = ids.filter (· ∉ closes) := by
  obtain ⟨calls, horderly, heq⟩ := h
  rw [heq, openFiles_append_closed, horderly.openFiles_eq]

/-- No call is made on a file that was closed. -/
theorem closedLast (h : Closing ledger ids closes m) (hnodup : closes.Nodup) :
    (ledger m.world).calls.Pairwise fun first second => first ≠ .closed second.file := by
  obtain ⟨calls, horderly, heq⟩ := h
  have hopen : ∀ call ∈ calls, ∀ other : FileCall, call ≠ .closed other.file :=
    fun _ hcall _ hsame => horderly.closed_not_mem (hsame ▸ hcall)
  -- Nothing is closed before the closing begins, and then no file is closed twice.
  rw [heq, List.pairwise_append, List.pairwise_map]
  refine ⟨List.pairwise_of_forall_mem_list fun call hcall other _ => hopen call hcall other, ?_,
    fun call hcall other _ => hopen call hcall other⟩
  exact hnodup.imp fun hne heq => hne (FileCall.closed.inj heq)

theorem openedFirst (h : Closing ledger ids closes m) (hsubset : closes ⊆ ids) :
    OpenedFirst (ledger m.world).calls := by
  obtain ⟨calls, horderly, heq⟩ := h
  rw [heq]
  refine horderly.openedFirst.append fun call hcall => ?_
  obtain ⟨id, hid, rfl⟩ := List.mem_map.mp hcall
  exact horderly.opened_mem_iff.mpr (hsubset hid)

end Closing

/-- The files behind inputs. -/
def fileIds (inputs : List Entry) : List FileId := inputs.filterMap (·.source.fileId?)

theorem fileIds_cons_none {input : Entry} (h : input.source.fileId? = none) (rest : List Entry) :
    fileIds (input :: rest) = fileIds rest := List.filterMap_cons_none h

theorem fileIds_cons_some {input : Entry} (h : input.source.fileId? = some id)
    (rest : List Entry) : fileIds (input :: rest) = id :: fileIds rest :=
  List.filterMap_cons_some h

namespace Recorded

variable (recorded : Recorded services ledger)
include recorded

theorem closing_closeFile (h : Closing ledger ids closes m) (id : FileId) :
    Closing ledger ids (closes ++ [id]) { m with world := services.closeFile id m.world } := by
  obtain ⟨calls, hcalls, heq⟩ := h
  refine ⟨calls, hcalls, ?_⟩
  rw [recorded.closeFile, Ledger.note, heq, List.map_append, List.append_assoc, List.map_singleton]

theorem closing_closeInputs (h : Closing ledger ids closes m) (inputs : List Entry) :
    Closing ledger ids (closes ++ fileIds inputs) (closeInputs services inputs m).2 := by
  induction inputs generalizing m closes with
  | nil => rwa [fileIds, List.filterMap_nil, List.append_nil]
  | cons input rest ih =>
      cases hid : input.source.fileId? with
      | none =>
          have hstep : closeInputs services (input :: rest) m = closeInputs services rest m := by
            rw [closeInputs, hid]
          rw [hstep, fileIds_cons_none hid]
          exact ih h
      | some id =>
          have hstep : closeInputs services (input :: rest) m =
              closeInputs services rest { m with world := services.closeFile id m.world } := by
            rw [closeInputs, hid]
            rfl
          rw [hstep, fileIds_cons_some hid, List.append_cons]
          exact ih (recorded.closing_closeFile h id)

/-! ## The length of a file -/

theorem held_fileSize (h : Holding ledger ids m) (hopen : id ∈ ids) :
    Held ids (ledger (fileSize services id m.world).2) := by
  have hend : Held ids (ledger (services.setPosition id endOfFile m.world).2) :=
    recorded.setPosition id endOfFile m.world ▸ h.held.used hopen
  unfold fileSize
  rcases hset : services.setPosition id endOfFile m.world with ⟨status, world⟩
  rw [hset] at hend
  dsimp only
  split
  · exact hend
  have hasked : Held ids (ledger (services.getPosition id world).2) :=
    recorded.getPosition id world ▸ hend.used hopen
  rcases hget : services.getPosition id world with ⟨_ | size, world'⟩ <;> rw [hget] at hasked
  · exact hasked
  · exact recorded.setPosition id 0 world' ▸ hasked.used hopen

/-- A source over an open file.  If its length cannot be had, the file is closed. -/
theorem ofFile (h : Holding ledger ids m) (hopen : id ∈ ids) :
    (∃ length m', (Source.ofFile (storage services) id).runOn m = (.ok (.file id length), m') ∧
        Holding ledger ids m') ∨
      ∃ failure m', (Source.ofFile (storage services) id).runOn m = (.error failure, m') ∧
        Closing ledger ids [id] m' := by
  have hheld := h.step (recorded.held_fileSize h hopen)
  rcases hsize : fileSize services id m.world with ⟨failure | length, world⟩ <;>
    rw [hsize] at hheld
  · exact .inr ⟨failure, _, Source.runOn_ofFile_error hsize,
      recorded.closing_closeFile hheld.closing id⟩
  · exact .inl ⟨length, _, Source.runOn_ofFile_ok hsize, hheld⟩

end Recorded

/-! ## The inputs -/

/-- Open a file in the root as the source of an input. -/
def openInput (services : Services σ) (root : FileId) (path : String) :
    Action σ ReadError Source := do
  let id ← openFile services root path
  Source.ofFile (storage services) id

theorem openInputs_ok {file : FileArgument} {source : Source}
    (h : (openInput services root file.path).runOn m = (.ok source, m')) (opened : List Entry)
    (rest : List FileArgument) :
    (openInputs services root opened (file :: rest)).runOn m =
      (openInputs services root (opened ++ [⟨file.name, file.path, source⟩]) rest).runOn
        (m'.report .debug ("opened " ++ file.path)) := by
  rw [openInputs]
  refine (Action.runOn_attempt_bind (openInput services root file.path) _ m).trans ?_
  rw [h]
  exact Action.runOn_bind_ok (Action.runOn_lift ..) _

theorem openInputs_error {file : FileArgument} {cause : ReadError}
    (h : (openInput services root file.path).runOn m = (.error cause, m')) (opened : List Entry)
    (rest : List FileArgument) :
    (openInputs services root opened (file :: rest)).runOn m =
      (.error (.read file.path cause), (closeInputs services opened m').2) := by
  rw [openInputs]
  refine (Action.runOn_attempt_bind (openInput services root file.path) _ m).trans ?_
  rw [h]
  exact Action.runOn_bind_ok (Action.runOn_lift ..) _

namespace Recorded

variable (recorded : Recorded services ledger)
include recorded

/-- An input is opened as one more file, or what was opened for it is closed again. -/
theorem openInput_cases (h : Holding ledger ids m) (hroot : root ∈ ids) (path : String) :
    (∃ id length m', (openInput services root path).runOn m = (.ok (.file id length), m') ∧
        Holding ledger (ids ++ [id]) m') ∨
      ∃ cause m' others, (openInput services root path).runOn m = (.error cause, m') ∧
        Closing ledger (ids ++ others) others m' := by
  unfold openInput
  rcases recorded.opens_openFile hroot path h with ⟨id, m₁, hopen, h₁⟩ | ⟨cause, m₁, hopen, h₁⟩
  · rw [Action.runOn_bind_ok hopen]
    rcases recorded.ofFile h₁ (List.mem_append_right _ (List.mem_singleton_self id)) with
      ⟨length, m₂, hfile, h₂⟩ | ⟨cause, m₂, hfile, h₂⟩
    · exact .inl ⟨id, length, m₂, hfile, h₂⟩
    · exact .inr ⟨cause, m₂, [id], hfile, h₂⟩
  · rw [Action.runOn_bind_error hopen]
    exact .inr ⟨cause, m₁, [], rfl, by simpa using h₁.closing⟩

/-- All inputs are opened, or none is left open. -/
theorem openInputs_cases {opened : List Entry} (h : Holding ledger (root :: fileIds opened) m)
    (arguments : List FileArgument) :
    (∃ inputs m', (openInputs services root opened arguments).runOn m = (.ok inputs, m') ∧
        Holding ledger (root :: fileIds inputs) m') ∨
      ∃ failure m' ids closes,
        (openInputs services root opened arguments).runOn m = (.error failure, m') ∧
        Closing ledger (root :: ids) closes m' ∧ closes.Perm ids := by
  -- On the arguments: each of them adds its file behind those that are open already.
  induction arguments generalizing opened m with
  | nil => exact .inl ⟨opened, m, rfl, h⟩
  | cons file rest ih =>
      rcases recorded.openInput_cases h (List.mem_cons_self ..) file.path with
        ⟨id, length, m', hrun, hopen⟩ | ⟨cause, m', others, hrun, hclosing⟩
      · rw [openInputs_ok hrun]
        refine ih (Holding.keptByReports ledger _ _ _ _ ?_)
        rwa [fileIds, List.filterMap_append]
      · rw [openInputs_error hrun]
        exact .inr ⟨_, _, _, _, rfl, recorded.closing_closeInputs hclosing opened,
          List.perm_append_comm⟩

end Recorded

end BootVolume.Uefi
