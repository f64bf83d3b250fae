import BootVolume.Proofs.Launch.Makes

/-!
# The calls of the preparation

Until the disk is built, a run calls the firmware for memory alone
(`makes_prepare`): once for the archive of all inputs in memory mode, and
otherwise once for every input without a name, in the order of the inputs.
Everything else that it asks for is content of files, read or taken out of
containers.  The failures that a run finds by itself are those of `IsOwn`.
-/

namespace BootVolume

open Files Newc

variable {σ : Type} {out : Surroundings σ}

/-- The failures that no answer of the outside world is behind: the inputs are at fault, or in
memory mode the exact size of the archive is too large for a word of 64 bits, so that memory for
the wrapped size does not hold it. -/
inductive IsOwn (settings : Settings) (inputs : List Entry) : Failure → Prop
  | input (cause : InputError) : IsOwn settings inputs (.input cause)
  | overflow {total : Nat} (inMemory : settings.inMemory = true)
      (exact : exactStop 0 (layout inputs) = some total) (toolarge : 2 ^ 64 ≤ total)
      (needed : Nat) : IsOwn settings inputs (.allocation "archive buffer" needed none)

/-- The pages for the archive of all inputs, if it has a size. -/
def archiveCalls (inputs : List Entry) : List FirmwareCall :=
  match measure inputs with
  | .ok size => [.allocatePages (pagesFor size.toNat)]
  | .error _ => []

/-- The pages for the inputs without a name, each for itself. -/
def inputCalls (inputs : List Entry) : List FirmwareCall :=
  (inputs.filter fun input => input.name.isNone).map fun input =>
    .allocatePages (pagesFor input.source.length)

/-- The calls to the firmware until the disk is built. -/
def gatherCalls (settings : Settings) (inputs : List Entry) : List FirmwareCall :=
  if settings.inMemory then archiveCalls inputs else inputCalls inputs

/-- Gathering asks for nothing but memory. -/
theorem allocation_of_mem_gatherCalls {settings : Settings} {inputs : List Entry}
    {call : FirmwareCall} (h : call ∈ gatherCalls settings inputs) :
    ∃ pages, call = .allocatePages pages := by
  unfold gatherCalls archiveCalls inputCalls at h
  split at h
  · split at h
    · exact ⟨_, List.mem_singleton.mp h⟩
    · exact absurd h List.not_mem_nil
  · obtain ⟨input, -, rfl⟩ := List.mem_map.mp h
    exact ⟨_, rfl⟩

/-! ## Inputs in memory -/

section Load

variable {own : Failure → Prop}

theorem makes_readInput (out : Surroundings σ) (input : Entry) :
    Makes out (Asked (.read input.file) fun data => .ok data)
      (Action.mapError (.read input.path)
        (input.source.readExact out.storage 0 input.source.length)) := by
  refine makes_asked (r := .read input.file) (fun answer => answer) (fun m => ?_)
    (fun _ => rfl) fun _ => rfl
  rw [input.perform_read]
  rfl

theorem makes_loadWhole (out : Surroundings σ) (own : Failure → Prop) (input : Entry) :
    Makes out (Goes own [.allocatePages (pagesFor input.source.length)])
      (loadWhole out.storage out.firmware input) := by
  have hallocate := (makes_allocate out input.source.length "input file").goes own
  have hread := (makes_readInput out input).goes own
  exact hallocate.goes_bind fun _ _ => hread

/-- A piece is filled by reading an input, or without a look outside. -/
theorem makes_fill {piece : Piece} {position stop : Nat}
    (hstop : piece.stopAt position = some stop) (out : Surroundings σ) (own : Failure → Prop) :
    Makes out (Goes own [])
      (Action.mapError Failure.ofRender (piece.fill out.storage position)) := by
  cases piece with
  | align => exact Action.mapError_pure _ _ ▸ .pure (goes_nil own _)
  | bytes data => exact Action.mapError_pure _ _ ▸ .pure (goes_nil own _)
  | content entry =>
      -- The failure is renamed twice on its way up, and still names the input.
      have hread := (makes_readInput out entry).goes own
      exact (Action.mapError_mapError ..).symm ▸ hread
  | refusal cause => cases hstop

/-- Pieces are rendered without a call to the firmware.  A buffer that is too small is noticed
without help from outside. -/
theorem makes_renderFrom {pieces : List Piece} {position stop available : Nat}
    (hstop : exactStop position pieces = some stop)
    (hsmall : available < stop → ∀ needed, own (.allocation "archive buffer" needed none)) :
    Makes out (Goes own []) (Action.mapError Failure.ofRender
      (renderFrom out.storage available position pieces)) := by
  induction pieces generalizing position with
  | nil =>
      rw [renderFrom, Action.mapError_pure]
      exact .pure (goes_nil own [])
  | cons piece rest ih =>
      obtain ⟨middle, hmiddle, hrest⟩ := exactStop_cons hstop
      rw [renderFrom, Piece.render_eq hmiddle]
      by_cases hfits : middle ≤ available
      · rw [if_pos hfits, Action.mapError_bind]
        refine (makes_fill hmiddle out own).goes_nil_bind fun head hhead => ?_
        -- The next piece starts where this one was to stop, whatever the source brought.
        obtain ⟨m, m', hrun⟩ := hhead
        rw [Piece.length_of_fill hmiddle (Action.runOn_mapError_eq_ok hrun), Action.mapError_bind]
        refine (ih hrest).goes_nil_bind fun tail _ => ?_
        rw [Action.mapError_pure]
        exact .pure (goes_nil own _)
      · rw [if_neg hfits, Action.mapError_bind, Action.mapError_throw]
        have hle : middle ≤ stop := le_of_exactStop hrest
        have hown := hsmall (by omega) (min middle 0xFFFFFFFFFFFFFFFF)
        have hthrow : Makes out (Goes own []) (throw (Failure.ofRender
            (.bufferTooSmall (min middle 0xFFFFFFFFFFFFFFFF) available)) :
              Action σ Failure Bytes) := .throw (goes_own hown [])
        refine hthrow.goes_nil_bind fun _ hrendered => ?_
        obtain ⟨_, _, hrun⟩ := hrendered
        cases hrun

/-- A measured archive is rendered with one call for memory.  Its buffer is too small only if
the exact size is larger than the measured one, which is a word of 64 bits. -/
theorem makes_renderInputs {settings : Settings} (hmemory : settings.inMemory = true)
    (out : Surroundings σ) (inputs : List Entry) :
    Makes out (Goes (IsOwn settings inputs) (archiveCalls inputs))
      (renderInputs out.storage out.firmware inputs) := by
  unfold renderInputs archiveCalls
  cases hmeasure : measure inputs with
  | error cause => exact .throw (goes_own (.input _) _)
  | ok size =>
      obtain ⟨total, htotal⟩ := exists_exactStop hmeasure 0
      have hallocate := (makes_allocate out size.toNat "archive").goes (IsOwn settings inputs)
      refine hallocate.goes_bind (f := _) fun _ _ => ?_
      unfold render
      rw [Action.mapError_bind, Bytes.length_zeros, bind_assoc]
      have hrender : Makes out (Goes (IsOwn settings inputs) []) (Action.mapError Failure.ofRender
          (renderFrom out.storage size.toNat 0 (layout inputs))) :=
        makes_renderFrom htotal fun hsmall needed =>
          .overflow hmemory htotal (le_of_measure_lt hmeasure htotal hsmall) needed
      refine hrender.goes_nil_bind fun archive _ => ?_
      rw [Action.mapError_pure, pure_bind]
      exact Makes.after_reports (.pure (goes_nil _ _)) fun m => .report m _ _

end Load

/-! ## Registrations -/

/-- The events of a registration: the patch of a container, and the search in it. -/
def Files.Registered.events (settings : Settings) (r : Registered) : List Event :=
  (r.calls settings).map (·.event r.name)

theorem Files.Registered.events_eq (settings : Settings) (r : Registered) :
    r.events settings =
      (r.patch.toList.map fun answer => ⟨.patch r.source settings, answer⟩) ++
        r.search.toList.map fun answer =>
          ⟨.extract r.name r.source settings.index containerBootPath, answer⟩ := by
  rw [events, calls, List.map_append, List.map_map, List.map_map]
  rfl

/-- A registration calls no firmware, and fails just if the search does, under the name of the
file. -/
theorem Files.Registered.goes_events (own : Failure → Prop) (settings : Settings)
    (r : Registered) : Goes own [] (r.events settings) r.outcome := by
  have hcalls : firmwareCalls (r.events settings) = [] := firmwareCalls_containerCalls _ _
  have hpatch : Passed (r.patch.toList.map fun answer => ⟨.patch r.source settings, answer⟩) := by
    intro e he
    obtain ⟨answer, -, rfl⟩ := List.mem_map.mp he
    rfl
  rw [events_eq] at hcalls ⊢
  cases hsearch : r.search with
  | none =>
      rw [hsearch] at hcalls
      rw [outcome, hsearch]
      exact ⟨hpatch.append .nil, hcalls⟩
  | some answer =>
      rw [hsearch] at hcalls
      rw [outcome, hsearch]
      cases answer with
      | error cause => exact ⟨.inl ⟨_, _, rfl, hpatch, rfl⟩, hcalls ▸ List.prefix_refl _⟩
      | ok inner => exact ⟨hpatch.append (.singleton rfl), hcalls⟩

section Gather

variable {own : Failure → Prop} (out) (settings : Settings)

/-- A registration asks the container format alone. -/
theorem gathers_register (own : Failure → Prop) (name : String) (source : Source) :
    Gathers out own [] (Catalog.register out.container settings name source) := by
  intro c m
  obtain ⟨r, m', -, hrun, hcalls, -⟩ :=
    Catalog.register_eq out.container settings c name source m
  exact ⟨r.events settings, r.outcome, r.change settings c, m', hrun, .of_calls hcalls r.name,
    r.goes_events own settings⟩

variable {settings} in
theorem gathers_registerRecords (hown : ∀ cause, own (.input cause))
    (records : List (Except ArchiveError Record)) :
    Gathers out own [] (Catalog.registerRecords out.container settings records) := by
  induction records with
  | nil => exact .pure out own ()
  | cons record rest ih =>
      cases record with
      | error cause => exact .throw (hown _) []
      | ok record =>
          cases hfile : Catalog.isRegistered record with
          | true =>
              rw [Catalog.registerRecords_file out.container settings hfile]
              exact (gathers_register out settings own _ _).bind fun _ => ih
          | false =>
              rw [Catalog.registerRecords_other out.container settings hfile]
              exact ih

/-- Inputs that are taken one by one ask for memory for those without a name. -/
theorem gathers_takeInputs {settings : Settings} (hown : ∀ cause, own (.input cause))
    (inputs : List Entry) :
    Gathers out own (inputCalls inputs)
      (takeInputs out.storage out.firmware settings out.container inputs) := by
  induction inputs with
  | nil => exact .pure out own ()
  | cons input rest ih =>
      cases hname : input.name with
      | some name =>
          have hcalls : inputCalls (input :: rest) = [] ++ inputCalls rest := by
            rw [inputCalls, List.filter_cons_of_neg (by rw [hname]; exact Bool.false_ne_true)]
            rfl
          rw [takeInputs_named hname, hcalls]
          exact (gathers_register out settings own _ _).bind fun _ => ih
      | none =>
          have hcalls : inputCalls (input :: rest) =
              [.allocatePages (pagesFor input.source.length)] ++ ([] ++ inputCalls rest) := by
            rw [inputCalls, List.filter_cons_of_pos (by rw [hname]; rfl)]
            rfl
          -- The archive is loaded with one call and unpacked with none.
          rw [takeInputs_raw hname, hcalls]
          refine (Gathers.lift (makes_loadWhole out own input)).bind fun data => ?_
          exact (gathers_registerRecords out hown _).bind fun _ => ih

/-- Gathering calls the firmware for memory alone. -/
theorem gathers_gather (inputs : List Entry) :
    Gathers out (IsOwn settings inputs) (gatherCalls settings inputs)
      (gather out.storage out.firmware settings out.container inputs) := by
  have hinput : ∀ cause, IsOwn settings inputs (.input cause) := .input
  by_cases hempty : inputs = []
  · subst hempty
    exact .throw (hinput .noFiles) _
  · rw [gather_of_ne_nil hempty, gatherCalls]
    by_cases hmemory : settings.inMemory = true
    · rw [if_pos hmemory, if_pos hmemory, ← List.append_nil (archiveCalls inputs)]
      exact (Gathers.lift (makes_renderInputs hmemory out inputs)).bind fun archive =>
        gathers_registerRecords out hinput _
    · rw [if_neg hmemory, if_neg hmemory]
      exact gathers_takeInputs out hinput inputs

end Gather

/-! ## The disk -/

theorem makes_build {own : Failure → Prop} (hown : ∀ cause, own (.input cause)) (set : FileSet) :
    Makes out (Goes own []) (Image.VirtualDisk.build (σ := σ) set) := by
  unfold Image.VirtualDisk.build
  rcases Image.visibleFiles set with ⟨shown, warnings⟩
  simp only
  refine Makes.after_warnings ?_ warnings
  cases Image.oversized? set shown with
  | some file => exact Makes.throw (goes_own (hown (.fileTooLarge file.name)) [])
  | none =>
      simp only
      have hdone : Makes out (Goes own [])
          (pure (Image.assemble set shown) : Action σ Failure Image.VirtualDisk) :=
        .pure (goes_nil own _)
      split
      · exact (hdone.after_reports fun m => .report m _ _).after_reports fun m => .report m _ _
      · exact hdone.after_reports fun m => .report m _ _

/-- What is done with the files that were gathered: the boot target is settled, and the disk is
built. -/
def buildGathered (gathered : Except Failure Unit × Catalog) :
    Action σ Failure Image.VirtualDisk :=
  match gathered.1 with
  | .error cause => throw cause
  | .ok () =>
      match gathered.2.finish with
      | .error cause => throw (.input cause)
      | .ok set => do
          reportInfo (σ := σ) ("booting " ++ set.bootTarget.name)
          Image.VirtualDisk.build set

/-- Until the disk is built the firmware is called for memory alone. -/
theorem makes_prepare (out : Surroundings σ) (settings : Settings) (inputs : List Entry) :
    Makes out (Goes (IsOwn settings inputs) (gatherCalls settings inputs))
      (prepare out.storage out.firmware settings out.container inputs) := by
  have hinput : ∀ cause, IsOwn settings inputs (.input cause) := .input
  have hprepare := (gathers_gather out settings inputs).makes_bind Catalog.empty
    (f := buildGathered) ?_ fun _ _ => rfl
  · -- The report about graphical messages comes first, if there is one.
    unfold prepare
    split
    · exact hprepare.after_reports fun m => .report m _ _
    · exact hprepare
  · intro _ c
    cases hfinish : c.finish with
    | error cause =>
        simp only [buildGathered, hfinish]
        exact .throw (goes_own (hinput cause) [])
    | ok set =>
        simp only [buildGathered, hfinish]
        exact (makes_build hinput set).after_reports fun m => .report m _ _

end BootVolume
