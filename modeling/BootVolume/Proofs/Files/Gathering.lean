import BootVolume.Files.Catalog
import BootVolume.Proofs.Action

/-!
# Running steps on the catalog

A gathering step takes a catalog and a machine to an outcome, a catalog and a
machine.  `Gathering.runFrom` is that function.  The lemmas about `register` say
what it does for each role of a file: besides reporting lines it changes the
catalog by `Catalog.put` and at most one step more, and only a container makes
it call the outside world.
-/

namespace BootVolume.Files

variable {σ α β : Type}

/-- The machine `m'` is `m` after some lines were reported. -/
def Reported (m m' : Machine σ) : Prop :=
  ∃ lines : List (Level × String), m' = lines.foldl (fun m line => m.report line.1 line.2) m

namespace Reported

theorem refl (m : Machine σ) : Reported m m := ⟨[], rfl⟩

theorem report (m : Machine σ) (level : Level) (line : String) :
    Reported m (m.report level line) :=
  ⟨[(level, line)], rfl⟩

theorem trans {m m' m'' : Machine σ} (h : Reported m m') (h' : Reported m' m'') :
    Reported m m'' := by
  obtain ⟨lines, rfl⟩ := h
  obtain ⟨others, rfl⟩ := h'
  exact ⟨lines ++ others, (List.foldl_append ..).symm⟩

end Reported

/-- What reports leave alone. -/
def KeptByReports (good : Machine σ → Prop) : Prop :=
  ∀ m level line, good m → good (m.report level line)

theorem Reported.keeps {good : Machine σ → Prop} (hgood : KeptByReports good) {m m' : Machine σ}
    (h : Reported m m') (hm : good m) : good m' := by
  obtain ⟨lines, rfl⟩ := h
  induction lines generalizing m with
  | nil => exact hm
  | cons line rest ih => exact ih (hgood m line.1 line.2 hm)

/-- The outcome of a gathering step, with the catalog and the machine after it. -/
def Gathering.runFrom (act : Gathering σ α) (c : Catalog) (m : Machine σ) :
    (Except Failure α × Catalog) × Machine σ :=
  (act.run.run c).run m

namespace Gathering

theorem runFrom_bind (act : Gathering σ α) (f : α → Gathering σ β) (c : Catalog)
    (m : Machine σ) :
    Gathering.runFrom (act >>= f) c m =
      match Gathering.runFrom act c m with
      | ((.ok a, c'), m') => Gathering.runFrom (f a) c' m'
      | ((.error e, c'), m') => ((.error e, c'), m') := by
  unfold Gathering.runFrom
  simp only [ExceptT.run_bind, StateT.run_bind]
  rcases (act.run.run c).run m with ⟨⟨a | a, c'⟩, m'⟩ <;> rfl

theorem runFrom_bind_ok {act : Gathering σ α} {c c' : Catalog} {m m' : Machine σ} {a : α}
    (h : Gathering.runFrom act c m = ((.ok a, c'), m')) (f : α → Gathering σ β) :
    Gathering.runFrom (act >>= f) c m = Gathering.runFrom (f a) c' m' := by
  rw [runFrom_bind, h]

theorem runFrom_bind_error {act : Gathering σ α} {c c' : Catalog} {m m' : Machine σ} {e : Failure}
    (h : Gathering.runFrom act c m = ((.error e, c'), m')) (f : α → Gathering σ β) :
    Gathering.runFrom (act >>= f) c m = ((.error e, c'), m') := by
  rw [runFrom_bind, h]

theorem runFrom_bind_eq_ok {act : Gathering σ α} {f : α → Gathering σ β} {c c' : Catalog}
    {m m' : Machine σ} {b : β} (h : Gathering.runFrom (act >>= f) c m = ((.ok b, c'), m')) :
    ∃ a c₁ m₁, act.runFrom c m = ((.ok a, c₁), m₁) ∧
      Gathering.runFrom (f a) c₁ m₁ = ((.ok b, c'), m') := by
  rw [runFrom_bind] at h
  rcases hact : act.runFrom c m with ⟨⟨e | a, c₁⟩, m₁⟩ <;> rw [hact] at h
  · cases h
  · exact ⟨a, c₁, m₁, rfl, h⟩

theorem runFrom_get (c : Catalog) (m : Machine σ) :
    Gathering.runFrom (get : Gathering σ Catalog) c m = ((.ok c, c), m) := rfl

theorem runFrom_set (new c : Catalog) (m : Machine σ) :
    Gathering.runFrom (set new : Gathering σ PUnit) c m = ((.ok PUnit.unit, new), m) := rfl

theorem runFrom_lift {step : Step σ α} {m m' : Machine σ} {a : α} (h : step m = (a, m'))
    (c : Catalog) :
    Gathering.runFrom (liftM step : Gathering σ α) c m = ((.ok a, c), m') := by
  show ((Except.ok (step m).1, c), (step m).2) = _
  rw [h]

theorem runFrom_reportInfo (line : String) (c : Catalog) (m : Machine σ) :
    Gathering.runFrom (liftM (reportInfo (σ := σ) line) : Gathering σ Unit) c m =
      ((.ok (), c), m.report .info line) := rfl

theorem runFrom_outcome {ε : Type} {act : Action σ ε α} {m m' : Machine σ} {outcome : Except ε α}
    (h : act.runOn m = (outcome, m')) (c : Catalog) :
    Gathering.runFrom (liftM act.outcome : Gathering σ (Except ε α)) c m = ((.ok outcome, c), m') :=
  runFrom_lift h c

end Gathering

namespace Catalog

open Files.Gathering

variable {c : Catalog} {m : Machine σ} {name : String} {source : Source}

/-! ## What a registration does to the catalog -/

/-- The catalog whose boot target is the file that was just placed. -/
def Placed.aimed (placed : Placed) (origin : BootOrigin) : Catalog :=
  placed.catalog.aim placed.index origin placed.index_lt

/-- The catalog after a boot manager was placed. -/
def Placed.claimed (placed : Placed) : Catalog :=
  match placed.catalog.boot with
  | some (_, .registered) => placed.catalog
  | _ => placed.aimed .registered

/-- The catalog after the boot configuration store was placed. -/
def Placed.storePatched (placed : Placed) (settings : Settings) : Catalog :=
  if settings.rawStore then placed.catalog
  else placed.catalog.patchAt placed.index (some .bootStore)

/-- The catalog after a container was placed and given its patch, and the machine after
that. -/
def Placed.containerPatched (placed : Placed) (container : Container σ) (settings : Settings)
    (source : Source) (m : Machine σ) : Catalog × Machine σ :=
  if settings.rawContainers then (placed.catalog, m)
  else
    let (patch, m') := container.patch source settings m
    (placed.catalog.patchAt placed.index patch, m')

/-! ## The parts of a registration -/

/-- Inserting a file puts it into the catalog and reports lines. -/
theorem insert_eq (c : Catalog) (name : String) (source : Source) (m : Machine σ) :
    ∃ m', c.insert (σ := σ) name source m = (c.put { name, source }, m') ∧ Reported m m' := by
  unfold insert
  cases c.get? name with
  | none => exact ⟨_, rfl, Reported.report ..⟩
  | some old => exact ⟨_, rfl, (Reported.report ..).trans (Reported.report ..)⟩

theorem claimBoot_eq (name : String) (placed : Placed) (m : Machine σ) :
    ∃ m', claimBoot (σ := σ) name placed m = (placed.claimed, m') ∧ Reported m m' := by
  unfold claimBoot Placed.claimed
  rcases placed.catalog.boot with _ | ⟨index, _ | _⟩
  · exact ⟨_, rfl, Reported.report ..⟩
  · exact ⟨m, rfl, Reported.refl m⟩
  · exact ⟨_, rfl, Reported.report ..⟩

section Extract

variable {container : Container σ} {settings : Settings} {m' : Machine σ}

theorem extractBoot_of_error {cause : ReadError}
    (h : (container.extract source settings.index containerBootPath).runOn m = (.error cause, m')) :
    (extractBoot container settings name source).runFrom c m =
      ((.error (.read name cause), c), m') := by
  unfold extractBoot
  rw [runFrom_bind_ok (runFrom_outcome h c)]
  rfl

theorem extractBoot_of_none
    (h : (container.extract source settings.index containerBootPath).runOn m = (.ok none, m')) :
    (extractBoot container settings name source).runFrom c m = ((.ok (), c), m') := by
  unfold extractBoot
  rw [runFrom_bind_ok (runFrom_outcome h c)]
  rfl

/-- What is taken from a container becomes the boot target. -/
theorem extractBoot_of_some (name : String) (c : Catalog) {inner : Source}
    (h : (container.extract source settings.index containerBootPath).runOn m =
      (.ok (some inner), m')) :
    ∃ m'', (extractBoot container settings name source).runFrom c m =
      ((.ok (), (c.put { name := bootName, source := inner }).aimed .extracted), m'') ∧
      Reported m' m'' := by
  obtain ⟨m'', hinsert, hm''⟩ := insert_eq c bootName inner
    (m'.report .info ("extracted " ++ containerBootPath ++ " from " ++ name ++ " as " ++ bootName))
  refine ⟨m'', ?_, (Reported.report ..).trans hm''⟩
  unfold extractBoot
  rw [runFrom_bind_ok (runFrom_outcome h c)]
  simp only
  rw [runFrom_bind_ok (runFrom_reportInfo ..), runFrom_bind_ok (runFrom_get ..),
    runFrom_bind_ok (runFrom_lift hinsert c), runFrom_set]
  rfl

end Extract

/-! ## Registrations by role -/

section Register

variable (container : Container σ) (settings : Settings) (source) (c) (m)

theorem register_bootManager (hrole : roleOf name = .bootManager) :
    ∃ m', (register container settings name source).runFrom c m =
      ((.ok (), (c.put { name, source }).claimed), m') ∧ Reported m m' := by
  obtain ⟨m₁, hinsert, hm₁⟩ := insert_eq c name source m
  obtain ⟨m₂, hclaim, hm₂⟩ := claimBoot_eq name (c.put { name, source }) m₁
  refine ⟨m₂, ?_, hm₁.trans hm₂⟩
  unfold register
  rw [runFrom_bind_ok (runFrom_get ..), runFrom_bind_ok (runFrom_lift hinsert c),
    runFrom_bind_ok (runFrom_set ..), hrole]
  simp only
  rw [runFrom_bind_ok (runFrom_lift hclaim _), runFrom_set]

theorem register_bootStore (hrole : roleOf name = .bootStore) :
    ∃ m', (register container settings name source).runFrom c m =
      ((.ok (), (c.put { name, source }).storePatched settings), m') ∧ Reported m m' := by
  obtain ⟨m₁, hinsert, hm₁⟩ := insert_eq c name source m
  unfold register Placed.storePatched
  rw [runFrom_bind_ok (runFrom_get ..), runFrom_bind_ok (runFrom_lift hinsert c),
    runFrom_bind_ok (runFrom_set ..), hrole]
  by_cases hraw : settings.rawStore = true
  · refine ⟨m₁, ?_, hm₁⟩
    simp only [hraw, Bool.not_true, Bool.false_eq_true, if_true, if_false]
    rfl
  · refine ⟨m₁.report .debug ("patching " ++ name ++ " .exe references"), ?_,
      hm₁.trans (Reported.report ..)⟩
    rw [Bool.not_eq_true] at hraw
    simp only [hraw, Bool.not_false, if_true]
    rfl

theorem register_plain (hrole : roleOf name = .plain) :
    ∃ m', (register container settings name source).runFrom c m =
      ((.ok (), (c.put { name, source }).catalog), m') ∧ Reported m m' := by
  obtain ⟨m₁, hinsert, hm₁⟩ := insert_eq c name source m
  refine ⟨m₁, ?_, hm₁⟩
  unfold register
  rw [runFrom_bind_ok (runFrom_get ..), runFrom_bind_ok (runFrom_lift hinsert c),
    runFrom_bind_ok (runFrom_set ..), hrole]
  rfl

/-- A container is patched first, and then searched for a boot manager if none is known. -/
theorem register_container (hrole : roleOf name = .container) :
    ∃ m', Reported m m' ∧ ∀ {patched : Catalog} {m'' : Machine σ},
      (c.put { name, source }).containerPatched container settings source m' = (patched, m'') →
      (register container settings name source).runFrom c m =
        if patched.boot.isNone then
          (extractBoot container settings name source).runFrom patched m''
        else ((.ok (), patched), m'') := by
  obtain ⟨m₁, hinsert, hm₁⟩ := insert_eq c name source m
  refine ⟨m₁, hm₁, ?_⟩
  intro patched m'' hpatched
  have hsearch : Gathering.runFrom (σ := σ)
      (do if (← get).boot.isNone then extractBoot container settings name source) patched m'' =
      if patched.boot.isNone then
        (extractBoot container settings name source).runFrom patched m''
      else ((.ok (), patched), m'') := by
    rw [runFrom_bind_ok (runFrom_get ..)]
    split <;> rfl
  rw [← hsearch]
  unfold register
  unfold Placed.containerPatched at hpatched
  rw [runFrom_bind_ok (runFrom_get ..), runFrom_bind_ok (runFrom_lift hinsert c),
    runFrom_bind_ok (runFrom_set ..), hrole]
  by_cases hraw : settings.rawContainers = true
  · rw [if_pos hraw] at hpatched
    cases hpatched
    simp only [hraw, Bool.not_true, Bool.false_eq_true, if_false]
  · rw [if_neg hraw] at hpatched
    rw [Bool.not_eq_true] at hraw
    cases hpatched
    simp only [hraw, Bool.not_false, if_true]
    rfl

/-! ## Records -/

variable {record : Newc.Record}

/-- Whether a record is registered as a file. -/
def isRegistered (record : Newc.Record) : Bool := record.isFile && nameOfRecord record != ""

theorem registerRecords_file (hfile : isRegistered record = true)
    (rest : List (Except Newc.ArchiveError Newc.Record)) :
    registerRecords container settings (.ok record :: rest) =
      register container settings (nameOfRecord record) (.memory record.data) >>= fun _ =>
        registerRecords container settings rest := by
  unfold isRegistered at hfile
  simp only [registerRecords, hfile, if_true]

theorem registerRecords_other (hother : isRegistered record = false)
    (rest : List (Except Newc.ArchiveError Newc.Record)) :
    registerRecords container settings (.ok record :: rest) =
      registerRecords container settings rest := by
  unfold isRegistered at hother
  simp only [registerRecords, hother, Bool.false_eq_true, if_false]

end Register

end Catalog

end BootVolume.Files
