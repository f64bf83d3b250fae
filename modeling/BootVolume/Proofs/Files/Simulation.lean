import BootVolume.Proofs.Files.Alike
import BootVolume.Proofs.Newc.Reader

/-!
# Registrations that agree

`Simulates` says that two gathering steps take catalogs that are alike to
catalogs that are alike, with the same outcome.  Registering two sources of one
content under one name is such a pair of steps if the container answers by the
content alone (`simulates_register`), whether the files are gathered in memory
or not, and so is registering one file after the other
(`simulates_registerAll`).
-/

namespace BootVolume.Files

variable {σ α β : Type} {storage : Storage σ} {good : Machine σ → Prop}

/-- The two steps have the same outcome and keep catalogs alike. -/
def Simulates (storage : Storage σ) (good : Machine σ → Prop) (act act' : Gathering σ α) :
    Prop :=
  ∀ ⦃c c' : Catalog⦄ ⦃m m' : Machine σ⦄, Catalog.Alike storage good c c' → good m → good m' →
    ∃ outcome d d' n n', act.runFrom c m = ((outcome, d), n) ∧
      act'.runFrom c' m' = ((outcome, d'), n') ∧ Catalog.Alike storage good d d' ∧
      good n ∧ good n'

theorem simulates_pure (a : α) :
    Simulates storage good (pure a : Gathering σ α) (pure a) :=
  fun _ _ _ _ hcatalog hm hm' => ⟨.ok a, _, _, _, _, rfl, rfl, hcatalog, hm, hm'⟩

theorem simulates_bind {act act' : Gathering σ α} {f f' : α → Gathering σ β}
    (h : Simulates storage good act act') (hf : ∀ a, Simulates storage good (f a) (f' a)) :
    Simulates storage good (act >>= f) (act' >>= f') := by
  intro c c' m m' hcatalog hm hm'
  obtain ⟨outcome, d, d', n, n', hrun, hrun', hd, hn, hn'⟩ := h hcatalog hm hm'
  cases outcome with
  | error cause =>
      exact ⟨.error cause, d, d', n, n', Gathering.runFrom_bind_error hrun f,
        Gathering.runFrom_bind_error hrun' f', hd, hn, hn'⟩
  | ok a =>
      obtain ⟨outcome, e, e', k, k', hnext, hnext', he, hk, hk'⟩ := hf a hd hn hn'
      refine ⟨outcome, e, e', k, k', ?_, ?_, he, hk, hk'⟩
      · rw [Gathering.runFrom_bind_ok hrun, hnext]
      · rw [Gathering.runFrom_bind_ok hrun', hnext']

/-! ## Containers -/

/-- The same failure, or nothing, or like sources. -/
inductive SameExtraction (storage : Storage σ) (good : Machine σ → Prop) :
    Except ReadError (Option Source) → Except ReadError (Option Source) → Prop
  | error (cause : ReadError) : SameExtraction storage good (.error cause) (.error cause)
  | none : SameExtraction storage good (.ok none) (.ok none)
  | some {inner inner' : Source} (h : Source.Alike storage good inner inner') :
      SameExtraction storage good (.ok (some inner)) (.ok (some inner'))

/-- What a container answers depends on the bytes of a source, and not on whether the inputs
are copied into memory first. -/
structure AnswersByContent (storage : Storage σ) (good : Machine σ → Prop)
    (container : Container σ) : Prop where
  patch : ∀ {source source' : Source} {content : Bytes} {m m' : Machine σ},
    Honest storage good source content → Honest storage good source' content →
    good m → good m' → ∀ (settings : Settings) (inMemory inMemory' : Bool),
    ∃ patch patch' m₁ m₁',
      container.patch source { settings with inMemory } m = (patch, m₁) ∧
      container.patch source' { settings with inMemory := inMemory' } m' = (patch', m₁') ∧
      Option.Rel (Patch.Alike storage good) patch patch' ∧ good m₁ ∧ good m₁'
  extract : ∀ {source source' : Source} {content : Bytes} {m m' : Machine σ},
    Honest storage good source content → Honest storage good source' content →
    good m → good m' → ∀ (index : UInt32) (path : String), ∃ outcome outcome' m₁ m₁',
      (container.extract source index path).runOn m = (outcome, m₁) ∧
      (container.extract source' index path).runOn m' = (outcome', m₁') ∧
      SameExtraction storage good outcome outcome' ∧ good m₁ ∧ good m₁'

/-- Where no container is known, all of them get the same answers. -/
theorem opaqueFiles_answersByContent (storage : Storage σ) (hgood : KeptByReports good) :
    AnswersByContent storage good Container.opaqueFiles where
  patch _ _ hm hm' _ _ _ := ⟨none, none, _, _, rfl, rfl, .none, hm, hm'⟩
  extract _ _ hm hm' _ _ :=
    ⟨.ok none, .ok none, _, _, rfl, rfl, .none, hgood _ _ _ hm, hgood _ _ _ hm'⟩

/-! ## Registrations -/

namespace Catalog

section Register

variable {container : Container σ} {name : String} {source source' : Source} {content : Bytes}

theorem alike_of_honest (honest : Honest storage good source content)
    (honest' : Honest storage good source' content) (name : String) :
    FileEntry.Alike storage good { name, source } { name, source := source' } :=
  ⟨rfl, honest.alike honest', .none⟩

theorem simulates_extractBoot (hgood : KeptByReports good)
    (hcontainer : AnswersByContent storage good container)
    (honest : Honest storage good source content)
    (honest' : Honest storage good source' content) (settings settings' : Settings)
    (hindex : settings.index = settings'.index) (name : String) :
    Simulates storage good (extractBoot container settings name source)
      (extractBoot container settings' name source') := by
  intro c c' m m' hcatalog hm hm'
  obtain ⟨outcome, outcome', m₁, m₁', hextract, hextract', hsame, hm₁, hm₁'⟩ :=
    hcontainer.extract honest honest' hm hm' settings.index containerBootPath
  rw [hindex] at hextract'
  cases hsame with
  | error cause =>
      exact ⟨_, c, c', m₁, m₁', extractBoot_of_error hextract, extractBoot_of_error hextract',
        hcatalog, hm₁, hm₁'⟩
  | none =>
      exact ⟨_, c, c', m₁, m₁', extractBoot_of_none hextract, extractBoot_of_none hextract',
        hcatalog, hm₁, hm₁'⟩
  | @some inner inner' hinner =>
      obtain ⟨m₂, hrun, hm₂⟩ := extractBoot_of_some name c hextract
      obtain ⟨m₂', hrun', hm₂'⟩ := extractBoot_of_some name c' hextract'
      have hfile : FileEntry.Alike storage good { name := bootName, source := inner }
          { name := bootName, source := inner' } := ⟨rfl, hinner, .none⟩
      obtain ⟨hput, hputindex⟩ := hcatalog.put hfile
      exact ⟨_, _, _, m₂, m₂', hrun, hrun', hput.aimed hputindex _, hm₂.keeps hgood hm₁,
        hm₂'.keeps hgood hm₁'⟩

section Placed

variable {placed placed' : Placed}

theorem alike_storePatched (hgood : KeptByReports good)
    (h : Catalog.Alike storage good placed.catalog placed'.catalog)
    (hindex : placed.index = placed'.index) {settings settings' : Settings}
    (hraw : settings.rawStore = settings'.rawStore) :
    Catalog.Alike storage good (placed.storePatched settings) (placed'.storePatched settings') := by
  unfold Placed.storePatched
  rw [← hraw, ← hindex]
  split
  · exact h
  · exact h.patchAt _ (.some (bootStore_alike hgood))

theorem alike_containerPatched (hcontainer : AnswersByContent storage good container)
    (honest : Honest storage good source content)
    (honest' : Honest storage good source' content)
    (h : Catalog.Alike storage good placed.catalog placed'.catalog)
    (hindex : placed.index = placed'.index) (settings : Settings) (inMemory inMemory' : Bool)
    {m m' : Machine σ} (hm : good m) (hm' : good m') :
    ∃ patched patched' n n',
      placed.containerPatched container { settings with inMemory } source m = (patched, n) ∧
      placed'.containerPatched container { settings with inMemory := inMemory' } source' m' =
        (patched', n') ∧
      Catalog.Alike storage good patched patched' ∧ good n ∧ good n' := by
  unfold Placed.containerPatched
  by_cases hraw : settings.rawContainers = true
  · simp only [if_pos hraw]
    exact ⟨_, _, m, m', rfl, rfl, h, hm, hm'⟩
  · obtain ⟨patch, patch', m₁, m₁', hpatch, hpatch', hpatches, hm₁, hm₁'⟩ :=
      hcontainer.patch honest honest' hm hm' settings inMemory inMemory'
    simp only [if_neg hraw, hpatch, hpatch', ← hindex]
    exact ⟨_, _, m₁, m₁', rfl, rfl, h.patchAt _ hpatches, hm₁, hm₁'⟩

end Placed

/-- Sources of one content are registered alike. -/
theorem simulates_register (hgood : KeptByReports good)
    (hcontainer : AnswersByContent storage good container)
    (honest : Honest storage good source content)
    (honest' : Honest storage good source' content) (settings : Settings)
    (inMemory inMemory' : Bool) (name : String) :
    Simulates storage good (register container { settings with inMemory } name source)
      (register container { settings with inMemory := inMemory' } name source') := by
  intro c c' m m' hcatalog hm hm'
  obtain ⟨hput, hindex⟩ := hcatalog.put (alike_of_honest honest honest' name)
  cases hrole : roleOf name with
  | bootManager =>
      obtain ⟨m₁, hrun, hm₁⟩ := register_bootManager c m source
        container { settings with inMemory } hrole
      obtain ⟨m₁', hrun', hm₁'⟩ := register_bootManager c' m' source'
        container { settings with inMemory := inMemory' } hrole
      exact ⟨_, _, _, m₁, m₁', hrun, hrun', hput.claimed hindex, hm₁.keeps hgood hm,
        hm₁'.keeps hgood hm'⟩
  | bootStore =>
      obtain ⟨m₁, hrun, hm₁⟩ := register_bootStore c m source
        container { settings with inMemory } hrole
      obtain ⟨m₁', hrun', hm₁'⟩ := register_bootStore c' m' source'
        container { settings with inMemory := inMemory' } hrole
      exact ⟨_, _, _, m₁, m₁', hrun, hrun', alike_storePatched hgood hput hindex rfl,
        hm₁.keeps hgood hm, hm₁'.keeps hgood hm'⟩
  | container =>
      obtain ⟨m₁, hm₁, hrun⟩ := register_container c m source
        container { settings with inMemory } hrole
      obtain ⟨m₁', hm₁', hrun'⟩ := register_container c' m' source'
        container { settings with inMemory := inMemory' } hrole
      obtain ⟨patched, patched', m₂, m₂', hpatched, hpatched', halike, hm₂, hm₂'⟩ :=
        alike_containerPatched hcontainer honest honest' hput hindex settings inMemory inMemory'
          (hm₁.keeps hgood hm) (hm₁'.keeps hgood hm')
      rw [hrun hpatched, hrun' hpatched', ← halike.boot]
      by_cases hnone : patched.boot.isNone = true
      · simp only [if_pos hnone]
        exact simulates_extractBoot hgood hcontainer honest honest' _ _ rfl name halike hm₂ hm₂'
      · simp only [if_neg hnone]
        exact ⟨_, patched, patched', m₂, m₂', rfl, rfl, halike, hm₂, hm₂'⟩
  | plain =>
      obtain ⟨m₁, hrun, hm₁⟩ := register_plain c m source
        container { settings with inMemory } hrole
      obtain ⟨m₁', hrun', hm₁'⟩ := register_plain c' m' source'
        container { settings with inMemory := inMemory' } hrole
      exact ⟨_, _, _, m₁, m₁', hrun, hrun', hput, hm₁.keeps hgood hm, hm₁'.keeps hgood hm'⟩

end Register

/-! ## One file after the other -/

theorem registerAll_append (container : Container σ) (settings : Settings)
    (files others : List (String × Source)) :
    registerAll container settings (files ++ others) =
      registerAll container settings files >>= fun _ => registerAll container settings others := by
  induction files with
  | nil => rw [List.nil_append, registerAll, pure_bind]
  | cons file rest ih =>
      rw [List.cons_append, registerAll, ih, registerAll, bind_assoc]

/-- Two files of the same name and content. -/
def SameFile (storage : Storage σ) (good : Machine σ → Prop) (file file' : String × Source) :
    Prop :=
  file.1 = file'.1 ∧
    ∃ content, Honest storage good file.2 content ∧ Honest storage good file'.2 content

theorem simulates_registerAll (hgood : KeptByReports good) {container : Container σ}
    (hcontainer : AnswersByContent storage good container) (settings : Settings)
    (inMemory inMemory' : Bool) {files files' : List (String × Source)}
    (h : List.Forall₂ (SameFile storage good) files files') :
    Simulates storage good (registerAll container { settings with inMemory } files)
      (registerAll container { settings with inMemory := inMemory' } files') := by
  induction h with
  | nil => exact simulates_pure ()
  | @cons file file' rest rest' hfile _ ih =>
      obtain ⟨name, source⟩ := file
      obtain ⟨name', source'⟩ := file'
      obtain ⟨rfl, content, honest, honest'⟩ := hfile
      exact simulates_bind
        (simulates_register hgood hcontainer honest honest' settings inMemory inMemory' _)
        fun _ => ih

/-- The files among records, with the names under which they are registered. -/
def registeredFiles (rs : List Newc.Record) : List (String × Bytes) :=
  (rs.filter isRegistered).map fun r => (nameOfRecord r, r.data)

/-- Files in memory. -/
def inMemoryFiles (files : List (String × Bytes)) : List (String × Source) :=
  files.map fun file => (file.1, .memory file.2)

/-- Without a malformed record the files among the records are registered. -/
theorem registerRecords_eq (container : Container σ) (settings : Settings)
    (rs : List Newc.Record) :
    registerRecords container settings (rs.map .ok) =
      registerAll container settings (inMemoryFiles (registeredFiles rs)) := by
  induction rs with
  | nil => rfl
  | cons r rest ih =>
      cases hfile : isRegistered r with
      | true =>
          have hfiles : registeredFiles (r :: rest) =
              (nameOfRecord r, r.data) :: registeredFiles rest := by
            rw [registeredFiles, List.filter_cons_of_pos hfile]
            rfl
          rw [List.map_cons, registerRecords_file container settings hfile, ih, hfiles]
          rfl
      | false =>
          have hfiles : registeredFiles (r :: rest) = registeredFiles rest := by
            rw [registeredFiles, List.filter_cons_of_neg (by rw [hfile]; decide)]
            rfl
          rw [List.map_cons, registerRecords_other container settings hfile, ih, hfiles]

/-- Where a record stands makes no difference. -/
theorem registeredFiles_map_moveTo (rs : List Newc.Record) (offset : Nat) :
    registeredFiles (rs.map (·.moveTo offset)) = registeredFiles rs := by
  rw [registeredFiles, List.filter_map, List.map_map]
  rfl

end Catalog

end BootVolume.Files
