import BootVolume.Proofs.Files.Catalog
import BootVolume.Proofs.Files.Gathering

/-!
# One registration and what the container format said

What a registration does to the catalog depends on the outside world only through
the answers of the container format.  `Registered` is a registration together
with these answers; from it alone follow the outcome, the calls that were made
and the new catalog (`register_eq`), whether the registration fails or not.
-/

namespace BootVolume.Files

variable {σ : Type}

/-! ## Calls to the container format -/

/-- A call to the container format, with its answer. -/
inductive ContainerCall where
  | patch (source : Source) (settings : Settings) (answer : Option Patch)
  | extract (source : Source) (index : UInt32) (path : String)
      (answer : Except ReadError (Option Source))

/-- The way from one machine to another leads through these calls in this order, and through
reports and nothing else between them. -/
inductive Calls (container : Container σ) : List ContainerCall → Machine σ → Machine σ → Prop
  | nil {m m' : Machine σ} (reported : Reported m m') : Calls container [] m m'
  | patch {m m₁ m₂ m' : Machine σ} {source : Source} {settings : Settings}
      {answer : Option Patch} {calls : List ContainerCall} (reported : Reported m m₁)
      (call : container.patch source settings m₁ = (answer, m₂))
      (rest : Calls container calls m₂ m') :
      Calls container (.patch source settings answer :: calls) m m'
  | extract {m m₁ m₂ m' : Machine σ} {source : Source} {index : UInt32} {path : String}
      {answer : Except ReadError (Option Source)} {calls : List ContainerCall}
      (reported : Reported m m₁)
      (call : (container.extract source index path).runOn m₁ = (answer, m₂))
      (rest : Calls container calls m₂ m') :
      Calls container (.extract source index path answer :: calls) m m'

namespace Calls

variable {container : Container σ} {calls others : List ContainerCall} {m m' m'' : Machine σ}

theorem of_reported (h : Reported m m') (rest : Calls container calls m' m'') :
    Calls container calls m m'' := by
  cases rest with
  | nil reported => exact .nil (h.trans reported)
  | patch reported call rest => exact .patch (h.trans reported) call rest
  | extract reported call rest => exact .extract (h.trans reported) call rest

theorem append (h : Calls container calls m m') (rest : Calls container others m' m'') :
    Calls container (calls ++ others) m m'' := by
  induction h with
  | nil reported => exact rest.of_reported reported
  | patch reported call _ ih => exact .patch reported call (ih rest)
  | extract reported call _ ih => exact .extract reported call (ih rest)

end Calls

/-- An observer writes down every call to the container format and nothing else. -/
structure Logs (container : Container σ) (log : Machine σ → List ContainerCall) : Prop where
  report : ∀ m level line, log (m.report level line) = log m
  patch : ∀ source settings m, log (container.patch source settings m).2 =
    log m ++ [.patch source settings (container.patch source settings m).1]
  extract : ∀ source index path m, log ((container.extract source index path).runOn m).2 =
    log m ++ [.extract source index path ((container.extract source index path).runOn m).1]

namespace Logs

variable {container : Container σ} {log : Machine σ → List ContainerCall} {m m' : Machine σ}

theorem reported (hlog : Logs container log) (h : Reported m m') : log m' = log m :=
  have hkept : KeptByReports fun other => log other = log m := fun _ level line hm =>
    (hlog.report _ level line).trans hm
  h.keeps hkept rfl

/-- The calls on the way are those that an observer sees. -/
theorem calls (hlog : Logs container log) {calls : List ContainerCall}
    (h : Calls container calls m m') : log m' = log m ++ calls := by
  induction h with
  | nil reported => rw [hlog.reported reported, List.append_nil]
  | @patch m m₁ m₂ m' source settings answer calls reported call _ ih =>
      have hseen := hlog.patch source settings m₁
      rw [call, hlog.reported reported] at hseen
      rw [ih, hseen, List.append_assoc, List.singleton_append]
  | @extract m m₁ m₂ m' source index path answer calls reported call _ ih =>
      have hseen := hlog.extract source index path m₁
      rw [call, hlog.reported reported] at hseen
      rw [ih, hseen, List.append_assoc, List.singleton_append]

end Logs

/-! ## Registrations with answers -/

/-- A registration that was made, with the answers of the container format. -/
structure Registered where
  name : String
  source : Source
  /-- The answer if a patch was asked for. -/
  patch : Option (Option Patch) := none
  /-- The answer if a boot manager was asked for. -/
  search : Option (Except ReadError (Option Source)) := none

namespace Registered

/-- The file that was registered. -/
def file (r : Registered) : String × Source := (r.name, r.source)

/-- The calls to the container format. -/
def calls (settings : Settings) (r : Registered) : List ContainerCall :=
  (r.patch.toList.map fun answer => .patch r.source settings answer) ++
    r.search.toList.map fun answer => .extract r.source settings.index containerBootPath answer

/-- Only a search that fails lets the registration fail. -/
def outcome (r : Registered) : Except Failure Unit :=
  match r.search with
  | some (.error cause) => .error (.read r.name cause)
  | _ => .ok ()

/-- The boot manager that was taken out of the file. -/
def taken? (r : Registered) : Option Source :=
  match r.search with
  | some (.ok inner) => inner
  | _ => none

/-- The entry of the file before anything is known about it. -/
def entry (r : Registered) : FileEntry := { name := r.name, source := r.source }

/-- The catalog with the file in it, and with its patch if one was asked for. -/
def patched (r : Registered) (c : Catalog) : Catalog :=
  match r.patch with
  | some answer => (c.put r.entry).catalog.patchAt (c.put r.entry).index answer
  | none => (c.put r.entry).catalog

/-- The catalog after the registration. -/
def change (settings : Settings) (r : Registered) (c : Catalog) : Catalog :=
  match roleOf r.name with
  | .bootManager => (c.put r.entry).claimed
  | .bootStore => (c.put r.entry).storePatched settings
  | .container =>
      match r.taken? with
      | some inner =>
          ((r.patched c).put { name := bootName, source := inner }).aimed .extracted
      | none => r.patched c
  | .plain => (c.put r.entry).catalog

/-- Containers are asked for a patch unless they are to be left as they are, and for a boot
manager as long as none is known; other files never. -/
structure IsAsked (settings : Settings) (known : Prop) (r : Registered) : Prop where
  patch_iff : r.patch.isSome = true ↔
    roleOf r.name = .container ∧ settings.rawContainers = false
  search_iff : r.search.isSome = true ↔ roleOf r.name = .container ∧ ¬ known

/-- Nothing is asked about a file of another role. -/
theorem isAsked_of_ne {name : String} (hrole : roleOf name ≠ .container) (settings : Settings)
    (known : Prop) (source : Source) : IsAsked settings known { name, source } :=
  ⟨by simp [hrole], by simp [hrole]⟩

/-- A boot manager comes out of a container, and only while none is known. -/
theorem IsAsked.of_taken {settings : Settings} {known : Prop} {r : Registered} {inner : Source}
    (hasked : r.IsAsked settings known) (htaken : r.taken? = some inner) :
    roleOf r.name = .container ∧ ¬ known := by
  have hsearch : r.search.isSome = true := by
    unfold taken? at htaken
    cases hsearch : r.search with
    | none => rw [hsearch] at htaken; cases htaken
    | some answer => rfl
  exact hasked.search_iff.mp hsearch

theorem IsAsked.taken?_eq_none {settings : Settings} {known : Prop} {r : Registered}
    (hasked : r.IsAsked settings known) (hrole : roleOf r.name ≠ .container) :
    r.taken? = none :=
  Option.eq_none_iff_forall_ne_some.mpr fun _ htaken => hrole (hasked.of_taken htaken).1

end Registered

namespace Catalog

open Files.Gathering Registered

theorem containerPatched_eq (container : Container σ) (settings : Settings) (c : Catalog)
    (name : String) (source : Source) (m : Machine σ) :
    ∃ (patch : Option (Option Patch)) (m' : Machine σ),
      (c.put { name, source }).containerPatched container settings source m =
        (patched { name, source, patch } c, m') ∧
      Calls container (calls settings { name, source, patch }) m m' ∧
      (patch.isSome = true ↔ settings.rawContainers = false) := by
  unfold Placed.containerPatched
  cases hraw : settings.rawContainers with
  | true => exact ⟨none, m, rfl, .nil (.refl m), by simp⟩
  | false =>
      rcases hpatch : container.patch source settings m with ⟨answer, m'⟩
      exact ⟨some answer, m', rfl, .patch (.refl m) hpatch (.nil (.refl m')), by simp⟩

theorem extractBoot_eq (container : Container σ) (settings : Settings) (c : Catalog)
    (name : String) (source : Source) (m : Machine σ) :
    ∃ (answer : Except ReadError (Option Source)) (m' : Machine σ),
      Calls container [.extract source settings.index containerBootPath answer] m m' ∧
      (extractBoot container settings name source).runFrom c m =
        ((outcome { name, source, search := some answer },
          match taken? { name, source, search := some answer } with
          | some inner => (c.put { name := bootName, source := inner }).aimed .extracted
          | none => c), m') := by
  rcases hextract : (container.extract source settings.index containerBootPath).runOn m with
    ⟨answer, m'⟩
  rcases answer with cause | _ | inner
  · exact ⟨.error cause, m', .extract (.refl m) hextract (.nil (.refl m')),
      extractBoot_of_error hextract⟩
  · exact ⟨.ok none, m', .extract (.refl m) hextract (.nil (.refl m')),
      extractBoot_of_none hextract⟩
  · obtain ⟨m'', hrun, hreported⟩ := extractBoot_of_some name c hextract
    exact ⟨.ok (some inner), m'', .extract (.refl m) hextract (.nil hreported), hrun⟩

theorem patched_boot (r : Registered) (c : Catalog) : (r.patched c).boot = c.boot := by
  unfold patched
  split
  · exact put_boot c r.entry
  · exact put_boot c r.entry

/-- A registration is known by the answers of the container format. -/
theorem register_eq (container : Container σ) (settings : Settings) (c : Catalog) (name : String)
    (source : Source) (m : Machine σ) :
    ∃ (r : Registered) (m' : Machine σ),
      r.file = (name, source) ∧
      (register container settings name source).runFrom c m =
        ((r.outcome, r.change settings c), m') ∧
      Calls container (r.calls settings) m m' ∧ r.IsAsked settings (c.boot ≠ none) := by
  -- A file of another role is registered with reports alone.
  have hquiet : roleOf name ≠ .container → ∀ {m' : Machine σ}, Reported m m' →
      (register container settings name source).runFrom c m =
        ((.ok (), change settings { name, source } c), m') →
      ∃ (r : Registered) (m' : Machine σ), r.file = (name, source) ∧
        (register container settings name source).runFrom c m =
          ((r.outcome, r.change settings c), m') ∧
        Calls container (r.calls settings) m m' ∧ r.IsAsked settings (c.boot ≠ none) :=
    fun hne m' hreported hrun =>
      ⟨{ name, source }, m', rfl, hrun, .nil hreported, isAsked_of_ne hne settings _ source⟩
  cases hrole : roleOf name with
  | bootManager =>
      obtain ⟨m', hrun, hreported⟩ := register_bootManager c m source container settings hrole
      refine hquiet (by rw [hrole]; decide) hreported (hrun.trans ?_)
      simp only [change, hrole]
      rfl
  | bootStore =>
      obtain ⟨m', hrun, hreported⟩ := register_bootStore c m source container settings hrole
      refine hquiet (by rw [hrole]; decide) hreported (hrun.trans ?_)
      simp only [change, hrole]
      rfl
  | plain =>
      obtain ⟨m', hrun, hreported⟩ := register_plain c m source container settings hrole
      refine hquiet (by rw [hrole]; decide) hreported (hrun.trans ?_)
      simp only [change, hrole]
      rfl
  | container =>
      obtain ⟨m₁, hreported, hrun⟩ := register_container c m source container settings hrole
      obtain ⟨patch, m₂, hpatched, hcalls, hasked⟩ :=
        containerPatched_eq container settings c name source m₁
      have hrun := hrun hpatched
      rw [patched_boot] at hrun
      cases hboot : c.boot with
      | some p =>
          refine ⟨{ name, source, patch }, m₂, rfl, ?_, hcalls.of_reported hreported, ?_, ?_⟩
          · rw [hrun, hboot]
            simp only [change, hrole]
            rfl
          · simp [hrole, hasked]
          · simp
      | none =>
          obtain ⟨answer, m₃, hcall, hextract⟩ := extractBoot_eq container settings
            (patched { name, source, patch } c) name source m₂
          refine ⟨{ name, source, patch, search := some answer }, m₃, rfl, ?_, ?_, ?_, ?_⟩
          · rw [hrun, hboot]
            simp only [change, hrole]
            exact hextract
          · have hboth := (hcalls.of_reported hreported).append hcall
            rw [calls, Option.toList_none, List.map_nil, List.append_nil] at hboth
            exact hboth
          · simp [hrole, hasked]
          · simp [hrole]

end Catalog

end BootVolume.Files
