import BootVolume.Proofs.Content.Serves
import BootVolume.Proofs.Files.Catalog
import BootVolume.Proofs.Files.Gathering

/-!
# Catalogs that read alike

Two files are alike if they have the same name, the same length and a patch or
none together, and if every read inside them has the same outcome, each in good
machines of its own (`FileEntry.Alike.read`).  Two catalogs are alike if their
files are, one by one, and the boot target stands at the same place.  Changing
both in the same way keeps them alike.
-/

namespace BootVolume

variable {σ : Type}

/-! ## Sources, patches and files -/

/-- Every exact read inside the two sources has the same outcome. -/
structure Source.Alike (storage : Storage σ) (good : Machine σ → Prop)
    (source source' : Source) : Prop where
  length_eq : source.length = source'.length
  read : ∀ {m m' : Machine σ} {offset count : Nat}, good m → good m' →
    offset + count ≤ source.length → ∃ outcome m₁ m₁',
      (source.readExact storage offset count).runOn m = (outcome, m₁) ∧
      (source'.readExact storage offset count).runOn m' = (outcome, m₁') ∧ good m₁ ∧ good m₁'

/-- Sources that serve the same content are alike. -/
theorem Honest.alike {storage : Storage σ} {good : Machine σ → Prop} {source source' : Source}
    {content : Bytes} (honest : Honest storage good source content)
    (honest' : Honest storage good source' content) :
    Source.Alike storage good source source' where
  length_eq := honest.length_eq.symm.trans honest'.length_eq
  read := by
    intro m m' offset count hm hm' hrange
    rw [← honest.length_eq] at hrange
    obtain ⟨m₁, hread, hm₁⟩ := honest.readExact_inside hrange hm
    obtain ⟨m₁', hread', hm₁'⟩ := honest'.readExact_inside hrange hm'
    exact ⟨_, m₁, m₁', hread, hread', hm₁, hm₁'⟩

namespace Files

variable {storage : Storage σ} {good : Machine σ → Prop}

/-- The two patches turn the same bytes into the same bytes. -/
def Patch.Alike (storage : Storage σ) (good : Machine σ → Prop) (patch patch' : Patch) : Prop :=
  ∀ ⦃m m' : Machine σ⦄ (offset : Nat) (data : Bytes), good m → good m' → ∃ out m₁ m₁',
    patch.apply storage offset data m = (out, m₁) ∧
    patch'.apply storage offset data m' = (out, m₁') ∧ good m₁ ∧ good m₁'

/-- The two files have the same name and read alike. -/
structure FileEntry.Alike (storage : Storage σ) (good : Machine σ → Prop)
    (file file' : FileEntry) : Prop where
  name_eq : file.name = file'.name
  source : Source.Alike storage good file.source file'.source
  patch : Option.Rel (Patch.Alike storage good) file.patch file'.patch

theorem FileEntry.Alike.length_eq {file file' : FileEntry}
    (alike : FileEntry.Alike storage good file file') : file.length = file'.length :=
  alike.source.length_eq

theorem FileEntry.Alike.isSome_patch {file file' : FileEntry}
    (alike : FileEntry.Alike storage good file file') :
    file.patch.isSome = file'.patch.isSome := by
  have hpatch := alike.patch
  generalize file.patch = patch at hpatch
  generalize file'.patch = patch' at hpatch
  cases hpatch <;> rfl

/-- Every read inside the two files has the same outcome. -/
theorem FileEntry.Alike.read {file file' : FileEntry}
    (alike : FileEntry.Alike storage good file file') {m m' : Machine σ} (hm : good m)
    (hm' : good m') {offset count : Nat} (hrange : offset + count ≤ file.length) :
    ∃ outcome m₁ m₁', (file.read storage offset count).runOn m = (outcome, m₁) ∧
      (file'.read storage offset count).runOn m' = (outcome, m₁') ∧ good m₁ ∧ good m₁' := by
  obtain ⟨outcome, m₁, m₁', hread, hread', hm₁, hm₁'⟩ := alike.source.read hm hm' hrange
  unfold FileEntry.read
  cases outcome with
  | error cause =>
      exact ⟨_, m₁, m₁', Action.runOn_bind_error hread _, Action.runOn_bind_error hread' _,
        hm₁, hm₁'⟩
  | ok data =>
      rw [Action.runOn_bind_ok hread, Action.runOn_bind_ok hread']
      have hpatches := alike.patch
      generalize file.patch = patch at hpatches
      generalize file'.patch = patch' at hpatches
      cases hpatches with
      | none => exact ⟨_, m₁, m₁', rfl, rfl, hm₁, hm₁'⟩
      | some hpatched =>
          obtain ⟨out, m₂, m₂', happly, happly', hm₂, hm₂'⟩ := hpatched offset data hm₁ hm₁'
          refine ⟨.ok out, m₂, m₂', ?_, ?_, hm₂, hm₂'⟩
          · simp only [Action.runOn_lift, happly]
          · simp only [Action.runOn_lift, happly']

/-- The patch of the boot configuration store reports and does nothing else to the machine. -/
theorem Patch.keeps_bootStore (storage : Storage σ) (hgood : KeptByReports good) (offset : Nat)
    (data : Bytes) {m : Machine σ} (hm : good m) :
    good (Patch.apply storage offset data .bootStore m).2 := by
  show good ((BootStore.patch data).2.forM (m := Step σ) _ m).2
  generalize (BootStore.patch data).2 = hits
  induction hits generalizing m with
  | nil => exact hm
  | cons hit rest ih => exact ih (hgood m _ _ hm)

/-- The patch of the boot configuration store looks at nothing but the bytes. -/
theorem bootStore_alike (hgood : KeptByReports good) :
    Patch.Alike storage good .bootStore .bootStore := fun _ _ offset data hm hm' =>
  ⟨(BootStore.patch data).1, _, _, rfl, rfl, Patch.keeps_bootStore storage hgood offset data hm,
    Patch.keeps_bootStore storage hgood offset data hm'⟩

/-! ## Catalogs -/

section Lists

variable {α : Type} {R : α → α → Prop} {l l' : List α}

theorem forall₂_set (h : List.Forall₂ R l l') {a a' : α} (ha : R a a') (i : Nat) :
    List.Forall₂ R (l.set i a) (l'.set i a') := by
  induction h generalizing i with
  | nil => exact .nil
  | cons hhead htail ih =>
      cases i with
      | zero => exact .cons ha htail
      | succ i => exact .cons hhead (ih i)

theorem forall₂_modify (h : List.Forall₂ R l l') {f f' : α → α}
    (hf : ∀ a a', R a a' → R (f a) (f' a')) (i : Nat) :
    List.Forall₂ R (l.modify i f) (l'.modify i f') := by
  induction h generalizing i with
  | nil =>
      rw [List.modify_nil, List.modify_nil]
      exact .nil
  | cons hhead htail ih =>
      cases i with
      | zero => exact .cons (hf _ _ hhead) htail
      | succ i => exact .cons hhead (ih i)

end Lists

/-- The two catalogs have like files at the same places and the same boot target. -/
structure Catalog.Alike (storage : Storage σ) (good : Machine σ → Prop) (c c' : Catalog) :
    Prop where
  files : List.Forall₂ (FileEntry.Alike storage good) c.files c'.files
  boot : c.boot = c'.boot

namespace Catalog.Alike

variable {c c' : Catalog} {file file' : FileEntry}

theorem empty : Catalog.Alike storage good Catalog.empty Catalog.empty := ⟨.nil, rfl⟩

theorem length_eq (h : Catalog.Alike storage good c c') : c.files.length = c'.files.length :=
  h.files.length_eq

theorem getElem? (h : Catalog.Alike storage good c c') {i : Nat} (hfile : c.files[i]? = some file)
    (hfile' : c'.files[i]? = some file') : FileEntry.Alike storage good file file' := by
  obtain ⟨hlt, rfl⟩ := List.getElem?_eq_some_iff.mp hfile
  obtain ⟨hlt', rfl⟩ := List.getElem?_eq_some_iff.mp hfile'
  exact h.files.get hlt hlt'

/-- The files have the same names and lengths, and patches at the same places. -/
theorem map_eq (h : Catalog.Alike storage good c c') :
    c.files.map (fun file => (file.name, file.length, file.patch.isSome)) =
      c'.files.map (fun file => (file.name, file.length, file.patch.isSome)) := by
  have hfiles := h.files
  generalize c.files = files at hfiles
  generalize c'.files = files' at hfiles
  induction hfiles with
  | nil => rfl
  | cons hfile _ ih => rw [List.map_cons, List.map_cons, hfile.name_eq, hfile.length_eq,
      hfile.isSome_patch, ih]

theorem position?_eq (h : Catalog.Alike storage good c c') (name : String) :
    c.position? name = c'.position? name := by
  have hfiles := h.files
  unfold position?
  generalize c.files = files at hfiles
  generalize c'.files = files' at hfiles
  induction hfiles with
  | nil => rfl
  | cons hhead _ ih => rw [List.findIdx?_cons, List.findIdx?_cons, hhead.name_eq, ih]

/-- Like files are put at the same place. -/
theorem put (h : Catalog.Alike storage good c c')
    (hfile : FileEntry.Alike storage good file file') :
    Catalog.Alike storage good (c.put file).catalog (c'.put file').catalog ∧
      (c.put file).index = (c'.put file').index := by
  have hposition : c'.position? file'.name = c.position? file.name := by
    rw [← hfile.name_eq, h.position?_eq]
  cases hknown : c.position? file.name with
  | none =>
      rw [hknown] at hposition
      rw [(put_of_new hknown).1, (put_of_new hknown).2, (put_of_new hposition).1,
        (put_of_new hposition).2]
      exact ⟨⟨List.rel_append h.files (.cons hfile .nil), h.boot⟩, h.length_eq⟩
  | some index =>
      rw [hknown] at hposition
      rw [(put_of_known hknown).1, (put_of_known hknown).2, (put_of_known hposition).1,
        (put_of_known hposition).2]
      exact ⟨⟨forall₂_set h.files hfile index, h.boot⟩, rfl⟩

theorem patchAt (h : Catalog.Alike storage good c c') (index : Nat) {patch patch' : Option Patch}
    (hpatch : Option.Rel (Patch.Alike storage good) patch patch') :
    Catalog.Alike storage good (c.patchAt index patch) (c'.patchAt index patch') := by
  refine ⟨forall₂_modify h.files (fun file file' hfile => ?_) index, h.boot⟩
  exact ⟨hfile.name_eq, hfile.source, hpatch⟩

theorem aimed {placed placed' : Placed}
    (h : Catalog.Alike storage good placed.catalog placed'.catalog)
    (hindex : placed.index = placed'.index) (origin : BootOrigin) :
    Catalog.Alike storage good (placed.aimed origin) (placed'.aimed origin) :=
  ⟨h.files, congrArg (fun index => some (index, origin)) hindex⟩

theorem claimed {placed placed' : Placed}
    (h : Catalog.Alike storage good placed.catalog placed'.catalog)
    (hindex : placed.index = placed'.index) :
    Catalog.Alike storage good placed.claimed placed'.claimed := by
  unfold Placed.claimed
  rw [← h.boot]
  rcases placed.catalog.boot with _ | ⟨index, _ | _⟩
  · exact h.aimed hindex _
  · exact h
  · exact h.aimed hindex _

end Catalog.Alike

end Files

end BootVolume
