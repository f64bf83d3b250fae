import Mathlib
import BootVolume.Proofs.Fat.Table

/-!
# Writing a table down

The entries of a table are computed when they are read.  What they stand for is a
loop: over a list of zeros, after the two reserved entries, the chains are written
one behind the other, cluster by cluster (`Table.stored?`).  A cluster behind the
end of the list has no place in it, and then there is no table.

`Table.stored?_eq_some_iff` says when there is one, and that it consists of the
computed entries.  Chains that abut, up to the number of entries, have one.
-/

namespace BootVolume.Fat

/-- Put an entry at its place, if the list is long enough. -/
def put? (entries : List UInt32) (n : Nat) (entry : UInt32) : Option (List UInt32) :=
  if n < entries.length then some (entries.set n entry) else none

/-- Write the entries of a chain. -/
def Chain.write? (c : Chain) (entries : List UInt32) : Option (List UInt32) :=
  (List.range' c.first.toNat (c.bound.toNat - c.first.toNat)).foldlM
    (fun entries n => put? entries n (c.entry n)) entries

/-- A table with the two reserved entries alone. -/
def blank? (size : Nat) : Option (List UInt32) := do
  let entries ← put? (List.replicate size 0) 0 mediaMark
  put? entries 1 endMark

/-- Write down a table. -/
def Table.stored? (t : Table) : Option Bytes := do
  let entries ← blank? t.entries
  let entries ← t.chains.foldlM (fun entries c => c.write? entries) entries
  return entries.flatMap Bytes.le32

/-- Every entry that is written has a place in the table. -/
structure Table.Fits (t : Table) : Prop where
  reserved : 2 ≤ t.entries
  chains : ∀ c ∈ t.chains, ∀ n, c.writes n = true → n < t.entries

/-! ## Loops of writes -/

section

variable {size n : Nat} {f : Nat → UInt32} {entries : List UInt32}

/-- A loop of writes succeeds if each of them does, and each entry passes through all of them. -/
theorem foldlM_eq_some_iff {α : Type} {write : List UInt32 → α → Option (List UInt32)}
    (fits : α → Prop) (change : α → Nat → UInt32 → UInt32)
    (hwrite : ∀ x f entries, write ((List.range size).map f) x = some entries ↔
      fits x ∧ entries = (List.range size).map fun n => change x n (f n)) (xs : List α) :
    xs.foldlM write ((List.range size).map f) = some entries ↔
      (∀ x ∈ xs, fits x) ∧
        entries = (List.range size).map fun n =>
          xs.foldl (fun before x => change x n before) (f n) := by
  -- `f` gives the entries that the loop has come to, so it changes with each write.
  induction xs generalizing f with
  | nil => simp [eq_comm]
  | cons x rest ih =>
      rw [List.foldlM_cons, List.forall_mem_cons, Option.bind_eq_bind, Option.bind_eq_some_iff]
      constructor
      · rintro ⟨between, hx, hrest⟩
        obtain ⟨hfits, rfl⟩ := (hwrite x f between).mp hx
        obtain ⟨hall, rfl⟩ := ih.mp hrest
        exact ⟨⟨hfits, hall⟩, rfl⟩
      · rintro ⟨⟨hfits, hall⟩, rfl⟩
        exact ⟨_, (hwrite x f _).mpr ⟨hfits, rfl⟩, ih.mpr ⟨hall, rfl⟩⟩

theorem put?_eq_some_iff {entry : UInt32} :
    put? ((List.range size).map f) n entry = some entries ↔
      n < size ∧ entries = (List.range size).map fun m => if m = n then entry else f m := by
  have hset : ((List.range size).map f).set n entry =
      (List.range size).map fun m => if m = n then entry else f m := by
    refine List.ext_getElem (by simp) fun i hi hi' => ?_
    simp [List.getElem_set, eq_comm]
  rw [put?, List.length_map, List.length_range, hset]
  by_cases hn : n < size
  · rw [if_pos hn, Option.some_inj, eq_comm]
    exact (and_iff_right hn).symm
  · simp [hn]

/-- A cluster that is written more than once is given the same entry each time. -/
theorem foldl_put (value : Nat → UInt32) (places : List Nat) (before : UInt32) :
    places.foldl (fun before place => if n = place then value place else before) before =
      if n ∈ places then value n else before := by
  induction places generalizing before with
  | nil => simp
  | cons place rest ih =>
      rw [List.foldl_cons, ih]
      by_cases hrest : n ∈ rest
      · simp [hrest]
      · by_cases hplace : n = place
        · simp [hplace]
        · simp [hrest, hplace]

theorem Chain.write?_eq_some_iff {c : Chain} :
    c.write? ((List.range size).map f) = some entries ↔
      (∀ n, c.writes n = true → n < size) ∧
        entries = (List.range size).map fun n => c.overwrite n (f n) := by
  have hplaces : ∀ n, n ∈ List.range' c.first.toNat (c.bound.toNat - c.first.toNat) ↔
      c.writes n = true := by
    intro n
    simp only [List.mem_range'_1, writes, Bool.and_eq_true, decide_eq_true_eq]
    omega
  rw [write?, foldlM_eq_some_iff (· < size)
    (fun place n before => if n = place then c.entry place else before)
    fun place f entries => put?_eq_some_iff]
  simp only [foldl_put, hplaces, overwrite]

theorem blank?_eq_some_iff :
    blank? size = some entries ↔ 2 ≤ size ∧ entries = (List.range size).map Table.reserved := by
  have hzeros : List.replicate size 0 = (List.range size).map fun _ => (0 : UInt32) := by
    rw [List.map_const', List.length_range]
  have hmarks : (fun n => if n = 1 then endMark else if n = 0 then mediaMark else 0) =
      Table.reserved := by
    funext n
    rcases n with _ | _ | n <;> rfl
  rw [blank?, hzeros, Option.bind_eq_bind, Option.bind_eq_some_iff]
  constructor
  · rintro ⟨first, hfirst, hsecond⟩
    obtain ⟨-, rfl⟩ := put?_eq_some_iff.mp hfirst
    obtain ⟨hsize, rfl⟩ := put?_eq_some_iff.mp hsecond
    exact ⟨hsize, by rw [hmarks]⟩
  · rintro ⟨hsize, rfl⟩
    refine ⟨_, put?_eq_some_iff.mpr ⟨by omega, rfl⟩, put?_eq_some_iff.mpr ⟨hsize, ?_⟩⟩
    rw [hmarks]

end

/-! ## The stored table -/

namespace Table

variable {t : Table}

/-- A table can be written down if all its entries have places, and what is written are the
entries that are computed. -/
theorem stored?_eq_some_iff {data : Bytes} : t.stored? = some data ↔ t.Fits ∧ data = t.bytes := by
  have hchains : ∀ entries, t.chains.foldlM (fun entries c => c.write? entries)
      ((List.range t.entries).map reserved) = some entries ↔
        (∀ c ∈ t.chains, ∀ n, c.writes n = true → n < t.entries) ∧
          entries = (List.range t.entries).map t.entry := fun entries =>
    foldlM_eq_some_iff (fun c => ∀ n, c.writes n = true → n < t.entries) Chain.overwrite
      (fun c f entries => Chain.write?_eq_some_iff) t.chains
  rw [stored?, Option.bind_eq_bind, Option.bind_eq_some_iff]
  constructor
  · rintro ⟨blank, hblank, hrest⟩
    obtain ⟨hsize, rfl⟩ := blank?_eq_some_iff.mp hblank
    obtain ⟨entries, hentries, hdata⟩ := Option.bind_eq_some_iff.mp hrest
    obtain ⟨hfits, rfl⟩ := (hchains entries).mp hentries
    rw [← Option.some.inj hdata, List.flatMap_map]
    exact ⟨⟨hsize, hfits⟩, rfl⟩
  · rintro ⟨fits, rfl⟩
    refine ⟨_, blank?_eq_some_iff.mpr ⟨fits.reserved, rfl⟩, ?_⟩
    refine Option.bind_eq_some_iff.mpr ⟨_, (hchains _).mpr ⟨fits.chains, rfl⟩, ?_⟩
    exact congrArg some (List.flatMap_map ..)

theorem fits_of_abut (abut : Abut 2 t.chains t.entries) : t.Fits where
  reserved := abut.start_le_stop
  chains c hc n hn := by
    have hbounds := abut.bounds hc
    have hcovers := Chain.covers_iff.mp (Chain.covers_of_writes hn)
    omega

/-- The table of abutting chains can be written down. -/
theorem stored?_of_abut (abut : Abut 2 t.chains t.entries) : t.stored? = some t.bytes :=
  stored?_eq_some_iff.mpr ⟨fits_of_abut abut, rfl⟩

end Table

end BootVolume.Fat
