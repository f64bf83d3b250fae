import BootVolume.Proofs.Uefi.Pool

/-!
# Users of the heap

Over a lawful pool, memory is allocated, written to and given back in any order.
A lease is what the heap keeps no record of: a block that was given out and is
not yet given back.  The invariant `Sound` says that each lease lies in the one
region that was obtained for it, that where this region starts can still be
found, and that these regions are all that the pool has given out.  Every step
keeps it, and does the right thing (`Step.sound`).
-/

namespace BootVolume.Uefi.Heap

open Rehearsal (Memory)

variable {σ : Type}

/-! ## Leases -/

/-- A block that was given out, with its layout and the calls that it took. -/
structure Lease where
  layout : Layout
  address : Address
  calls : List Call
  deriving DecidableEq, Repr

namespace Lease

variable (lease : Lease)

/-- The places of the block. -/
def block : Set Nat := span lease.address lease.layout.size.toNat

/-- The places of the block and of the word below it, if there is one. -/
def extent : Set Nat := lease.block ∪ lease.layout.stash lease.address

/-- The regions that were obtained for the block. -/
def regions : List Region := lease.calls.filterMap Call.obtained

/-- The block is where it should be: one region was asked for and obtained, and the block and
the word below it are apart in there. -/
structure LiesIn (region : Region) : Prop where
  calls_eq : lease.calls = [.allocate memoryKind region.size (some region.start)]
  address_ne : lease.address ≠ null
  aligned : lease.layout.alignment.toNat ∣ lease.address.toNat
  extent_subset : lease.extent ⊆ region.bytes
  disjoint : Disjoint lease.block (lease.layout.stash lease.address)

/-- The block is where it should be, and memory tells where its region starts. -/
def Sited (pool : Pool σ) (world : σ) : Prop :=
  ∃ region, lease.LiesIn region ∧
    origin pool lease.layout lease.address world = region.start

end Lease

/-- The regions of all leases. -/
def regionsOf (live : List Lease) : List Region := live.flatMap Lease.regions

/-! ## Steps and runs -/

/-- What a user of the heap did. -/
inductive Deed where
  | took (lease : Lease)
  | refused (layout : Layout) (calls : List Call)
  | gaveBack (lease : Lease) (calls : List Call)
  | wrote
  deriving DecidableEq, Repr

namespace Deed

/-- The calls of the pool that the heap made on the way. -/
def calls : Deed → List Call
  | .took lease => lease.calls
  | .refused _ calls => calls
  | .gaveBack _ calls => calls
  | .wrote => []

/-- What was done is right: a block lies in its region, memory is refused just because the pool
refuses it, and a block is given back by one call with the address that the pool gave. -/
def Right : Deed → Prop
  | .took lease => ∃ region, lease.LiesIn region
  | .refused layout calls => calls = [.allocate memoryKind layout.request none]
  | .gaveBack lease calls => ∃ region, lease.LiesIn region ∧ calls = [.free region.start]
  | .wrote => True

end Deed

/-- The world with the leases in it. -/
structure Tenancy (σ : Type) where
  world : σ
  live : List Lease
  deriving DecidableEq, Repr

/-- Writes to blocks: no region is given out or back, and a word that is apart from all blocks
stays what it was. -/
structure Writes (pool : Pool σ) (Holds : List Region → σ → Prop) (live : List Lease)
    (before after : σ) : Prop where
  holds : Holds (regionsOf live) before → Holds (regionsOf live) after
  load : ∀ address, (∀ lease ∈ live, Disjoint (word address) lease.block) →
    pool.load address after = pool.load address before

section

variable (pool : Pool σ) (Holds : List Region → σ → Prop)

/-- One step of a user, with the calls that the heap makes from the empty log on. -/
inductive Step : Tenancy σ → Deed → Tenancy σ → Prop
  | took {s layout address world calls} :
      allocate (some pool.logged) layout (s.world, []) = (address, world, calls) →
      address ≠ null →
      Step s (.took { layout, address, calls })
        { world, live := { layout, address, calls } :: s.live }
  | refused {s layout world calls} :
      allocate (some pool.logged) layout (s.world, []) = (null, world, calls) →
      Step s (.refused layout calls) { s with world }
  | gaveBack {s lease world calls} :
      lease ∈ s.live →
      release (some pool.logged) lease.address lease.layout (s.world, []) = (world, calls) →
      Step s (.gaveBack lease calls) { world, live := s.live.erase lease }
  | wrote {s world} :
      Writes pool Holds s.live s.world world →
      Step s .wrote { s with world }

/-- Steps one after the other. -/
inductive Run : Tenancy σ → List Deed → Tenancy σ → Prop
  | refl {s} : Run s [] s
  | step {s t u deeds deed} : Run s deeds t → Step pool Holds t deed u →
      Run s (deeds ++ [deed]) u

/-- Between the steps: the regions of the leases are what the pool has given out, and each
lease lies in a region whose start is known. -/
structure Sound (s : Tenancy σ) : Prop where
  holds : Holds (regionsOf s.live) s.world
  sited : ∀ lease ∈ s.live, lease.Sited pool s.world

end

variable {pool : Pool σ} {Holds : List Region → σ → Prop}

/-! ## The log -/

section Logged

variable {layout : Layout} {world after : σ} {base address : Address} {log : List Call}

theorem note_logged :
    note pool.logged layout address base (world, log) =
      (note pool layout address base world, log) := by
  unfold note
  split <;> rfl

theorem origin_logged :
    origin pool.logged layout address (world, log) =
      origin pool layout address world := rfl

theorem allocate_logged_ok
    (h : pool.allocate memoryKind layout.request world = (.ok base, after)) :
    allocate (some pool.logged) layout (world, log) =
      (layout.site base, note pool layout (layout.site base) base after,
        log ++ [.allocate memoryKind layout.request (some base)]) := by
  have hlogged : pool.logged.allocate memoryKind layout.request (world, log) =
      (.ok base, after, log ++ [.allocate memoryKind layout.request (some base)]) := by
    simp only [Pool.logged, h]
    rfl
  rw [allocate_ok hlogged, note_logged]

theorem allocate_logged_error {status : Status}
    (h : pool.allocate memoryKind layout.request world = (.error status, after)) :
    allocate (some pool.logged) layout (world, log) =
      (null, after, log ++ [.allocate memoryKind layout.request none]) := by
  have hlogged : pool.logged.allocate memoryKind layout.request (world, log) =
      (.error status, after, log ++ [.allocate memoryKind layout.request none]) := by
    simp only [Pool.logged, h]
    rfl
  exact allocate_error hlogged

theorem release_logged (h : address ≠ null) :
    release (some pool.logged) address layout (world, log) =
      (pool.free (origin pool layout address world) world,
        log ++ [.free (origin pool layout address world)]) := by
  rw [release_eq h, origin_logged]
  rfl

/-- The log only watches the allocations. -/
theorem allocate_logged :
    (allocate (some pool.logged) layout (world, log)).map id Prod.fst =
      allocate (some pool) layout world := by
  rcases h : pool.allocate memoryKind layout.request world with ⟨status | base, after⟩
  · rw [allocate_logged_error h, allocate_error h]
    rfl
  · rw [allocate_logged_ok h, allocate_ok h]
    rfl

/-- The log only watches what is given back. -/
theorem fst_release_logged :
    (release (some pool.logged) address layout (world, log)).1 =
      release (some pool) address layout world := by
  by_cases h : address = null
  · rw [release, if_pos h, release, if_pos h]
  · rw [release_logged h, release_eq h]

end Logged

/-! ## What a lease relies on -/

namespace Lease

variable {lease : Lease} {region : Region} {world after : σ}

theorem LiesIn.regions_eq (h : lease.LiesIn region) : lease.regions = [region] := by
  rw [regions, h.calls_eq]
  rfl

theorem LiesIn.mem_regionsOf (h : lease.LiesIn region) {live : List Lease} (hlease : lease ∈ live) :
    region ∈ regionsOf live := by
  refine List.mem_flatMap.mpr ⟨lease, hlease, ?_⟩
  rw [h.regions_eq]
  exact List.mem_singleton_self region

/-- The word below the block is in the region of the lease. -/
theorem LiesIn.word_subset (h : lease.LiesIn region) (hplain : ¬ lease.layout.IsPlain) :
    word (lease.address - wordSize) ⊆ region.bytes := by
  have hstash := Set.subset_union_right.trans h.extent_subset
  rwa [Layout.stash, if_neg hplain] at hstash

/-- The word below the block is not in the block. -/
theorem LiesIn.disjoint_word (h : lease.LiesIn region) (hplain : ¬ lease.layout.IsPlain) :
    Disjoint (word (lease.address - wordSize)) lease.block := by
  have hdisjoint := h.disjoint.symm
  rwa [Layout.stash, if_neg hplain] at hdisjoint

/-- A lease stays sited as long as the word below the block stays what it was. -/
theorem Sited.of_load (h : lease.Sited pool world)
    (hload : ∀ region, lease.LiesIn region → ¬ lease.layout.IsPlain →
      pool.load (lease.address - wordSize) after =
        pool.load (lease.address - wordSize) world) :
    lease.Sited pool after := by
  obtain ⟨region, hlies, horigin⟩ := h
  refine ⟨region, hlies, horigin ▸ ?_⟩
  unfold origin
  by_cases hplain : lease.layout.IsPlain
  · rw [if_pos hplain, if_pos hplain]
  · rw [if_neg hplain, if_neg hplain]
    exact hload region hlies hplain

/-- A block is placed right in a region that was obtained for its layout. -/
theorem liesIn_of_isProper {layout : Layout} {base : Address}
    (h : (Region.mk base layout.request).IsProper) :
    Lease.LiesIn ⟨layout, layout.site base,
      [.allocate memoryKind layout.request (some base)]⟩ ⟨base, layout.request⟩ where
  calls_eq := rfl
  address_ne := Layout.site_ne_null h
  aligned := Layout.dvd_site h
  extent_subset := Set.union_subset (Layout.span_site_subset h) (Layout.stash_subset h)
  disjoint := Layout.disjoint_stash h

end Lease

/-! ## Every step keeps the invariant -/

namespace Sound

variable {s : Tenancy σ} {world : σ}

theorem nil (hworld : Holds [] world) : Sound pool Holds { world, live := [] } :=
  ⟨hworld, fun _ hlease => absurd hlease List.not_mem_nil⟩

/-- A request leaves the leases where they are, whatever the answer to it. -/
theorem sited_of_allocate (lawful : pool.Lawful Holds) (hs : Sound pool Holds s) {kind : Nat}
    {size : UInt64} {answer : Except Status Address}
    (h : pool.allocate kind size s.world = (answer, world)) :
    ∀ lease ∈ s.live, lease.Sited pool world := by
  intro lease hlease
  refine (hs.sited lease hlease).of_load fun region hlies hplain => ?_
  exact lawful.load_allocate hs.holds h (hlies.mem_regionsOf hlease) (hlies.word_subset hplain)

theorem refused (lawful : pool.Lawful Holds) (hs : Sound pool Holds s) {kind : Nat} {size : UInt64}
    {status : Status} (h : pool.allocate kind size s.world = (.error status, world)) :
    Sound pool Holds { s with world } := by
  have hsited := hs.sited_of_allocate lawful h
  exact ⟨lawful.refused hs.holds h, hsited⟩

/-- To note where a region starts inside the region itself leaves the other regions alone, and
the note is found. -/
theorem took (lawful : pool.Lawful Holds) (hs : Sound pool Holds s) {layout : Layout}
    {base : Address}
    (h : pool.allocate memoryKind layout.request s.world = (.ok base, world)) :
    Sound pool Holds
      { world := note pool layout (layout.site base) base world
        live := ⟨layout, layout.site base,
          [.allocate memoryKind layout.request (some base)]⟩ :: s.live } := by
  have hgranted := lawful.granted hs.holds h
  have hlies := Lease.liesIn_of_isProper (lawful.proper hgranted _ List.mem_cons_self)
  have hkept := hs.sited_of_allocate lawful h
  by_cases hplain : layout.IsPlain
  · have hnote : note pool layout (layout.site base) base world = world := if_pos hplain
    rw [hnote]
    refine ⟨hgranted, List.forall_mem_cons.mpr ⟨⟨_, hlies, ?_⟩, hkept⟩⟩
    simp only [origin, Layout.site, if_pos hplain]
  · have hnote : note pool layout (layout.site base) base world =
        pool.store (layout.site base - wordSize) base world := if_neg hplain
    have hword := hlies.word_subset hplain
    rw [hnote]
    refine ⟨lawful.stored base hgranted List.mem_cons_self hword,
      List.forall_mem_cons.mpr ⟨⟨_, hlies, ?_⟩, fun lease hlease => ?_⟩⟩
    · rw [origin, if_neg hplain]
      exact lawful.load_store base hgranted List.mem_cons_self hword
    · refine (hkept lease hlease).of_load fun region hregion hstrict => ?_
      have hapart := (List.pairwise_cons.mp (lawful.apart hgranted)).1 region
        (hregion.mem_regionsOf hlease)
      exact lawful.load_store_of_disjoint base hgranted List.mem_cons_self hword
        (hapart.mono hword (hregion.word_subset hstrict)).symm

/-- The regions are those of one lease and of the others. -/
theorem perm_erase {lease : Lease} {region : Region} {live : List Lease} (hlease : lease ∈ live)
    (hlies : lease.LiesIn region) :
    (regionsOf live).Perm (region :: regionsOf (live.erase lease)) := by
  have hperm := (List.perm_cons_erase hlease).flatMap_right Lease.regions
  rwa [List.flatMap_cons, hlies.regions_eq] at hperm

theorem gaveBack (lawful : pool.Lawful Holds) (hs : Sound pool Holds s) {lease : Lease}
    {region : Region} (hlease : lease ∈ s.live) (hlies : lease.LiesIn region) :
    Sound pool Holds
      { world := pool.free region.start s.world, live := s.live.erase lease } := by
  have hholds := lawful.perm (perm_erase hlease hlies) hs.holds
  refine ⟨lawful.freed hholds, fun other hother => ?_⟩
  refine (hs.sited other (List.mem_of_mem_erase hother)).of_load fun place hplace hplain => ?_
  exact lawful.load_free hholds (hplace.mem_regionsOf hother) (hplace.word_subset hplain)

/-- Blocks with the words below them are apart because their regions are. -/
theorem extents_apart (lawful : pool.Lawful Holds) (hs : Sound pool Holds s) :
    s.live.Pairwise fun first second => Disjoint first.extent second.extent := by
  have hregions := (List.pairwise_flatMap.mp (lawful.apart hs.holds)).2
  refine hregions.imp_of_mem fun {first second} hfirst hsecond hapart => ?_
  obtain ⟨region, hlies, -⟩ := hs.sited first hfirst
  obtain ⟨other, hother, -⟩ := hs.sited second hsecond
  have hdisjoint : Disjoint region.bytes other.bytes :=
    hapart region (hlies.regions_eq ▸ List.mem_singleton_self region) other
      (hother.regions_eq ▸ List.mem_singleton_self other)
  exact hdisjoint.mono hlies.extent_subset hother.extent_subset

/-- No block has the word below a block in it. -/
theorem disjoint_word (lawful : pool.Lawful Holds) (hs : Sound pool Holds s) {lease other : Lease}
    {region : Region} (hlease : lease ∈ s.live) (hlies : lease.LiesIn region)
    (hplain : ¬ lease.layout.IsPlain) (hother : other ∈ s.live) :
    Disjoint (word (lease.address - wordSize)) other.block := by
  by_cases heq : lease = other
  · exact heq ▸ hlies.disjoint_word hplain
  · have hsymm : Std.Symm fun first second : Lease => Disjoint first.extent second.extent :=
      ⟨fun _ _ hdisjoint => hdisjoint.symm⟩
    have hapart : Disjoint lease.extent other.extent :=
      (hs.extents_apart lawful).forall hlease hother heq
    have hword : word (lease.address - wordSize) ⊆ lease.extent := by
      rw [Lease.extent, Layout.stash, if_neg hplain]
      exact Set.subset_union_right
    exact hapart.mono hword Set.subset_union_left

theorem wrote (lawful : pool.Lawful Holds) (hs : Sound pool Holds s)
    (h : Writes pool Holds s.live s.world world) : Sound pool Holds { s with world } := by
  refine ⟨h.holds hs.holds, fun lease hlease => ?_⟩
  refine (hs.sited lease hlease).of_load fun region hlies hplain => ?_
  exact h.load _ fun other hother => hs.disjoint_word lawful hlease hlies hplain hother

/-- To keep a word inside a block is to write to blocks. -/
theorem writes_store (lawful : pool.Lawful Holds) (hs : Sound pool Holds s) {lease : Lease}
    (hlease : lease ∈ s.live) {address : Address} (hword : word address ⊆ lease.block)
    (value : UInt64) :
    Writes pool Holds s.live s.world (pool.store address value s.world) := by
  obtain ⟨region, hlies, -⟩ := hs.sited lease hlease
  have hregion := hlies.mem_regionsOf hlease
  have hinside : word address ⊆ region.bytes :=
    hword.trans (Set.subset_union_left.trans hlies.extent_subset)
  refine ⟨fun hholds => lawful.stored value hholds hregion hinside, fun other hother => ?_⟩
  exact lawful.load_store_of_disjoint value hs.holds hregion hinside
    ((hother lease hlease).mono_right hword)

end Sound

/-- A step keeps the invariant and is right. -/
theorem Step.sound (lawful : pool.Lawful Holds) {s t : Tenancy σ} {deed : Deed}
    (hs : Sound pool Holds s) (hstep : Step pool Holds s deed t) :
    Sound pool Holds t ∧ deed.Right := by
  cases hstep with
  | @took layout address world calls hallocate hne =>
      rcases hanswer : pool.allocate memoryKind layout.request s.world with
        ⟨status | base, after⟩
      · rw [allocate_logged_error hanswer] at hallocate
        exact absurd (congrArg Prod.fst hallocate).symm hne
      · rw [allocate_logged_ok hanswer] at hallocate
        obtain ⟨rfl, hrest⟩ := Prod.mk.inj hallocate
        obtain ⟨rfl, rfl⟩ := Prod.mk.inj hrest
        have hproper := lawful.proper (lawful.granted hs.holds hanswer) _ List.mem_cons_self
        exact ⟨hs.took lawful hanswer, _, Lease.liesIn_of_isProper hproper⟩
  | @refused layout world calls hallocate =>
      rcases hanswer : pool.allocate memoryKind layout.request s.world with
        ⟨status | base, after⟩
      · rw [allocate_logged_error hanswer] at hallocate
        obtain ⟨-, hrest⟩ := Prod.mk.inj hallocate
        obtain ⟨rfl, rfl⟩ := Prod.mk.inj hrest
        exact ⟨hs.refused lawful hanswer, rfl⟩
      · rw [allocate_logged_ok hanswer] at hallocate
        have hproper := lawful.proper (lawful.granted hs.holds hanswer) _ List.mem_cons_self
        exact absurd (congrArg Prod.fst hallocate) (Layout.site_ne_null hproper)
  | @gaveBack lease world calls hlease hrelease =>
      obtain ⟨region, hlies, horigin⟩ := hs.sited lease hlease
      rw [release_logged hlies.address_ne, horigin] at hrelease
      obtain ⟨rfl, rfl⟩ := Prod.mk.inj hrelease
      exact ⟨hs.gaveBack lawful hlease hlies, region, hlies, rfl⟩
  | wrote hwrites => exact ⟨hs.wrote lawful hwrites, trivial⟩

/-! ## Whole runs -/

/-- The addresses that the pool gave in the course of some deeds. -/
def obtainedBy (deeds : List Deed) : List Address :=
  ((deeds.flatMap Deed.calls).filterMap Call.obtained).map Region.start

/-- The addresses that the pool was given back. -/
def returnedBy (deeds : List Deed) : List Address :=
  (deeds.flatMap Deed.calls).filterMap Call.returned

theorem obtainedBy_append (first second : List Deed) :
    obtainedBy (first ++ second) = obtainedBy first ++ obtainedBy second := by
  simp only [obtainedBy, List.flatMap_append, List.filterMap_append, List.map_append]

theorem returnedBy_append (first second : List Deed) :
    returnedBy (first ++ second) = returnedBy first ++ returnedBy second := by
  simp only [returnedBy, List.flatMap_append, List.filterMap_append]

/-- What a step obtains and what was held is what it gives back and what is held then. -/
theorem Step.balanced {s t : Tenancy σ} {deed : Deed} (hstep : Step pool Holds s deed t)
    (hright : deed.Right) :
    (obtainedBy [deed] ++ (regionsOf s.live).map Region.start).Perm
      (returnedBy [deed] ++ (regionsOf t.live).map Region.start) := by
  cases hstep with
  | @took layout address world calls =>
      obtain ⟨region, hlies⟩ := hright
      have hregions := hlies.regions_eq
      have hcalls := hlies.calls_eq
      dsimp only at hcalls
      subst hcalls
      exact List.Perm.refl _
  | refused =>
      obtain rfl := hright
      exact List.Perm.refl _
  | @gaveBack lease world calls hlease =>
      obtain ⟨region, hlies, rfl⟩ := hright
      exact (Sound.perm_erase hlease hlies).map Region.start
  | wrote => exact List.Perm.refl _

namespace Run

variable {s t : Tenancy σ} {deeds : List Deed}

theorem sound (lawful : pool.Lawful Holds) (hs : Sound pool Holds s)
    (run : Run pool Holds s deeds t) :
    Sound pool Holds t ∧ ∀ deed ∈ deeds, deed.Right := by
  induction run with
  | refl => exact ⟨hs, fun _ hdeed => absurd hdeed List.not_mem_nil⟩
  | step _ hstep ih =>
      obtain ⟨ht, hright⟩ := ih
      obtain ⟨hu, hdeed⟩ := hstep.sound lawful ht
      exact ⟨hu, List.forall_mem_append.mpr ⟨hright, List.forall_mem_singleton.mpr hdeed⟩⟩

/-- The balance of the steps adds up. -/
theorem balanced (lawful : pool.Lawful Holds) (hs : Sound pool Holds s)
    (run : Run pool Holds s deeds t) :
    (obtainedBy deeds ++ (regionsOf s.live).map Region.start).Perm
      (returnedBy deeds ++ (regionsOf t.live).map Region.start) := by
  induction run with
  | refl => exact List.Perm.refl _
  | @step t u deeds deed run hstep ih =>
      have hdeed := (hstep.sound lawful (run.sound lawful hs).1).2
      have hswap := @List.perm_append_comm_assoc Address
      rw [obtainedBy_append, returnedBy_append, List.append_assoc, List.append_assoc]
      calc List.Perm (obtainedBy deeds ++ (obtainedBy [deed] ++ (regionsOf s.live).map _))
            (obtainedBy [deed] ++ (obtainedBy deeds ++ (regionsOf s.live).map _)) := hswap ..
        List.Perm _ (obtainedBy [deed] ++ (returnedBy deeds ++ (regionsOf t.live).map _)) :=
          ih.append_left _
        List.Perm _ (returnedBy deeds ++ (obtainedBy [deed] ++ (regionsOf t.live).map _)) :=
          hswap ..
        List.Perm _ (returnedBy deeds ++ (returnedBy [deed] ++ (regionsOf u.live).map _)) :=
          (hstep.balanced hdeed).append_left _

end Run

/-- A history of deeds that ends with some leases and is as it should be. -/
structure Orderly (Holds : List Region → σ → Prop) (deeds : List Deed) (s : Tenancy σ) : Prop where
  /-- Every deed was right. -/
  right : ∀ deed ∈ deeds, deed.Right
  /-- Every lease lies in the region that was obtained for it. -/
  sited : ∀ lease ∈ s.live, ∃ region, lease.LiesIn region
  /-- No place belongs to two leases, be it in a block or in the word below one. -/
  apart : s.live.Pairwise fun first second => Disjoint first.extent second.extent
  /-- The pool has given out the regions of the leases and no others. -/
  holds : Holds (regionsOf s.live) s.world
  /-- The addresses that the pool gave are those it was given back and those still held. -/
  balanced : (obtainedBy deeds).Perm (returnedBy deeds ++ (regionsOf s.live).map Region.start)

/-- In whatever order memory is taken from the heap over a lawful pool, written to and given
back, all is as it should be at every moment. -/
theorem Run.orderly {pool : Pool σ} {Holds : List Region → σ → Prop} (lawful : pool.Lawful Holds)
    {world : σ} (hworld : Holds [] world) {deeds : List Deed} {s : Tenancy σ}
    (run : Run pool Holds { world, live := [] } deeds s) : Orderly Holds deeds s := by
  obtain ⟨hs, hright⟩ := run.sound lawful (Sound.nil hworld)
  have hbalanced := run.balanced lawful (Sound.nil hworld)
  rw [regionsOf, List.flatMap_nil, List.map_nil, List.append_nil] at hbalanced
  exact
    { right := hright
      sited := fun lease hlease => (hs.sited lease hlease).imp fun _ h => h.1
      apart := hs.extents_apart lawful
      holds := hs.holds
      balanced := hbalanced }

/-! ### A visit -/

namespace Visit

/-- A block that is to be aligned more strictly than the pool aligns. -/
def strict : Layout where
  size := 100
  alignment := 64
  alignment_ne := by decide
  alignment_power := by decide
  fits := by decide

def plain : Layout where
  size := 24
  alignment := 8
  alignment_ne := by decide
  alignment_power := by decide
  fits := by decide

/-- A block that is larger than the scripted pool. -/
def huge : Layout where
  size := 0x200000
  alignment := 4096
  alignment_ne := by decide
  alignment_power := by decide
  fits := by decide

/-- The block stands 56 bytes behind the start of its region. -/
def first : Lease := ⟨strict, 0x10040, [.allocate 2 172 (some 0x10008)]⟩

def second : Lease := ⟨plain, 0x11008, [.allocate 2 24 (some 0x11008)]⟩

/-- All of the memory is free, and no region starts at a multiple of sixteen. -/
def before : Memory := { skew := 8 }

/-- The first block is out, and the start of its region is noted. -/
def taken : Memory where
  used := 180
  skew := 8
  calls := [.allocate 2 172 (some 8)]
  words := [(0x10038, 0x10008)]

/-- Both blocks are out. -/
def between : Memory :=
  { taken with used := 4128, calls := taken.calls ++ [.allocate 2 24 (some 4104)] }

/-- The first block was written to, and a third one is refused. -/
def refused : Memory :=
  { between with
    calls := between.calls ++ [.allocate 2 2101256 none]
    words := (0x10040, 7) :: between.words }

/-- The first block is given back. -/
def after : Memory := { refused with calls := refused.calls ++ [.free 8] }

def deeds : List Deed :=
  [.took first, .took second, .wrote, .refused huge [.allocate 2 2101256 none],
    .gaveBack first [.free 0x10008]]

theorem holds_before : Memory.Holds [] before where
  skew_dvd := by decide
  skew_le := by decide
  used_le := by decide
  aligned _ hregion := absurd hregion List.not_mem_nil
  start_le _ hregion := absurd hregion List.not_mem_nil
  stop_le _ hregion := absurd hregion List.not_mem_nil
  apart := List.Pairwise.nil

theorem run_between :
    Run Memory.pool Memory.Holds { world := before, live := [] } [.took first, .took second]
      { world := between, live := [second, first] } := by
  have hfirst : Step Memory.pool Memory.Holds { world := before, live := [] } (.took first)
      { world := taken, live := [first] } := .took rfl (by decide)
  have hsecond : Step Memory.pool Memory.Holds { world := taken, live := [first] } (.took second)
      { world := between, live := [second, first] } := .took rfl (by decide)
  exact (Run.refl.step hfirst).step hsecond

theorem run :
    Run Memory.pool Memory.Holds { world := before, live := [] } deeds
      { world := after, live := [second] } := by
  have hsound := (run_between.sound Memory.lawful_pool (Sound.nil holds_before)).1
  have hword : word 0x10040 ⊆ first.block := Set.Ico_subset_Ico (by decide) (by decide)
  have hfirst : first ∈ [second, first] := by decide
  have hwrote := run_between.step
    (.wrote (hsound.writes_store Memory.lawful_pool hfirst hword 7))
  have hrefused : Step Memory.pool Memory.Holds
      { world := Memory.pool.store 0x10040 7 between, live := [second, first] }
      (.refused huge [.allocate 2 2101256 none])
      { world := refused, live := [second, first] } := .refused rfl
  have hgaveBack : Step Memory.pool Memory.Holds { world := refused, live := [second, first] }
      (.gaveBack first [.free 0x10008]) { world := after, live := [second] } :=
    .gaveBack hfirst rfl
  exact (hwrote.step hrefused).step hgaveBack

end Visit

/-- Two blocks are taken, one of them is written to, a third is refused, and the first is given
back. -/
theorem visit_orderly :
    Memory.pool.Lawful Memory.Holds ∧ Memory.Holds [] Visit.before ∧
      Run Memory.pool Memory.Holds { world := Visit.before, live := [] } Visit.deeds
        { world := Visit.after, live := [Visit.second] } ∧
      Orderly Memory.Holds Visit.deeds { world := Visit.after, live := [Visit.second] } :=
  ⟨Memory.lawful_pool, Visit.holds_before, Visit.run,
    Run.orderly Memory.lawful_pool Visit.holds_before Visit.run⟩

end BootVolume.Uefi.Heap
