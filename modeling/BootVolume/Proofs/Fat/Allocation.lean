import BootVolume.Fat.ParameterBlock
import BootVolume.Proofs.Fat.Table

/-!
# The allocation of clusters

What a checker of filesystems asks of an allocation table before it looks at the
directories: every cluster is free or belongs to exactly one chain, every chain
ends in the end mark, and the summary of the free space counts the free clusters
and names the lowest of them.  Chains are not taken from how the table was made:
a chain starts where a cluster is in use and no entry leads to it (`IsFirst`).

A table whose chains abut passes (`Table.allocation_sound`), and its chains are
the ones that a checker finds (`Table.isFirst_iff`).
-/

namespace BootVolume.Fat

/-- The clusters of a volume as a driver sees them. -/
structure Allocation where
  /-- The number of data clusters, which are counted from 2. -/
  clusters : Nat
  entry : Nat → Nat
  /-- The clusters that a driver follows from a first one. -/
  chain : Nat → List Nat

namespace Allocation

variable (a : Allocation)

/-- Whether a number is that of a data cluster. -/
def IsCluster (n : Nat) : Prop := 2 ≤ n ∧ n < a.clusters + 2

/-- A chain starts where a cluster is in use and no entry leads to it. -/
def IsFirst (c : Nat) : Prop :=
  a.IsCluster c ∧ a.entry c ≠ 0 ∧ ∀ n, a.IsCluster n → a.entry n ≠ c

/-- What a checker asks of the clusters. -/
structure Sound (space : FreeSpace) : Prop where
  media : a.entry 0 = 0x0FFFFFF8
  mark : a.entry 1 = 0x0FFFFFFF
  /-- No cluster is lost and none belongs to two chains. -/
  once : ∀ n, a.IsCluster n →
    (a.entry n = 0 ∧ ∀ c, a.IsFirst c → n ∉ a.chain c) ∨
      (a.entry n ≠ 0 ∧ ∃! c, a.IsFirst c ∧ n ∈ a.chain c)
  ends : ∀ c, a.IsFirst c → ∃ last, (a.chain c).getLast? = some last ∧ a.entry last = 0x0FFFFFFF
  free : (List.range' 2 a.clusters).countP (fun n => a.entry n = 0) = space.free
  next : space.free ≠ 0 → IsLeast {n | a.IsCluster n ∧ a.entry n = 0} space.next

end Allocation

namespace Abut

variable {start stop n : Nat} {chains : List Chain} {c d : Chain}

theorem exists_covers (h : Abut start chains stop) (hlow : start ≤ n) (hhigh : n < stop) :
    ∃ c ∈ chains, c.covers n = true := by
  induction chains generalizing start with
  | nil => exact absurd (h ▸ hlow) (Nat.not_le.mpr hhigh)
  | cons c rest ih =>
      obtain ⟨hfirst, -, hrest⟩ := h
      by_cases hn : n < c.stop
      · exact ⟨c, List.mem_cons_self .., Chain.covers_iff.mpr ⟨hfirst ▸ hlow, hn⟩⟩
      · obtain ⟨d, hd, hcovers⟩ := ih hrest (Nat.not_lt.mp hn)
        exact ⟨d, List.mem_cons_of_mem _ hd, hcovers⟩

theorem eq_of_covers (h : Abut start chains stop) (hc : c ∈ chains) (hd : d ∈ chains)
    (hcn : c.covers n = true) (hdn : d.covers n = true) : c = d := by
  have hfound := h.find?_of_covers hc hcn
  rw [h.find?_of_covers hd hdn] at hfound
  exact (Option.some.inj hfound).symm

theorem covers_first (h : Abut start chains stop) (hc : c ∈ chains) :
    c.covers c.first.toNat = true := by
  obtain ⟨-, hpos, -⟩ := h.bounds hc
  exact Chain.covers_iff.mpr ⟨Nat.le_refl _, Nat.lt_add_of_pos_right hpos⟩

theorem eq_of_first (h : Abut start chains stop) (hc : c ∈ chains) (hd : d ∈ chains)
    (hfirst : c.first.toNat = d.first.toNat) : c = d :=
  h.eq_of_covers hc hd (h.covers_first hc) (hfirst ▸ h.covers_first hd)

end Abut

namespace Table

/-- What an entry says; its highest four bits mean nothing. -/
def link (t : Table) (n : Nat) : Nat := (t.entry n).toNat % 0x10000000

/-- The clusters of a volume with the given table. -/
def allocation (t : Table) (clusters : Nat) : Allocation where
  clusters
  entry := t.link
  chain first := ((t.chains.find? fun c => c.first.toNat == first).map fun c =>
    List.range' c.first.toNat c.count.toNat).getD []

section

variable {t : Table} {stop clusters n : Nat} {c : Chain}

theorem link_of_covers (abut : Abut 2 t.chains stop) (hstop : stop ≤ 0x0FFFFFF7)
    (hc : c ∈ t.chains) (hn : c.covers n = true) :
    t.link n = if n + 1 = c.stop then 0x0FFFFFFF else n + 1 := by
  obtain ⟨hlow, hhigh⟩ := Chain.covers_iff.mp hn
  have hbounds := abut.bounds hc
  rw [link, entry_of_covers abut (by omega) hc hlow hhigh]
  split
  · rfl
  · rw [UInt32.toNat_ofNat']
    omega

theorem link_of_behind (abut : Abut 2 t.chains stop) (hn : stop ≤ n) : t.link n = 0 := by
  rw [link, entry_of_behind abut hn]
  rfl

theorem link_eq_zero_iff (abut : Abut 2 t.chains stop) (hstop : stop ≤ 0x0FFFFFF7)
    (hn : 2 ≤ n) : t.link n = 0 ↔ stop ≤ n := by
  constructor
  · intro hzero
    by_contra hlt
    obtain ⟨c, hc, hcovers⟩ := abut.exists_covers hn (Nat.not_le.mp hlt)
    rw [link_of_covers abut hstop hc hcovers] at hzero
    split at hzero <;> omega
  · exact link_of_behind abut

theorem chain_of_mem (abut : Abut 2 t.chains stop) (hc : c ∈ t.chains) :
    (t.allocation clusters).chain c.first.toNat = List.range' c.first.toNat c.count.toNat := by
  have hsome : (t.chains.find? fun d => d.first.toNat == c.first.toNat).isSome :=
    List.find?_isSome.mpr ⟨c, hc, beq_self_eq_true _⟩
  obtain ⟨d, hd⟩ := Option.isSome_iff_exists.mp hsome
  have hfirst : (d.first.toNat == c.first.toNat) = true :=
    List.find?_some (p := fun d : Chain => d.first.toNat == c.first.toNat) hd
  obtain rfl : d = c := abut.eq_of_first (List.mem_of_find?_eq_some hd) hc (eq_of_beq hfirst)
  simp only [allocation, hd, Option.map_some, Option.getD_some]

/-- The chains that a checker finds are those of the table. -/
theorem isFirst_iff (abut : Abut 2 t.chains stop) (hstop : stop ≤ 0x0FFFFFF7)
    (hclusters : stop ≤ clusters + 2) {first : Nat} :
    (t.allocation clusters).IsFirst first ↔ ∃ c ∈ t.chains, c.first.toNat = first := by
  constructor
  · rintro ⟨⟨hlow, -⟩, hused, hnone⟩
    have hlt : first < stop :=
      Nat.not_le.mp fun hbehind => hused (link_of_behind abut hbehind)
    obtain ⟨c, hc, hcovers⟩ := abut.exists_covers hlow hlt
    refine ⟨c, hc, ?_⟩
    by_contra hne
    -- Otherwise the cluster before it belongs to the same chain, and its entry leads here.
    obtain ⟨hfirst, hbelow⟩ := Chain.covers_iff.mp hcovers
    have hbounds := abut.bounds hc
    have hbefore : c.covers (first - 1) = true := Chain.covers_iff.mpr (by omega)
    refine hnone (first - 1) ⟨by omega, ?_⟩ ?_
    · show first - 1 < clusters + 2
      omega
    · show t.link (first - 1) = first
      rw [link_of_covers abut hstop hc hbefore, if_neg (by omega)]
      omega
  · rintro ⟨c, hc, rfl⟩
    have hbounds := abut.bounds hc
    have hin : c.first.toNat < stop := by
      unfold Chain.stop at hbounds
      omega
    refine ⟨⟨hbounds.1, Nat.lt_of_lt_of_le hin hclusters⟩, ?_, ?_⟩
    · exact mt (link_eq_zero_iff abut hstop hbounds.1).mp (Nat.not_le.mpr hin)
    · rintro n ⟨hlow, -⟩ hlink
      have hlink : t.link n = c.first.toNat := hlink
      have hused : n < stop := Nat.not_le.mp fun hbehind => by
        rw [link_of_behind abut hbehind] at hlink
        omega
      obtain ⟨d, hd, hcovers⟩ := abut.exists_covers hlow hused
      rw [link_of_covers abut hstop hd hcovers] at hlink
      split at hlink
      · omega
      · -- The cluster that is led to belongs to the chain of the one before it.
        obtain ⟨hfirst, hbelow⟩ := Chain.covers_iff.mp hcovers
        have hnext : d.covers c.first.toNat = true := Chain.covers_iff.mpr (by omega)
        obtain rfl := abut.eq_of_covers hd hc hnext (abut.covers_first hc)
        omega

theorem mem_chain_iff (abut : Abut 2 t.chains stop) (hc : c ∈ t.chains) :
    n ∈ (t.allocation clusters).chain c.first.toNat ↔ c.covers n = true := by
  rw [chain_of_mem abut hc, List.mem_range'_1, Chain.covers_iff]
  rfl

theorem countP_free (abut : Abut 2 t.chains stop) (hstop : stop ≤ 0x0FFFFFF7)
    (hclusters : stop ≤ clusters + 2) :
    (List.range' 2 clusters).countP (fun n => t.link n = 0) = clusters + 2 - stop := by
  have hlow := abut.start_le_stop
  have hsplit : List.range' 2 clusters =
      List.range' 2 (stop - 2) ++ List.range' stop (clusters + 2 - stop) := by
    have hstart : 2 + (stop - 2) = stop := by omega
    have hcount : stop - 2 + (clusters + 2 - stop) = clusters := by omega
    calc List.range' 2 clusters
        = List.range' 2 (stop - 2 + (clusters + 2 - stop)) := by rw [hcount]
      _ = List.range' 2 (stop - 2) ++ List.range' (2 + (stop - 2)) (clusters + 2 - stop) :=
          List.range'_append_1.symm
      _ = List.range' 2 (stop - 2) ++ List.range' stop (clusters + 2 - stop) := by rw [hstart]
  have hused : (List.range' 2 (stop - 2)).countP (fun n => t.link n = 0) = 0 := by
    refine List.countP_eq_zero.mpr fun n hn => ?_
    have hn := List.mem_range'_1.mp hn
    rw [decide_eq_true_eq, link_eq_zero_iff abut hstop hn.1]
    omega
  have hfree : (List.range' stop (clusters + 2 - stop)).countP (fun n => t.link n = 0) =
      clusters + 2 - stop := by
    rw [List.countP_eq_length.mpr, List.length_range']
    intro n hn
    have hn := List.mem_range'_1.mp hn
    rw [decide_eq_true_eq]
    exact link_of_behind abut hn.1
  rw [hsplit, List.countP_append, hused, hfree, Nat.zero_add]

/-- A table of abutting chains passes, with a summary that counts the clusters behind them. -/
theorem allocation_sound (abut : Abut 2 t.chains stop) (hstop : stop ≤ 0x0FFFFFF7)
    (hclusters : stop ≤ clusters + 2) :
    (t.allocation clusters).Sound { free := clusters + 2 - stop, next := stop } where
  media := congrArg (·.toNat % 0x10000000) (entry_of_outside abut (Or.inl (by decide)))
  mark := congrArg (·.toNat % 0x10000000) (entry_of_outside abut (Or.inl (by decide)))
  once n hn := by
    obtain ⟨hlow, hhigh⟩ := hn
    by_cases hfree : stop ≤ n
    · refine Or.inl ⟨link_of_behind abut hfree, fun first hfirst hmem => ?_⟩
      obtain ⟨c, hc, rfl⟩ := (isFirst_iff abut hstop hclusters).mp hfirst
      have hbelow := Chain.covers_iff.mp ((mem_chain_iff abut hc).mp hmem)
      have hbounds := abut.bounds hc
      omega
    · obtain ⟨c, hc, hcovers⟩ := abut.exists_covers hlow (Nat.not_le.mp hfree)
      refine Or.inr ⟨mt (link_eq_zero_iff abut hstop hlow).mp hfree, c.first.toNat,
        ⟨(isFirst_iff abut hstop hclusters).mpr ⟨c, hc, rfl⟩,
          (mem_chain_iff abut hc).mpr hcovers⟩, ?_⟩
      rintro first ⟨hfirst, hmem⟩
      obtain ⟨d, hd, rfl⟩ := (isFirst_iff abut hstop hclusters).mp hfirst
      rw [abut.eq_of_covers hd hc ((mem_chain_iff abut hd).mp hmem) hcovers]
  ends first hfirst := by
    obtain ⟨c, hc, rfl⟩ := (isFirst_iff abut hstop hclusters).mp hfirst
    obtain ⟨-, hpos, -⟩ := abut.bounds hc
    have hlast : c.covers (c.stop - 1) = true := Chain.covers_iff.mpr (by
      unfold Chain.stop
      omega)
    refine ⟨c.stop - 1, ?_, ?_⟩
    · rw [chain_of_mem abut hc, List.getLast?_range', if_neg (by omega)]
      rfl
    · show t.link (c.stop - 1) = 0x0FFFFFFF
      rw [link_of_covers abut hstop hc hlast, if_pos]
      unfold Chain.stop
      omega
  free := countP_free abut hstop hclusters
  next hfree := by
    have hlow := abut.start_le_stop
    have hroom : stop < clusters + 2 := by
      simp only at hfree
      omega
    refine ⟨⟨⟨hlow, hroom⟩, link_of_behind abut (Nat.le_refl _)⟩, ?_⟩
    rintro n ⟨⟨hn, -⟩, hzero⟩
    exact (link_eq_zero_iff abut hstop hn).mp hzero

end

end Table

end BootVolume.Fat
