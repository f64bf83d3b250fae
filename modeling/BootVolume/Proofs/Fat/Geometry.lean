import Mathlib
import BootVolume.Fat.Geometry

/-!
# Geometry without overflow

The sizes of a volume are 32-bit words.  Up to `maxClusters` data clusters, the
most whose numbers are no marks in the table, none of the sums and products that
they come from wraps, so each of them is the number that the formula says.
-/

namespace BootVolume.Fat

/-- The most data clusters for which the number of every cluster, the last one included, is
below the marks of the table. -/
def maxClusters : Nat := 0x0FFFFFF5

theorem ceilDiv_mul_ge (n : Nat) {unit : Nat} (h : 0 < unit) : n ≤ ceilDiv n unit * unit := by
  unfold ceilDiv
  have := Nat.div_add_mod (n + unit - 1) unit
  have := Nat.mod_lt (n + unit - 1) h
  rw [Nat.mul_comm]
  omega

theorem ceilDiv_clusterSize_eq_zero {n : Nat} : ceilDiv n clusterSize = 0 ↔ n = 0 := by
  unfold ceilDiv clusterSize
  omega

theorem ceilDiv_clusterSize_le {n : Nat} (h : n < 0x100000000) :
    ceilDiv n clusterSize ≤ 0x100000 := by
  unfold ceilDiv clusterSize
  omega

theorem toNat_clustersFor {length : Nat} (h : ceilDiv length clusterSize < 0x100000000) :
    (clustersFor length).toNat = ceilDiv length clusterSize := by
  rw [clustersFor, UInt32.toNat_ofNat']
  exact Nat.mod_eq_of_lt h

namespace Geometry

theorem toNat_max (a b : UInt32) : (max a b).toNat = max a.toNat b.toNat := by
  show (if a ≤ b then b else a).toNat = _
  split
  · rename_i hle
    exact (Nat.max_eq_right (UInt32.le_iff_toNat_le.mp hle)).symm
  · rename_i hle
    rw [UInt32.le_iff_toNat_le] at hle
    omega

theorem tableSectorsFor_toNat {clusters : UInt32} (h : clusters.toNat ≤ maxClusters) :
    (tableSectorsFor clusters).toNat = (4 * (clusters.toNat + 2) + 511) / 512 := by
  unfold maxClusters at h
  have hbytes : ((clusters + 2) * 4).toNat = 4 * (clusters.toNat + 2) := by
    rw [UInt32.toNat_mul, UInt32.toNat_add]
    simp only [UInt32.reduceToNat]
    omega
  have hrest : (clusters + 2) * 4 % 512 = 0 ↔ 4 * (clusters.toNat + 2) % 512 = 0 := by
    rw [← UInt32.toNat_inj, UInt32.toNat_mod, hbytes]
    simp
  simp only [tableSectorsFor, hrest]
  rw [UInt32.toNat_add, UInt32.toNat_div, hbytes]
  split <;> simp only [UInt32.reduceToNat] <;> omega

/-- The sizes that belong to a number of data clusters. -/
structure Exact (g : Geometry) : Prop where
  clusters_le : g.clusters.toNat ≤ maxClusters
  clusters_ge : 0x10000 ≤ g.clusters.toNat
  table_ge : 4 * (g.clusters.toNat + 2) ≤ 512 * g.tableSectors.toNat
  table_lt : 512 * g.tableSectors.toNat < 4 * (g.clusters.toNat + 2) + 512
  total : g.totalSectors.toNat = 32 + 2 * g.tableSectors.toNat + 8 * g.clusters.toNat

theorem exact_forClusters (used : UInt32) (h : used.toNat ≤ maxClusters) :
    (forClusters used).Exact ∧ (forClusters used).clusters.toNat = max used.toNat 0x10000 := by
  have hclusters : (forClusters used).clusters.toNat = max used.toNat 0x10000 :=
    toNat_max used minClusters
  have hle : (forClusters used).clusters.toNat ≤ maxClusters := by
    rw [hclusters]
    unfold maxClusters at h ⊢
    omega
  have htable : (forClusters used).tableSectors.toNat =
      (4 * ((forClusters used).clusters.toNat + 2) + 511) / 512 := tableSectorsFor_toNat hle
  refine ⟨⟨hle, by omega, by omega, by omega, ?_⟩, hclusters⟩
  show (reservedSectors + tableCopies * (forClusters used).tableSectors +
    (forClusters used).clusters * sectorsPerCluster).toNat = _
  unfold maxClusters at hle
  rw [UInt32.toNat_add, UInt32.toNat_add, UInt32.toNat_mul, UInt32.toNat_mul]
  simp only [reservedSectors, tableCopies, sectorsPerCluster, UInt32.reduceToNat]
  omega

namespace Exact

variable {g : Geometry}

theorem tableSectors_lt (exact : g.Exact) : g.tableSectors.toNat < 0x200001 := by
  have := exact.table_lt
  have := exact.clusters_le
  unfold maxClusters at this
  omega

theorem dataStart_toNat (exact : g.Exact) :
    g.dataStart.toNat = 32 + 2 * g.tableSectors.toNat := by
  have := exact.tableSectors_lt
  simp only [dataStart, UInt32.toNat_add, UInt32.toNat_mul, reservedSectors, tableCopies,
    UInt32.reduceToNat]
  omega

theorem tableStart_toNat (exact : g.Exact) (copy : UInt32) (h : copy.toNat < 2) :
    (g.tableStart copy).toNat = 32 + copy.toNat * g.tableSectors.toNat := by
  have := exact.tableSectors_lt
  have hcopy : copy.toNat = 0 ∨ copy.toNat = 1 := by omega
  simp only [tableStart, UInt32.toNat_add, UInt32.toNat_mul, reservedSectors, UInt32.reduceToNat]
  rcases hcopy with h | h <;> rw [h] <;> omega

theorem clusterSector_toNat (exact : g.Exact) {cluster : UInt32} (hlow : 2 ≤ cluster.toNat)
    (hhigh : cluster.toNat ≤ g.clusters.toNat + 2) :
    (g.clusterSector cluster).toNat =
      32 + 2 * g.tableSectors.toNat + 8 * (cluster.toNat - 2) := by
  have := exact.tableSectors_lt
  have := exact.clusters_le
  unfold maxClusters at this
  have hsub : (cluster - 2).toNat = cluster.toNat - 2 :=
    UInt32.toNat_sub_of_le _ _ (UInt32.le_iff_toNat_le.mpr hlow)
  rw [clusterSector, UInt32.toNat_add, UInt32.toNat_mul, hsub, exact.dataStart_toNat]
  simp only [sectorsPerCluster, UInt32.reduceToNat]
  omega

end Exact

end Geometry

end BootVolume.Fat
