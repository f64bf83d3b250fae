import Mathlib
import BootVolume.Fat.Mounted

/-!
# Following chains and paths

What a driver finds when it follows a chain of consecutive clusters: exactly
these clusters, as long as each entry names the next one and the last one is a
mark.  A path is followed through the entries that its components find in one
directory after the other.
-/

namespace BootVolume.Fat.Mounted

variable {m : Type → Type} [Monad m] {v : Mounted m}

theorem isLink_iff {entry : Nat} : isLink entry = true ↔ 2 ≤ entry ∧ entry < 0x0FFFFFF8 := by
  simp [isLink]

theorem chainFrom_of_not_isLink {cluster : Nat} (h : isLink cluster = false) (limit : Nat) :
    v.chainFrom limit cluster = pure [] := by
  cases limit with
  | zero => rfl
  | succ limit => simp [chainFrom, h]

/-- A chain of consecutive clusters, each but the last one leading to the next. -/
theorem chainFrom_eq [LawfulMonad m] {first count limit : Nat} (mark : Nat) (hfirst : 2 ≤ first)
    (hstop : first + count ≤ 0x0FFFFFF8) (hlimit : count ≤ limit) (hmark : isLink mark = false)
    (hentry : ∀ i < count, v.entry 0 (first + i) =
      pure (if i + 1 = count then mark else first + i + 1)) (hcount : 0 < count) :
    v.chainFrom limit first = pure (List.range' first count) := by
  induction count generalizing first limit with
  | zero => exact absurd hcount (Nat.lt_irrefl 0)
  | succ count ih =>
      obtain ⟨limit, rfl⟩ : ∃ l, limit = l + 1 := ⟨limit - 1, by omega⟩
      have hlink : isLink first = true := isLink_iff.mpr ⟨hfirst, by omega⟩
      have hnext : v.entry 0 first = pure (if count = 0 then mark else first + 1) := by
        have := hentry 0 (Nat.succ_pos _)
        simpa [eq_comm] using this
      rw [chainFrom, if_pos hlink, hnext, pure_bind, List.range'_succ]
      by_cases hlast : count = 0
      · rw [if_pos hlast, chainFrom_of_not_isLink hmark, hlast, pure_bind]
        rfl
      · rw [if_neg hlast, ih (by omega) (by omega) (by omega) (fun i hi => ?_) (by omega),
          pure_bind]
        have hstep := hentry (i + 1) (Nat.succ_lt_succ hi)
        rw [Nat.add_right_comm first 1 i]
        simpa [← Nat.add_assoc] using hstep

/-! ## Paths -/

section Paths

variable [LawfulMonad m] {cluster : Nat} {items : List Listed} {component : String} {item : Listed}

theorem directory_eq {clusters : List Nat} {data : Bytes} (hchain : v.chain cluster = pure clusters)
    (hread : v.readClusters clusters = pure data) :
    v.directory cluster = pure (listing data) := by
  rw [directory, hchain, pure_bind, hread, pure_bind]

theorem resolveFrom_last (hdirectory : v.directory cluster = pure items)
    (hfind : items.find? (answers component) = some item) :
    v.resolveFrom cluster [component] = pure (some item) := by
  rw [resolveFrom, hdirectory, pure_bind, hfind]
  rfl

theorem resolveFrom_next (hdirectory : v.directory cluster = pure items)
    (hfind : items.find? (answers component) = some item) (next : String) (rest : List String) :
    v.resolveFrom cluster (component :: next :: rest) =
      v.resolveFrom (v.directoryCluster item) (next :: rest) := by
  rw [resolveFrom, hdirectory, pure_bind, hfind]
  rfl

end Paths

end BootVolume.Fat.Mounted
