import BootVolume.Proofs.BlockDevice
import BootVolume.Proofs.Image.LaidOut

/-!
# What a block device promises

A request names a medium, a block and a number of bytes, the last two in 64-bit
words.  `Contract` says for which requests a device gives which status, and that
it passes all others on to its disk at the place of their first block.  `check?`
follows the checks of a device in words: a sum or a product that overflows gets
stuck, unless the device looks out for it.  On a built disk nothing gets stuck,
and the checks come to what the contract says (`Contract.words`).

Both devices of a built disk keep the contract because neither reaches past the
end of the disk (`LiesOn`), whose size is far below the largest word.  The
partition is a window of the whole disk, and none of its reads reaches before it
(`devices_keep_contract`).
-/

namespace BootVolume.BlockDevice

open Image Fat Files

variable {σ : Type}

/-- The request names the medium in the device, whole blocks, and blocks that the device has. -/
structure Accepts (device : BlockDevice) (media : UInt32) (block count : UInt64) : Prop where
  media_eq : media = device.mediaId
  whole : count.toNat % 512 = 0
  inside : block.toNat + count.toNat / 512 ≤ device.blocks

/-- The answer of a device to a request in words, and the machine after it. -/
def answer (storage : Storage σ) (device : BlockDevice) (media : UInt32) (block count : UInt64)
    (m : Machine σ) : Except Status Bytes × Machine σ :=
  (device.read storage media block.toNat count.toNat).runOn m

/-- The position on the disk of a block of a device. -/
def place (device : BlockDevice) (block : UInt64) : Nat := (block.toNat + device.start) * 512

/-! ## Checks in words -/

/-- The sum of two words; nothing if it overflows. -/
def addWords? (a b : UInt64) : Option UInt64 :=
  if a.toNat + b.toNat < 2 ^ 64 then some (a + b) else none

/-- The product of two words; nothing if it overflows. -/
def mulWords? (a b : UInt64) : Option UInt64 :=
  if a.toNat * b.toNat < 2 ^ 64 then some (a * b) else none

/-- The checks of a device: the status that refuses the request, or the position on the disk
that it is for.  An overflow is looked out for in the sum of blocks and nowhere else. -/
def check? (device : BlockDevice) (media : UInt32) (block count : UInt64) :
    Option (Except Status UInt64) :=
  if media ≠ device.mediaId then some (.error Status.mediaChanged)
  else if count % 512 ≠ 0 then some (.error Status.badBufferSize)
  else
    match addWords? block (count / 512) with
    | none => some (.error Status.invalidParameter)
    | some stop =>
        if UInt64.ofNat device.blocks < stop then some (.error Status.invalidParameter)
        else do
          let first ← addWords? block (UInt64.ofNat device.start)
          let offset ← mulWords? first 512
          return .ok offset

/-- The check of a disk: whether it has the `count` bytes from `offset`. -/
def holds? (d : VirtualDisk) (offset count : UInt64) : Option Bool := do
  let size ← mulWords? (UInt64.ofNat d.blocks) 512
  return (addWords? offset count).any fun stop => decide (stop ≤ size)

/-- What a device promises about a request. -/
structure Contract (storage : Storage σ) (device : BlockDevice) (media : UInt32)
    (block count : UInt64) : Prop where
  /-- Another medium is noticed before all else. -/
  media_changed (m : Machine σ) :
    (device.answer storage media block count m).1 = .error Status.mediaChanged ↔
      media ≠ device.mediaId
  bad_buffer_size (m : Machine σ) :
    (device.answer storage media block count m).1 = .error Status.badBufferSize ↔
      media = device.mediaId ∧ count.toNat % 512 ≠ 0
  invalid_parameter (m : Machine σ) :
    (device.answer storage media block count m).1 = .error Status.invalidParameter ↔
      media = device.mediaId ∧ count.toNat % 512 = 0 ∧
        device.blocks < block.toNat + count.toNat / 512
  /-- What is refused leaves the machine as it was. -/
  refused (m : Machine σ) : ¬ device.Accepts media block count →
    (device.answer storage media block count m).2 = m
  accepted (m : Machine σ) : device.Accepts media block count →
    device.answer storage media block count m =
      relay block.toNat ((device.disk.read storage (device.place block) count.toNat).runOn m)
  /-- The disk has the bytes that it is asked for. -/
  inside : device.Accepts media block count →
    device.place block + count.toNat ≤ device.disk.byteLength
  /-- The source of a file has, by its length, the bytes that it is asked for. -/
  asked : device.Accepts media block count → ∀ r ∈ device.disk.regions,
    r.Meets (device.place block) (device.place block + count.toNat) →
      ∀ file, r.content = .file file →
        (r.segment (device.place block) (device.place block + count.toNat)).1 +
          (r.segment (device.place block) (device.place block + count.toNat)).2 ≤ file.length
  device_error (m : Machine σ) :
    (device.answer storage media block count m).1 = .error Status.deviceError ↔
      device.Accepts media block count ∧ ∃ cause m',
        FailsInTurn storage device.disk.arrangement.table (device.place block)
          (device.place block + count.toNat) device.disk.regions m cause m'
  /-- The checks in words never get stuck, and come to the same. -/
  words : ∃ verdict, device.check? media block count = some verdict ∧
    match verdict with
    | .error status => ∀ m, device.answer storage media block count m = (.error status, m)
    | .ok offset => device.Accepts media block count ∧ offset.toNat = device.place block ∧
        holds? device.disk offset count = some true

/-! ## Refusals -/

/-- The status that refuses a request, if one does. -/
def refusal? (device : BlockDevice) (media : UInt32) (block count : UInt64) : Option Status :=
  if media ≠ device.mediaId then some Status.mediaChanged
  else if count.toNat % 512 ≠ 0 then some Status.badBufferSize
  else if device.blocks < block.toNat + count.toNat / 512 then some Status.invalidParameter
  else none

section Refusals

variable {storage : Storage σ} {device : BlockDevice} {media : UInt32} {block count : UInt64}
  {m m' : Machine σ} {data : Bytes}

theorem refusal?_eq_none_iff :
    device.refusal? media block count = none ↔ device.Accepts media block count := by
  unfold refusal?
  split_ifs with hmedia hwhole hinside
  · exact iff_of_false nofun fun h => hmedia h.media_eq
  · exact iff_of_false nofun fun h => hwhole h.whole
  · exact iff_of_false nofun fun h => Nat.not_le.mpr hinside h.inside
  · exact iff_of_true rfl ⟨not_not.mp hmedia, not_not.mp hwhole, Nat.not_lt.mp hinside⟩

theorem refusal?_eq_mediaChanged_iff :
    device.refusal? media block count = some Status.mediaChanged ↔ media ≠ device.mediaId := by
  have hsize : Status.badBufferSize ≠ Status.mediaChanged := by decide
  have hrange : Status.invalidParameter ≠ Status.mediaChanged := by decide
  unfold refusal?
  split_ifs with hmedia <;> simp [hmedia, hsize, hrange]

theorem refusal?_eq_badBufferSize_iff :
    device.refusal? media block count = some Status.badBufferSize ↔
      media = device.mediaId ∧ count.toNat % 512 ≠ 0 := by
  have hmedium : Status.mediaChanged ≠ Status.badBufferSize := by decide
  have hrange : Status.invalidParameter ≠ Status.badBufferSize := by decide
  unfold refusal?
  split_ifs with hmedia hwhole <;> simp_all

theorem refusal?_eq_invalidParameter_iff :
    device.refusal? media block count = some Status.invalidParameter ↔
      media = device.mediaId ∧ count.toNat % 512 = 0 ∧
        device.blocks < block.toNat + count.toNat / 512 := by
  have hmedium : Status.mediaChanged ≠ Status.invalidParameter := by decide
  have hsize : Status.badBufferSize ≠ Status.invalidParameter := by decide
  unfold refusal?
  split_ifs with hmedia hwhole hinside <;> simp_all

theorem refusal?_ne_deviceError :
    device.refusal? media block count ≠ some Status.deviceError := by
  unfold refusal?
  split_ifs <;> simp <;> decide

theorem relay_eq_ok_iff {block : Nat} {read : Except ReadError Bytes × Machine σ} :
    relay block read = (.ok data, m') ↔ read = (.ok data, m') := by
  rcases read with ⟨cause | data, m⟩
  · exact iff_of_false nofun nofun
  · simp [relay]

/-- A request is refused, or passed on to the disk. -/
theorem answer_eq (storage : Storage σ) (device : BlockDevice) (media : UInt32)
    (block count : UInt64) (m : Machine σ) :
    device.answer storage media block count m =
      match device.refusal? media block count with
      | some status => (.error status, m)
      | none => relay block.toNat
          ((device.disk.read storage (device.place block) count.toNat).runOn m) := by
  have hsize : blockSize = 512 := rfl
  unfold refusal?
  rw [answer, runOn_read, hsize]
  split_ifs <;> rfl

/-- A status other than that of a failing disk refuses the request. -/
theorem answer_eq_error_iff {status : Status} (hstatus : status ≠ Status.deviceError) :
    (device.answer storage media block count m).1 = .error status ↔
      device.refusal? media block count = some status := by
  rw [answer_eq]
  cases device.refusal? media block count with
  | some other => simp
  | none =>
      rcases (device.disk.read storage (device.place block) count.toNat).runOn m with
        ⟨cause | data, m'⟩
      · simpa [relay] using hstatus.symm
      · simp [relay]

theorem answer_eq_deviceError_iff :
    (device.answer storage media block count m).1 = .error Status.deviceError ↔
      device.Accepts media block count ∧ ∃ cause m',
        (device.disk.read storage (device.place block) count.toNat).runOn m =
          (.error cause, m') := by
  rw [answer_eq, ← refusal?_eq_none_iff]
  cases hrefusal : device.refusal? media block count with
  | some status =>
      have hstatus : status ≠ Status.deviceError :=
        fun h => refusal?_ne_deviceError (hrefusal.trans (congrArg some h))
      simpa using hstatus
  | none =>
      rcases (device.disk.read storage (device.place block) count.toNat).runOn m with
        ⟨cause | data, m'⟩ <;> simp [relay]

end Refusals

/-! ## The checks in words agree -/

/-- A device over a part of a disk. -/
structure LiesOn (device : BlockDevice) (d : VirtualDisk) : Prop where
  disk_eq : device.disk = d
  inside : device.start + device.blocks ≤ d.blocks

theorem liesOn_wholeDisk (d : VirtualDisk) : (wholeDisk d).LiesOn d :=
  ⟨rfl, Nat.le_of_eq (Nat.zero_add _)⟩

theorem liesOn_partition (d : VirtualDisk) : (partition d).LiesOn d := ⟨rfl, Nat.le_refl _⟩

theorem addWords?_eq_some {a b : UInt64} (h : a.toNat + b.toNat < 2 ^ 64) :
    ∃ c, addWords? a b = some c ∧ c.toNat = a.toNat + b.toNat := by
  refine ⟨a + b, if_pos h, ?_⟩
  rw [UInt64.toNat_add, Nat.mod_eq_of_lt h]

theorem mulWords?_eq_some {a : UInt64} (h : a.toNat * 512 < 2 ^ 64) :
    ∃ c, mulWords? a 512 = some c ∧ c.toNat = a.toNat * 512 := by
  refine ⟨a * 512, if_pos h, ?_⟩
  rw [UInt64.toNat_mul]
  exact Nat.mod_eq_of_lt h

section Words

variable {d : VirtualDisk} {device : BlockDevice} {media : UInt32} {block count : UInt64}

/-- The disk has the bytes of blocks of a device on it. -/
theorem LiesOn.place_add_le (lies : device.LiesOn d) (accepts : device.Accepts media block count) :
    device.place block + count.toNat ≤ d.byteLength := by
  have hwhole := accepts.whole
  have hinside := accepts.inside
  have hdevice := lies.inside
  unfold place VirtualDisk.byteLength sectorSize
  omega

/-- The sizes of a disk and of what lies on it are words. -/
theorem toNat_ofNat_of_le (hlength : d.byteLength < 2 ^ 64) {n : Nat} (hn : n ≤ d.blocks) :
    (UInt64.ofNat n).toNat = n := by
  have hbytes : d.byteLength = d.blocks * 512 := rfl
  exact UInt64.toNat_ofNat_of_lt' (by show n < 2 ^ 64; omega)

theorem whole_iff : count % 512 = 0 ↔ count.toNat % 512 = 0 := by
  rw [← UInt64.toNat_inj, UInt64.toNat_mod]
  rfl

theorem holds?_eq_true (hlength : d.byteLength < 2 ^ 64) {offset : UInt64}
    (hinside : offset.toNat + count.toNat ≤ d.byteLength) : holds? d offset count = some true := by
  have hblocks := toNat_ofNat_of_le hlength (Nat.le_refl d.blocks)
  obtain ⟨size, hsize, hsizeNat⟩ := mulWords?_eq_some (a := UInt64.ofNat d.blocks)
    (by rw [hblocks]; exact hlength)
  obtain ⟨stop, hstop, hstopNat⟩ := addWords?_eq_some (Nat.lt_of_le_of_lt hinside hlength)
  have hle : stop ≤ size := by
    rw [UInt64.le_iff_toNat_le, hsizeNat, hstopNat, hblocks]
    exact hinside
  unfold holds?
  rw [hsize, hstop]
  exact congrArg some (decide_eq_true hle)

/-- A request that the device accepts gets a place in words, without an overflow. -/
theorem LiesOn.exists_check? (lies : device.LiesOn d) (hlength : d.byteLength < 2 ^ 64)
    (accepts : device.Accepts media block count) :
    ∃ offset, device.check? media block count = some (.ok offset) ∧
      offset.toNat = device.place block := by
  have hbytes : d.byteLength = d.blocks * 512 := rfl
  have hdevice := lies.inside
  have hinside := accepts.inside
  have hplace := lies.place_add_le accepts
  have hblocks := toNat_ofNat_of_le hlength (Nat.le_trans (Nat.le_add_left ..) hdevice)
  have hstart := toNat_ofNat_of_le hlength (Nat.le_trans (Nat.le_add_right ..) hdevice)
  have hcount : (count / 512).toNat = count.toNat / 512 := UInt64.toNat_div ..
  unfold place at hplace ⊢
  -- All sums and the product are at most the size of the disk, and so they are words.
  obtain ⟨stop, hstop, hstopNat⟩ := addWords?_eq_some (a := block) (b := count / 512) (by omega)
  obtain ⟨first, hfirst, hfirstNat⟩ :=
    addWords?_eq_some (a := block) (b := UInt64.ofNat device.start) (by omega)
  obtain ⟨offset, hoffset, hoffsetNat⟩ := mulWords?_eq_some (a := first) (by omega)
  have hwithin : ¬ UInt64.ofNat device.blocks < stop := by
    rw [UInt64.lt_iff_toNat_lt]
    omega
  refine ⟨offset, ?_, by rw [hoffsetNat, hfirstNat, hstart]⟩
  unfold check?
  rw [if_neg (not_not.mpr accepts.media_eq), if_neg (not_not.mpr (whole_iff.mpr accepts.whole))]
  simp only [hstop, if_neg hwithin, hfirst, Option.bind_eq_bind, Option.bind_some, hoffset]
  rfl

/-- A request is refused in words as it is in numbers. -/
theorem LiesOn.check?_of_refusal? (lies : device.LiesOn d) (hlength : d.byteLength < 2 ^ 64)
    {status : Status} (hrefusal : device.refusal? media block count = some status) :
    device.check? media block count = some (.error status) := by
  have hblocks := toNat_ofNat_of_le hlength (Nat.le_trans (Nat.le_add_left ..) lies.inside)
  have hcount : (count / 512).toNat = count.toNat / 512 := UInt64.toNat_div ..
  unfold refusal? at hrefusal
  unfold check?
  split_ifs at hrefusal with hmedia hwhole hinside <;> cases hrefusal
  · rw [if_pos hmedia]
  · rw [if_neg hmedia, if_pos (mt whole_iff.mp hwhole)]
  · rw [if_neg hmedia, if_neg (mt (mt whole_iff.mpr) hwhole)]
    -- The sum of blocks is too large for the device, and perhaps even for a word.
    by_cases hsum : block.toNat + (count / 512).toNat < 2 ^ 64
    · obtain ⟨stop, hstop, hstopNat⟩ := addWords?_eq_some hsum
      have hbehind : UInt64.ofNat device.blocks < stop := by
        rw [UInt64.lt_iff_toNat_lt, hblocks, hstopNat, hcount]
        exact hinside
      simp only [hstop, if_pos hbehind]
    · have hstop : addWords? block (count / 512) = none := if_neg hsum
      simp only [hstop]

end Words

/-! ## The contract -/

section Contract

variable {set : FileSet} {d : VirtualDisk} {device : BlockDevice}

/-- A device on a built disk keeps the contract. -/
theorem LiesOn.contract (lies : device.LiesOn d) (built : Built set d) (storage : Storage σ)
    (media : UInt32) (block count : UInt64) : Contract storage device media block count := by
  obtain rfl := lies.disk_eq
  exact
    { media_changed := fun m =>
        (answer_eq_error_iff (by decide)).trans refusal?_eq_mediaChanged_iff
      bad_buffer_size := fun m =>
        (answer_eq_error_iff (by decide)).trans refusal?_eq_badBufferSize_iff
      invalid_parameter := fun m =>
        (answer_eq_error_iff (by decide)).trans refusal?_eq_invalidParameter_iff
      refused := fun m hrefused => by
        rw [answer_eq]
        cases hrefusal : device.refusal? media block count with
        | some status => rfl
        | none => exact absurd (refusal?_eq_none_iff.mp hrefusal) hrefused
      accepted := fun m accepts => by rw [answer_eq, refusal?_eq_none_iff.mpr accepts]
      inside := lies.place_add_le
      asked := fun accepts r hr hmeets file hfile => by
        rw [← built.length_of_file hr hfile]
        exact (Region.cutsInside (fun data => built.length_of_kept hr) hmeets).inside
      device_error := fun m =>
        answer_eq_deviceError_iff.trans <| and_congr_right fun accepts =>
          exists_congr fun cause => exists_congr fun m' =>
            runOn_read_eq_error_iff built.apart (lies.place_add_le accepts)
      words := by
        have hlength := built.byteLength_lt
        cases hrefusal : device.refusal? media block count with
        | some status =>
            exact ⟨_, lies.check?_of_refusal? hlength hrefusal,
              fun m => by rw [answer_eq, hrefusal]⟩
        | none =>
            have accepts := refusal?_eq_none_iff.mp hrefusal
            obtain ⟨offset, hoffset, hplace⟩ := lies.exists_check? hlength accepts
            have hinside := lies.place_add_le accepts
            rw [← hplace] at hinside
            exact ⟨_, hoffset, accepts, hplace, holds?_eq_true hlength hinside⟩ }

/-- Within the bounds of the partition a block of it is one of the whole disk. -/
theorem place_wholeDisk (built : Built set d) {block : UInt64}
    (hblock : block.toNat ≤ d.partitionBlocks) :
    (block + 0x40).toNat = block.toNat + 0x40 ∧
      (wholeDisk d).place (block + 0x40) = (partition d).place block := by
  have hlength := built.byteLength_lt
  have hbytes : d.byteLength = (0x40 + d.partitionBlocks) * 512 := rfl
  have hword : (block + 0x40).toNat = block.toNat + 0x40 := by
    rw [UInt64.toNat_add]
    exact Nat.mod_eq_of_lt (by show block.toNat + 0x40 < 2 ^ 64; omega)
  refine ⟨hword, ?_⟩
  show ((block + 0x40).toNat + 0) * 512 = (block.toNat + 0x40) * 512
  rw [hword, Nat.add_zero]

/-- Within its bounds the partition is a window of the whole disk. -/
theorem answer_window (built : Built set d) {block count : UInt64}
    (hinside : block.toNat + count.toNat / 512 ≤ d.partitionBlocks) (storage : Storage σ)
    (media : UInt32) (m : Machine σ) :
    ((partition d).answer storage media block count m).1 =
        ((wholeDisk d).answer storage media (block + 0x40) count m).1 ∧
      ∀ data m', (partition d).answer storage media block count m = (.ok data, m') ↔
        (wholeDisk d).answer storage media (block + 0x40) count m = (.ok data, m') := by
  obtain ⟨hword, hplace⟩ := place_wholeDisk built (Nat.le_trans (Nat.le_add_right ..) hinside)
  -- Inside the partition neither device refuses the blocks, so both refuse for the same reason.
  have hrefusal : (wholeDisk d).refusal? media (block + 0x40) count =
      (partition d).refusal? media block count := by
    have hpartition : ¬ (partition d).blocks < block.toNat + count.toNat / 512 :=
      Nat.not_lt.mpr hinside
    have hwhole : ¬ (wholeDisk d).blocks < (block + 0x40).toNat + count.toNat / 512 := by
      have hblocks : (wholeDisk d).blocks = 0x40 + d.partitionBlocks := rfl
      omega
    unfold refusal?
    rw [if_neg hpartition, if_neg hwhole]
    rfl
  rw [answer_eq storage (wholeDisk d), answer_eq storage (partition d), hrefusal, hplace]
  cases (partition d).refusal? media block count with
  | some status => exact ⟨rfl, fun data m' => Iff.rfl⟩
  | none =>
      refine ⟨?_, fun data m' => relay_eq_ok_iff.trans relay_eq_ok_iff.symm⟩
      show (relay _ ((d.read storage _ _).runOn m)).1 = (relay _ ((d.read storage _ _).runOn m)).1
      rcases (d.read storage ((partition d).place block) count.toNat).runOn m with
        ⟨cause | data, m'⟩ <;> rfl

/-- The partition answers the same without what stands before it on the disk. -/
theorem answer_behind (built : Built set d) (storage : Storage σ) (media : UInt32)
    (block count : UInt64) (m : Machine σ) :
    (partition (d.behind (0x40 * 512))).answer storage media block count m =
      (partition d).answer storage media block count m := by
  have hread : (d.behind (0x40 * 512)).read storage ((partition d).place block) count.toNat =
      d.read storage ((partition d).place block) count.toNat :=
    read_behind built.apart storage (Nat.mul_le_mul_right _ (Nat.le_add_left ..)) _
  have hrefusal : (partition (d.behind (0x40 * 512))).refusal? media block count =
      (partition d).refusal? media block count := rfl
  rw [answer_eq storage (partition d), answer_eq, hrefusal]
  cases (partition d).refusal? media block count with
  | some status => rfl
  | none => exact congrArg (fun read => relay block.toNat (Action.runOn read m)) hread

end Contract

/-- Both devices of a built disk keep their contract about each request.  Within its bounds the
partition answers as the whole disk does from block `0x40` on.  A read of the partition takes
nothing of the disk that stands before it, and is the same where that is missing. -/
theorem devices_keep_contract {set : FileSet} {d : VirtualDisk} {m₀ m₁ : Machine σ}
    (hbuild : (VirtualDisk.build set).runOn m₀ = (.ok d, m₁))
    (hused : usedClusters set ≤ maxClusters) (storage : Storage σ) (media : UInt32)
    (block count : UInt64) :
    Contract storage (wholeDisk d) media block count ∧
      Contract storage (partition d) media block count ∧
      (block.toNat + count.toNat / 512 ≤ d.partitionBlocks → ∀ m,
        ((partition d).answer storage media block count m).1 =
          ((wholeDisk d).answer storage media (block + 0x40) count m).1 ∧
        ∀ data m', (partition d).answer storage media block count m = (.ok data, m') ↔
          (wholeDisk d).answer storage media (block + 0x40) count m = (.ok data, m')) ∧
      ((partition d).Accepts media block count → ∀ r ∈ d.regions,
        let low := (partition d).place block
        let high := low + count.toNat
        r.Meets low high → 0x40 * 512 ≤ r.start + (r.segment low high).1 ∧
          r.start + (r.segment low high).1 + (r.segment low high).2 ≤ d.byteLength) ∧
      ∀ m, (partition (d.behind (0x40 * 512))).answer storage media block count m =
        (partition d).answer storage media block count m := by
  have built := built_of_build hbuild hused
  refine ⟨(liesOn_wholeDisk d).contract built storage media block count,
    (liesOn_partition d).contract built storage media block count,
    fun hinside m => answer_window built hinside storage media m, ?_,
    answer_behind built storage media block count⟩
  intro accepts r hr low high hmeets
  have hdisk : high ≤ d.byteLength := (liesOn_partition d).place_add_le accepts
  have hlow : low = (block.toNat + 0x40) * 512 := rfl
  unfold Region.Meets at hmeets
  unfold Region.segment
  simp only
  omega

/-- The sum of the last block number and one block overflows, and is refused; the first block of
the partition is block `0x40` of the disk. -/
theorem crowdedSet_devices_keep_contract :
    ∃ (d : VirtualDisk) (m₁ : Machine Unit),
      (VirtualDisk.build crowdedSet).runOn { world := () } = (.ok d, m₁) ∧
        usedClusters crowdedSet ≤ maxClusters ∧
        (∀ m, ((partition d).answer .absent diskSignature 0xFFFFFFFFFFFFFFFF 512 m).1 =
          .error Status.invalidParameter) ∧
        ∀ m, ((partition d).answer .absent diskSignature 0 512 m).1 =
          ((wholeDisk d).answer .absent diskSignature 0x40 512 m).1 := by
  obtain ⟨hused, d, m₁, hbuild⟩ := build_crowdedSet
  have built := built_of_build hbuild hused
  have hlength := built.byteLength_lt
  have hbytes : d.byteLength = (0x40 + d.partitionBlocks) * 512 := rfl
  refine ⟨d, m₁, hbuild, hused, fun m => ?_, fun m => ?_⟩
  · obtain ⟨-, contract, -, -, -⟩ :=
      devices_keep_contract hbuild hused .absent diskSignature 0xFFFFFFFFFFFFFFFF 512
    refine (contract.invalid_parameter m).mpr ⟨rfl, rfl, ?_⟩
    show d.partitionBlocks < 0xFFFFFFFFFFFFFFFF + 512 / 512
    omega
  · obtain ⟨-, -, hwindow, -, -⟩ := devices_keep_contract hbuild hused .absent diskSignature 0 512
    have hblocks : d.partitionBlocks = _ := built.exact.total
    exact (hwindow (by show 0 + 512 / 512 ≤ d.partitionBlocks; omega) m).1

end BootVolume.BlockDevice
