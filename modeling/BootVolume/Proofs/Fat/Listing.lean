import BootVolume.Proofs.Fat.ShortName
import BootVolume.Proofs.Slices
import BootVolume.Proofs.Text.Hex
import BootVolume.Proofs.Text.Utf16

/-!
# Directories listed again

Listing the slots that `StoredName.encode` writes gives back one entry with the
values that were written and the name that was stored (`listSlots_encode`).  The
long-name slots stand in falling order of their numbers; put in rising order,
their units are those of the name, then a zero, then filling.
-/

namespace BootVolume.Fat

/-! ## Short-name slots -/

theorem slotByte_eq_headD_slice (slot : Bytes) (position : Nat) :
    slotByte slot position = (Bytes.slice slot position 1).headD 0 := by
  unfold slotByte
  rw [List.headD_eq_head?_getD, List.head?_eq_getElem?, Bytes.getElem?_slice, if_pos (by decide),
    List.getD_eq_getElem?_getD]
  rfl

theorem toNat_cluster_words (cluster : UInt32) :
    (cluster >>> 16).toUInt16.toNat * 0x10000 + cluster.toUInt16.toNat = cluster.toNat := by
  have hlt := cluster.toNat_lt
  simp only [UInt32.toNat_toUInt16, UInt32.toNat_shiftRight, UInt32.reduceToNat,
    Nat.shiftRight_eq_div_pow, Nat.reduceMod, Nat.reducePow]
  omega

section Entry

variable (e : DirectoryEntry) (h : e.short.length = 11)

include h

/-- Where the values of an entry stand in its slot. -/
theorem encode_fields :
    Bytes.slice e.encode 0 11 = e.short ∧ Bytes.slice e.encode 11 1 = [e.attributes] ∧
      Bytes.slice e.encode 12 1 = [e.caseFlags] ∧
      Bytes.slice e.encode 20 2 = Bytes.le16 (e.cluster >>> 16).toUInt16 ∧
      Bytes.slice e.encode 26 2 = Bytes.le16 e.cluster.toUInt16 ∧
      Bytes.slice e.encode 28 4 = Bytes.le32 e.size := by
  unfold DirectoryEntry.encode
  simp (disch := simp only [List.length_append, Bytes.length_zeros, Bytes.length_le16,
    Bytes.length_le32, List.length_cons, List.length_nil, h]; omega) only
    [Bytes.slice_append_left, Bytes.slice_append_right]
  simp only [List.length_append, Bytes.length_zeros, Bytes.length_le16, List.length_cons,
    List.length_nil, h, Nat.reduceAdd, Nat.reduceSub, Bytes.slice_self h,
    Bytes.slice_self (Bytes.length_le16 _), Bytes.slice_self (Bytes.length_le32 _), true_and,
    and_true]
  exact ⟨rfl, rfl⟩

theorem slotByte_encode_attributes : slotByte e.encode 11 = e.attributes := by
  rw [slotByte_eq_headD_slice, (encode_fields e h).2.1]
  rfl

theorem slotByte_encode_first : slotByte e.encode 0 = e.short.headD 0 := by
  have hshort := (encode_fields e h).1
  rw [slotByte_eq_headD_slice, ← hshort, Bytes.slice, Bytes.slice, List.drop_zero]
  cases e.encode <;> rfl

theorem ofSlot_encode (parts : List LongPart) :
    Listed.ofSlot parts e.encode =
      { name := if parts.isEmpty then shownShort e.short e.caseFlags else longName parts
        short := e.short
        isLong := !parts.isEmpty
        attributes := e.attributes
        cluster := e.cluster.toNat
        size := e.size.toNat } := by
  obtain ⟨hshort, -, hflags, hhigh, hlow, hsize⟩ := encode_fields e h
  rw [Bytes.slice, List.drop_zero] at hshort
  rw [Listed.ofSlot, hshort, slotByte_encode_attributes e h, slotByte_eq_headD_slice, hflags,
    Bytes.word16, Bytes.word16, Bytes.word32, hhigh, hlow, hsize, Bytes.toNatLE_le16,
    Bytes.toNatLE_le16, toNat_cluster_words, Bytes.toNatLE_le32]
  rfl

/-- A short-name slot is an entry, with whatever long name stands before it. -/
theorem listSlots_encode_cons (hfirst : e.short.headD 0 ≠ 0)
    (hattributes : e.attributes ≠ attrLongName) (parts : List LongPart) (rest : List Bytes) :
    listSlots parts (e.encode :: rest) =
      Listed.ofSlot parts e.encode :: listSlots [] rest := by
  rw [listSlots, if_neg (by rw [slotByte_encode_first e h]; exact hfirst),
    if_neg (by rw [slotByte_encode_attributes e h]; exact hattributes)]

end Entry

/-! ## Long-name slots -/

/-- The units from a position on, up to `count` of them. -/
def unitsFrom (units : List UInt16) (position count : Nat) : List UInt16 :=
  (List.range count).map fun i => longUnit units (position + i)

theorem unitsFrom_add (units : List UInt16) (position first second : Nat) :
    unitsFrom units position (first + second) =
      unitsFrom units position first ++ unitsFrom units (position + first) second := by
  simp [unitsFrom, List.range_add, Nat.add_assoc]

theorem word16_longUnits (units : List UInt16) (position : Nat) {count i : Nat} (hi : i < count) :
    Bytes.word16 (longUnits units position count) (2 * i) =
      (longUnit units (position + i)).toNat := by
  have hsplit : longUnits units position count =
      longUnits units position i ++ Bytes.le16 (longUnit units (position + i)) ++
        ((List.range (count - i - 1)).map (i + 1 + ·)).flatMap
          fun j => Bytes.le16 (longUnit units (position + j)) := by
    have hrange : List.range count = List.range (i + 1) ++
        (List.range (count - i - 1)).map (i + 1 + ·) := by
      rw [← List.range_add]
      congr 1
      omega
    rw [longUnits, hrange, List.range_succ, List.flatMap_append, List.flatMap_append]
    rfl
  have hplace : 2 * i = (longUnits units position i).length := (length_longUnits ..).symm
  have hcount : 2 = (Bytes.le16 (longUnit units (position + i))).length :=
    (Bytes.length_le16 _).symm
  rw [Bytes.word16, hsplit, hplace]
  conv_lhs => rw [hcount]
  rw [Bytes.slice_middle, Bytes.toNatLE_le16]

/-- The units at the place where they were written. -/
theorem unitsAt_of_split (before after : Bytes) {slot : Bytes} {units : List UInt16}
    {offset position count : Nat}
    (hslot : slot = before ++ longUnits units position count ++ after)
    (hoffset : before.length = offset) :
    unitsAt slot offset count = unitsFrom units position count := by
  refine List.map_congr_left fun i hi => ?_
  have hi := List.mem_range.mp hi
  have hlength := length_longUnits units position count
  have hword : Bytes.word16 slot (offset + 2 * i) =
      Bytes.word16 (longUnits units position count) (2 * i) := by
    rw [Bytes.word16, Bytes.word16, hslot, Bytes.slice_append_left
      (by rw [List.length_append, hlength, hoffset]; omega),
      Bytes.slice_append_right (by rw [hoffset]; omega), hoffset, Nat.add_sub_cancel_left]
  rw [hword, word16_longUnits units position hi, UInt16.ofNat_toNat]

theorem longSlot_order {count number : Nat} (hpos : 0 < number) (hle : number ≤ 20) :
    (UInt8.ofNat number ||| if number = count then 0x40 else 0) ≠ 0 ∧
      ((UInt8.ofNat number ||| if number = count then 0x40 else 0) &&& 0x1F).toNat = number := by
  have hall : ∀ n < 21, ∀ flag ∈ [(0x40 : UInt8), 0], 0 < n →
      (UInt8.ofNat n ||| flag) ≠ 0 ∧ ((UInt8.ofNat n ||| flag) &&& 0x1F).toNat = n := by
    decide +kernel
  split
  · exact hall number (by omega) _ (List.mem_cons_self ..) hpos
  · exact hall number (by omega) _ (List.mem_cons_of_mem _ (List.mem_cons_self ..)) hpos

section LongSlot

variable (units : List UInt16) (sum : UInt8) (count : Nat)

/-- What a long-name slot says: its number and the units from its place on. -/
theorem ofSlot_longSlot {number : Nat} (hpos : 0 < number) (hle : number ≤ 20) :
    LongPart.ofSlot (longSlot units sum count number) =
      ⟨number, unitsFrom units ((number - 1) * unitsPerSlot) unitsPerSlot⟩ := by
  set start := (number - 1) * unitsPerSlot with hstart
  set order := UInt8.ofNat number ||| if number = count then 0x40 else 0 with horder
  have hslot : longSlot units sum count number = [order] ++ longUnits units start 5 ++
      [attrLongName, 0, sum] ++ longUnits units (start + 5) 6 ++ [0, 0] ++
      longUnits units (start + 11) 2 := rfl
  have hfirst : unitsAt (longSlot units sum count number) 1 5 = unitsFrom units start 5 :=
    unitsAt_of_split [order] _ (by rw [hslot]; simp only [List.append_assoc]; rfl) rfl
  have hsecond : unitsAt (longSlot units sum count number) 14 6 = unitsFrom units (start + 5) 6 :=
    unitsAt_of_split
      ([order] ++ longUnits units start 5 ++ [attrLongName, 0, sum])
      ([0, 0] ++ longUnits units (start + 11) 2)
      (by rw [hslot]; simp only [List.append_assoc])
      (by simp only [List.length_append, length_longUnits, List.length_cons, List.length_nil])
  have hthird : unitsAt (longSlot units sum count number) 28 2 = unitsFrom units (start + 11) 2 :=
    unitsAt_of_split
      ([order] ++ longUnits units start 5 ++ [attrLongName, 0, sum] ++
        longUnits units (start + 5) 6 ++ [0, 0]) []
      (by rw [hslot, List.append_nil])
      (by simp only [List.length_append, length_longUnits, List.length_cons, List.length_nil])
  have hunits : unitsFrom units start unitsPerSlot =
      unitsFrom units start 5 ++ unitsFrom units (start + 5) 6 ++
        unitsFrom units (start + 11) 2 := by
    rw [← unitsFrom_add, ← unitsFrom_add]
    rfl
  rw [LongPart.ofSlot, hfirst, hsecond, hthird, hunits]
  congr 1
  exact (longSlot_order hpos hle).2

/-- The bytes of a long-name slot that belong to no unit. -/
theorem slotByte_longSlot (number : Nat) :
    slotByte (longSlot units sum count number) 0 =
        UInt8.ofNat number ||| (if number = count then 0x40 else 0) ∧
      slotByte (longSlot units sum count number) 11 = attrLongName ∧
      slotByte (longSlot units sum count number) 13 = sum := by
  refine ⟨rfl, ?_⟩
  rw [slotByte_eq_headD_slice, slotByte_eq_headD_slice]
  have hlength := length_longUnits units ((number - 1) * unitsPerSlot) 5
  unfold longSlot
  simp (disch := simp only [List.length_append, length_longUnits, List.length_cons,
    List.length_nil]; omega) only [Bytes.slice_append_left, Bytes.slice_append_right]
  simp only [List.length_append, hlength, List.length_cons, List.length_nil, Nat.reduceAdd,
    Nat.reduceMul, Nat.reduceSub]
  exact ⟨rfl, rfl⟩

theorem slotsIn_slot {slot : Bytes} (h : slot.length = slotSize) : slotsIn slot = [slot] := by
  rw [slotsIn, h, Nat.div_self (by decide)]
  show [Bytes.slice slot (slotSize * 0) slotSize] = [slot]
  rw [Nat.mul_zero, Bytes.slice_self h]

/-- The slots of a long name are read one after the other, those with the highest number
first. -/
theorem listSlots_longSlotsFrom {number : Nat} (hle : number ≤ 20) (parts : List LongPart)
    (rest : List Bytes) :
    listSlots parts (slotsIn (longSlotsFrom units sum count number) ++ rest) =
      listSlots (parts ++ ((List.range number).map fun i =>
        ⟨i + 1, unitsFrom units (i * unitsPerSlot) unitsPerSlot⟩).reverse) rest := by
  induction number generalizing parts with
  | zero => simp [longSlotsFrom, slotsIn]
  | succ number ih =>
      have hslot := length_longSlot units sum count (number + 1)
      obtain ⟨horder, hlong, -⟩ := slotByte_longSlot units sum count (number + 1)
      have hzero : slotByte (longSlot units sum count (number + 1)) 0 ≠ 0 := by
        rw [horder]
        exact (longSlot_order (Nat.succ_pos number) hle).1
      rw [longSlotsFrom, slotsIn_append _ _ (by rw [hslot]; decide), slotsIn_slot hslot,
        List.cons_append, List.nil_append, List.cons_append, listSlots, if_neg hzero, if_pos hlong,
        ih (by omega), ofSlot_longSlot units sum count (Nat.succ_pos number) hle,
        List.range_succ, List.map_append, List.reverse_append, List.append_assoc]
      rfl

end LongSlot

/-! ## Long names -/

/-- Parts in falling order of their numbers are put in rising order. -/
theorem mergeSort_reverse {parts : List LongPart}
    (h : parts.Pairwise fun a b => a.number < b.number) :
    parts.reverse.mergeSort (fun a b => decide (a.number ≤ b.number)) = parts := by
  have hnodup : (parts.map LongPart.number).Nodup :=
    List.pairwise_map.mpr (h.imp fun hlt => Nat.ne_of_lt hlt)
  have hsorted : (parts.reverse.mergeSort fun a b => decide (a.number ≤ b.number)).Pairwise
      fun a b => decide (a.number ≤ b.number) = true := by
    refine List.pairwise_mergeSort (fun a b c hab hbc => ?_) (fun a b => ?_) _
    · simp only [decide_eq_true_eq] at hab hbc ⊢
      omega
    · simp only [Bool.or_eq_true, decide_eq_true_eq]
      omega
  refine List.Perm.eq_of_pairwise (fun a b ha hb hab hba => ?_) hsorted (h.imp fun hlt => ?_)
    ((List.mergeSort_perm _ _).trans (List.reverse_perm parts))
  · rw [List.mem_mergeSort, List.mem_reverse] at ha
    simp only [decide_eq_true_eq] at hab hba
    exact List.inj_on_of_nodup_map hnodup ha hb (Nat.le_antisymm hab hba)
  · exact decide_eq_true (Nat.le_of_lt hlt)

theorem unitsFrom_length (units : List UInt16) : unitsFrom units 0 units.length = units := by
  refine List.ext_getElem (by simp [unitsFrom]) fun i hi _ => ?_
  have hlt : i < units.length := by simpa [unitsFrom] using hi
  simp [unitsFrom, longUnit, hlt]

/-- The filling of the slots ends a name where a first zero in it would. -/
theorem takeWhile_unitsFrom {units : List UInt16} {count : Nat} (hcount : units.length ≤ count) :
    (unitsFrom units 0 count).takeWhile (· != 0) = units.takeWhile (· != 0) := by
  obtain ⟨filling, rfl⟩ := Nat.exists_eq_add_of_le hcount
  have hfilling : (unitsFrom units (0 + units.length) filling).takeWhile (· != 0) = [] := by
    cases filling with
    | zero => rfl
    | succ filling => simp [unitsFrom, List.range_succ_eq_map, longUnit]
  rw [unitsFrom_add, unitsFrom_length, List.takeWhile_append, hfilling, List.append_nil]
  split
  · rename_i hwhole
    exact ((List.takeWhile_sublist _).eq_of_length hwhole).symm
  · rfl

/-- The units of a long name in the order of its parts, up to the first zero. -/
def longNameUnits (parts : List LongPart) : List UInt16 :=
  ((parts.mergeSort fun a b => decide (a.number ≤ b.number)).flatMap (·.units)).takeWhile (· != 0)

theorem longName_eq (parts : List LongPart) :
    longName parts = Text.ofUtf16Lossy (longNameUnits parts) := rfl

/-- The parts that the slots of a long name hold have its units, up to its first zero. -/
theorem longNameUnits_parts {units : List UInt16} {count : Nat}
    (hcount : units.length ≤ count * unitsPerSlot) :
    longNameUnits ((List.range count).map fun i =>
      ⟨i + 1, unitsFrom units (i * unitsPerSlot) unitsPerSlot⟩).reverse =
        units.takeWhile (· != 0) := by
  have hunits : ∀ n, ((List.range n).map fun i =>
      (⟨i + 1, unitsFrom units (i * unitsPerSlot) unitsPerSlot⟩ : LongPart)).flatMap (·.units) =
        unitsFrom units 0 (n * unitsPerSlot) := by
    intro n
    induction n with
    | zero => rfl
    | succ n ih =>
        rw [List.range_succ, List.map_append, List.flatMap_append, ih, Nat.succ_mul,
          unitsFrom_add, Nat.zero_add]
        simp
  rw [longNameUnits, mergeSort_reverse]
  · rw [hunits, takeWhile_unitsFrom hcount]
  · rw [List.pairwise_map]
    exact List.pairwise_lt_range.imp fun hlt => Nat.succ_lt_succ hlt

/-! ## Stored names -/

/-- The name that an entry under a stored name is shown with. -/
def StoredName.shown (n : StoredName) : String :=
  match n.long with
  | some units => Text.ofUtf16Lossy units
  | none => shownShort n.short n.caseFlags

/-- The name that is listed for an entry under a stored name: a zero ends it. -/
def StoredName.listed (n : StoredName) : String :=
  match n.long with
  | some units => Text.ofUtf16Lossy (units.takeWhile (· != 0))
  | none => shownShort n.short n.caseFlags

theorem takeWhile_utf16 {name : String} (hnul : '\x00' ∉ name.toList) :
    (Text.utf16 name).takeWhile (· != 0) = Text.utf16 name :=
  List.takeWhile_eq_self_iff.mpr fun u hu => by simpa using Text.ne_zero_of_mem_utf16 hnul u hu

theorem StoredName.listed_eq_shown {name : String} {n : StoredName}
    (h : storedName? name = some n) (hnul : '\x00' ∉ name.toList) : n.listed = n.shown := by
  rw [listed, shown]
  cases hlong : n.long with
  | none => rfl
  | some units =>
      rcases storedName?_eq_some h with ⟨-, hnone⟩ | ⟨-, -, -, rfl⟩
      · rw [hnone] at hlong
        cases hlong
      · obtain rfl : Text.utf16 name = units := Option.some.inj hlong
        simp only [takeWhile_utf16 hnul]

/-- A byte of a short name is an ASCII character that can be printed. -/
def IsPrintable (b : UInt8) : Prop := 0x20 ≤ b ∧ b < 0x7F

theorem IsPrintable.ne_zero {b : UInt8} (h : IsPrintable b) : b ≠ 0 := by
  rintro rfl
  exact absurd h.1 (by decide)

/-- No printable byte marks an entry as removed. -/
theorem IsPrintable.ne_removed {b : UInt8} (h : IsPrintable b) : b ≠ 0xE5 := by
  rintro rfl
  exact absurd h.2 (by decide)

theorem isPrintable_of_mem_upperHex {width n : Nat} {b : UInt8} (h : b ∈ Text.upperHex width n) :
    IsPrintable b := by
  obtain ⟨d, hd, rfl⟩ := List.mem_map.mp h
  have hdigits : ∀ d < 16, 0x20 ≤ Text.upperDigit d ∧ Text.upperDigit d < 0x7F := by decide
  exact hdigits d (Text.nibbles_lt _ _ d hd)

theorem isPrintable_of_mem_padUpper {part : List Char} (hchars : part.all isShortChar = true)
    {width : Nat} {b : UInt8} (h : b ∈ padUpper part width) : IsPrintable b := by
  have hupper : ∀ n < 128, isShortChar (Char.ofNat n) = true →
      0x20 ≤ UInt8.ofNat (Char.ofNat n).toUpper.toNat ∧
        UInt8.ofNat (Char.ofNat n).toUpper.toNat < 0x7F := by
    decide +kernel
  rcases List.mem_append.mp h with hpart | hfiller
  · obtain ⟨c, hc, rfl⟩ := List.mem_map.mp (List.mem_of_mem_take hpart)
    have hshort := List.all_eq_true.mp hchars c hc
    have hc := hupper c.toNat (toNat_lt_of_isShortChar hshort)
    rw [Char.ofNat_toNat] at hc
    exact hc hshort
  · rw [List.eq_of_mem_replicate hfiller]
    exact ⟨by decide, by decide⟩

theorem isPrintable_of_mem_short {name : String} {n : StoredName} (h : storedName? name = some n)
    {b : UInt8} (hb : b ∈ n.short) : IsPrintable b := by
  rcases storedName?_eq_some h with ⟨hshort, -⟩ | ⟨-, -, -, rfl⟩
  · obtain ⟨-, -, -, hchars, _, _, -, -, heq, -⟩ := shortForm?_eq_some hshort
    rw [List.all_append, Bool.and_eq_true] at hchars
    rw [heq] at hb
    rcases List.mem_append.mp hb with hb | hb
    · exact isPrintable_of_mem_padUpper hchars.1 hb
    · exact isPrintable_of_mem_padUpper hchars.2 hb
  · rcases List.mem_append.mp hb with hb | hb
    · exact isPrintable_of_mem_upperHex hb
    · refine isPrintable_of_mem_padUpper (List.all_eq_true.mpr ?_) hb
      intro c hc
      exact (List.mem_filter.mp hc).2

theorem isPrintable_headD_short {name : String} {n : StoredName} (h : storedName? name = some n) :
    IsPrintable (n.short.headD 0) := by
  have hlength := length_short_of_storedName? h
  cases hshort : n.short with
  | nil =>
      rw [hshort] at hlength
      cases hlength
  | cons first rest =>
      apply isPrintable_of_mem_short h
      rw [hshort]
      exact List.mem_cons_self ..

/-- The first byte of a short name does not end a directory. -/
theorem headD_short_ne_zero {name : String} {n : StoredName} (h : storedName? name = some n) :
    n.short.headD 0 ≠ 0 :=
  (isPrintable_headD_short h).ne_zero

/-- A stored name is shown as it is, but for a dot at the end of a short one. -/
theorem StoredName.shown_cases {name : String} {n : StoredName} (h : storedName? name = some n) :
    n.shown = name ∨
      n.shown.toList ++ ['.'] = name.toList ∧ n.shown.toList.length ≤ 8 := by
  rcases storedName?_eq_some h with ⟨hshort, hlong⟩ | ⟨-, -, -, rfl⟩
  · rw [StoredName.shown, hlong]
    rcases shownShort_of_shortForm? hshort with hsame | hdot
    · exact Or.inl (String.toList_inj.mp hsame)
    · exact Or.inr hdot
  · exact Or.inl (Text.ofUtf16Lossy_utf16 name)

/-- A longer name that does not end in a dot is found by the name that is shown. -/
theorem StoredName.sameName_shown {name : String} {n : StoredName}
    (h : storedName? name = some n) {target : String} (hlength : 8 < target.toList.length)
    (hdot : (Text.fold target).getLast? ≠ some '.') :
    Text.sameName n.shown target = Text.sameName name target := by
  rcases StoredName.shown_cases h with hshown | ⟨hname, hle⟩
  · rw [hshown]
  · have hshown : Text.sameName n.shown target = false := by
      rw [← Bool.not_eq_true, Text.sameName_iff]
      intro heq
      have := congrArg List.length heq
      simp only [Text.fold, List.length_map] at this
      omega
    have hdotted : Text.sameName name target = false := by
      rw [← Bool.not_eq_true, Text.sameName_iff]
      intro heq
      refine hdot ?_
      rw [← heq, Text.fold, ← hname, List.map_append, List.getLast?_append]
      rfl
    rw [hshown, hdotted]

/-- The units of a long name fill its slots. -/
theorem length_long_le {name : String} {n : StoredName} (h : storedName? name = some n)
    {units : List UInt16} (hlong : n.long = some units) :
    units.length ≤ n.longSlots * unitsPerSlot ∧ n.longSlots ≤ 20 ∧ 0 < n.longSlots := by
  rcases storedName?_eq_some h with ⟨-, hnone⟩ | ⟨-, hne, hle, rfl⟩
  · rw [hnone] at hlong
    cases hlong
  · obtain rfl : Text.utf16 name = units := Option.some.inj hlong
    have hpos := List.length_pos_iff.mpr hne
    unfold maxLongName at hle
    simp only [StoredName.longSlots, unitsPerSlot]
    refine ⟨by omega, by omega, by omega⟩

/-- The slots of a stored name are listed as one entry. -/
theorem listSlots_encode {name : String} {n : StoredName} (h : storedName? name = some n)
    {attributes : UInt8} (hattributes : attributes ≠ attrLongName) (cluster size : UInt32)
    (rest : List Bytes) :
    listSlots [] (slotsIn (n.encode attributes cluster size) ++ rest) =
      { name := n.listed
        short := n.short
        isLong := n.long.isSome
        attributes
        cluster := cluster.toNat
        size := size.toNat } :: listSlots [] rest := by
  have hshort := length_short_of_storedName? h
  have hfirst := headD_short_ne_zero h
  set e : DirectoryEntry :=
    { short := n.short, attributes, caseFlags := n.caseFlags, cluster, size } with he
  have hslot : e.encode.length = slotSize := DirectoryEntry.length_encode e hshort
  cases hlong : n.long with
  | none =>
      have hencode : n.encode attributes cluster size = e.encode := by
        rw [StoredName.encode, hlong]
        rfl
      rw [hencode, slotsIn_slot hslot, List.cons_append, List.nil_append,
        listSlots_encode_cons e hshort hfirst hattributes, ofSlot_encode e hshort]
      simp [StoredName.listed, hlong, he]
  | some units =>
      have hcount := length_long_le h hlong
      have hencode : n.encode attributes cluster size =
          longSlotsFrom units (shortSum n.short) n.longSlots n.longSlots ++ e.encode := by
        rw [StoredName.encode, hlong]
      rw [hencode, slotsIn_append _ _ (by rw [length_longSlotsFrom, Nat.mul_mod_right]),
        List.append_assoc, listSlots_longSlotsFrom _ _ _ hcount.2.1, slotsIn_slot hslot,
        List.nil_append, List.cons_append, List.nil_append,
        listSlots_encode_cons e hshort hfirst hattributes, ofSlot_encode e hshort,
        longName_eq, longNameUnits_parts hcount.1]
      have hparts : n.longSlots ≠ 0 := Nat.ne_of_gt hcount.2.2
      simp [StoredName.listed, hlong, he, hparts]

end BootVolume.Fat
