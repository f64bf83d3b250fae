import BootVolume.Image.Arrangement
import BootVolume.Proofs.Fat.AlikeNames

/-!
# The slots of a file

A file is written to the root directory as the slots of its stored name.
`name_read_back` says for every name whether it can be stored, how its slots are laid
out, and that a driver finds the same name in them again, but for a dot that ends a
short name.  `HasShortForm` tells without the encoder which names are stored in one slot.
-/

namespace BootVolume.Fat

variable {name : String} {n : StoredName} {short : Bytes} {flags : UInt8}
  {base extension : List Char}

/-! ## Names with a short form -/

/-- The parts of a name of the old form: one to eight characters and up to three, all of them
characters of short names, with letters of one case in each part. -/
structure FitsShort (base extension : List Char) : Prop where
  base_ne : base ≠ []
  base_le : base.length ≤ 8
  extension_le : extension.length ≤ 3
  base_chars : base.all isShortChar = true
  extension_chars : extension.all isShortChar = true
  base_case : mixesCase base = false
  extension_case : mixesCase extension = false

/-- A name of the old form: the parts with a dot between them, or a base alone. -/
def HasShortForm (name : String) : Prop :=
  ∃ base extension, FitsShort base extension ∧
    (name.toList = base ++ '.' :: extension ∨ name.toList = base ∧ extension = [])

theorem exists_caseFlag?_iff {part : List Char} (flag : UInt8) :
    (∃ f, caseFlag? part flag = some f) ↔ mixesCase part = false := by
  rw [← Option.isSome_iff_exists, Option.isSome_iff_ne_none, ← Bool.not_eq_true, not_iff_not]
  exact caseFlag?_eq_none_iff flag

theorem FitsShort.of_shortForm? (h : shortForm? name = some (short, flags)) :
    FitsShort (splitExtension name.toList).1 (splitExtension name.toList).2 := by
  obtain ⟨hne, hbase, hextension, hchars, b, e, hb, he, -⟩ := shortForm?_eq_some h
  rw [List.all_append, Bool.and_eq_true] at hchars
  exact {
    base_ne := hne
    base_le := hbase
    extension_le := hextension
    base_chars := hchars.1
    extension_chars := hchars.2
    base_case := (exists_caseFlag?_iff lowerBase).mp ⟨b, hb⟩
    extension_case := (exists_caseFlag?_iff lowerExtension).mp ⟨e, he⟩ }

/-- The parts of a name of the old form are those before and behind its last dot. -/
theorem FitsShort.splitExtension_eq (fits : FitsShort base extension)
    (hname : name.toList = base ++ '.' :: extension ∨ name.toList = base ∧ extension = []) :
    splitExtension name.toList = (base, extension) := by
  have hbase : '.' ∉ base := dot_not_mem_of_isShortChar fits.base_chars
  have hextension : '.' ∉ extension := dot_not_mem_of_isShortChar fits.extension_chars
  rcases splitExtension_cases name.toList with ⟨hsplit, hdot⟩ | ⟨first, last, hsplit, hparts, -⟩
  · rcases hname with hname | ⟨hname, rfl⟩
    · refine absurd ?_ hdot
      rw [hname]
      exact List.mem_append_right _ (List.mem_cons_self ..)
    · rw [hsplit, hname]
  · rcases hname with hname | ⟨hname, rfl⟩
    · rw [hparts] at hname
      obtain ⟨rfl, -, rfl⟩ := (List.append_cons_inj_of_notMem hbase hextension).mp hname.symm
      exact hsplit
    · refine absurd ?_ hbase
      rw [← hname, hparts]
      exact List.mem_append_right _ (List.mem_cons_self ..)

theorem isSome_shortForm?_iff : (shortForm? name).isSome = true ↔ HasShortForm name := by
  constructor
  · intro hsome
    obtain ⟨⟨short, flags⟩, hshort⟩ := Option.isSome_iff_exists.mp hsome
    refine ⟨_, _, FitsShort.of_shortForm? hshort, ?_⟩
    rcases splitExtension_cases name.toList with ⟨hsplit, -⟩ | ⟨first, last, hsplit, hparts, -⟩
    · rw [hsplit]
      exact Or.inr ⟨rfl, rfl⟩
    · rw [hsplit]
      exact Or.inl hparts
  · rintro ⟨base, extension, fits, hname⟩
    obtain ⟨b, hb⟩ := (exists_caseFlag?_iff lowerBase).mpr fits.base_case
    obtain ⟨e, he⟩ := (exists_caseFlag?_iff lowerExtension).mpr fits.extension_case
    have hchars : (base ++ extension).all isShortChar = true := by
      rw [List.all_append, fits.base_chars, fits.extension_chars, Bool.and_self]
    have hshape : base ≠ [] ∧ base.length ≤ 8 ∧ extension.length ≤ 3 ∧
        (base ++ extension).all isShortChar = true :=
      ⟨fits.base_ne, fits.base_le, fits.extension_le, hchars⟩
    rw [shortForm?, fits.splitExtension_eq hname]
    simp only [if_pos hshape, hb, he]
    rfl

theorem shortForm?_eq_none_iff : shortForm? name = none ↔ ¬ HasShortForm name := by
  rw [← isSome_shortForm?_iff, Bool.not_eq_true, Option.isSome_eq_false_iff,
    Option.isNone_iff_eq_none]

theorem isNone_long_iff (h : storedName? name = some n) : n.long = none ↔ HasShortForm name := by
  rw [← isSome_shortForm?_iff]
  rcases storedName?_eq_some h with ⟨hshort, hlong⟩ | ⟨hshort, -, -, rfl⟩
  · rw [hshort]
    exact iff_of_true hlong rfl
  · rw [hshort]
    exact iff_of_false (Option.some_ne_none _) Bool.false_ne_true

theorem not_hasShortForm_empty : ¬ HasShortForm "" := by
  rw [← shortForm?_eq_none_iff]
  decide

/-! ## Slots -/

/-- The slots before the entry of a stored name, in the order in which they are written. -/
def StoredName.longSlotList (n : StoredName) : List Bytes :=
  (List.range n.longSlots).reverse.map fun i =>
    longSlot (n.long.getD []) (shortSum n.short) n.longSlots (i + 1)

theorem slotsIn_longSlotsFrom (units : List UInt16) (sum : UInt8) (count number : ℕ) :
    slotsIn (longSlotsFrom units sum count number) =
      (List.range number).reverse.map fun i => longSlot units sum count (i + 1) := by
  induction number with
  | zero => simp [longSlotsFrom, slotsIn]
  | succ number ih =>
      have hslot := length_longSlot units sum count (number + 1)
      rw [longSlotsFrom, slotsIn_append _ _ (by rw [hslot]; decide), slotsIn_slot hslot, ih,
        List.range_succ, List.reverse_append]
      rfl

theorem slotsIn_encode (hshort : n.short.length = 11) (attributes : UInt8)
    (cluster size : UInt32) :
    slotsIn (n.encode attributes cluster size) = n.longSlotList ++
      [{ short := n.short, attributes, caseFlags := n.caseFlags, cluster, size :
          DirectoryEntry }.encode] := by
  have hslot := DirectoryEntry.length_encode
    { short := n.short, attributes, caseFlags := n.caseFlags, cluster, size } hshort
  unfold StoredName.encode StoredName.longSlotList StoredName.longSlots
  cases n.long with
  | none => exact slotsIn_slot hslot
  | some units =>
      rw [slotsIn_append _ _ (by rw [length_longSlotsFrom, Nat.mul_mod_right]),
        slotsIn_longSlotsFrom, slotsIn_slot hslot]
      rfl

theorem longSlots_le (h : storedName? name = some n) : n.longSlots ≤ 20 := by
  have hslots := slots_le_of_storedName? h
  unfold StoredName.slots at hslots
  omega

/-- The slot at a position holds the part with the number that is left to write. -/
theorem getElem?_longSlotList {i : ℕ} {slot : Bytes} (h : n.longSlotList[i]? = some slot) :
    i < n.longSlots ∧
      slot = longSlot (n.long.getD []) (shortSum n.short) n.longSlots (n.longSlots - i) := by
  obtain ⟨hi, hslot⟩ := List.getElem?_eq_some_iff.mp h
  have hlt : i < n.longSlots := by
    simpa only [StoredName.longSlotList, List.length_map, List.length_reverse,
      List.length_range] using hi
  have hnumber : n.longSlots - 1 - i + 1 = n.longSlots - i := by omega
  refine ⟨hlt, ?_⟩
  rw [← hslot]
  simp only [StoredName.longSlotList, List.getElem_map, List.getElem_reverse, List.length_range,
    List.getElem_range, hnumber]

theorem toNat_longSlot_order {count number : ℕ} (hle : number ≤ 20) :
    (UInt8.ofNat number ||| if number = count then 0x40 else 0).toNat =
      number + if number = count then 0x40 else 0 := by
  have hall : ∀ n < 21, (UInt8.ofNat n ||| 0x40).toNat = n + 0x40 ∧
      (UInt8.ofNat n ||| 0).toNat = n := by
    decide +kernel
  split
  · exact (hall number (by omega)).1
  · exact (hall number (by omega)).2

/-- How the slots of a stored name are laid out: the parts of a long name with falling numbers,
the first of them marked as the last part, and the entry with the short name that they refer
to.  None of them looks like the end of the directory or like an entry that was removed. -/
structure SlotLayout (n : StoredName) (attributes : UInt8) (longs : List Bytes) (entry : Bytes) :
    Prop where
  length_longs : longs.length = n.longSlots
  sequence : ∀ i slot, longs[i]? = some slot →
    (slotByte slot 0).toNat = longs.length - i + if i = 0 then 0x40 else 0
  part : ∀ slot ∈ longs, slotByte slot 11 = attrLongName
  sum : ∀ slot ∈ longs, slotByte slot 13 = shortSum (entry.take 11)
  short : entry.take 11 = n.short
  attributes : slotByte entry 11 = attributes
  caseFlags : slotByte entry 12 = n.caseFlags
  first : ∀ slot ∈ longs ++ [entry], slotByte slot 0 ≠ 0 ∧ slotByte slot 0 ≠ 0xE5

theorem length_longSlotList (n : StoredName) : n.longSlotList.length = n.longSlots := by
  rw [StoredName.longSlotList, List.length_map, List.length_reverse, List.length_range]

theorem sequence_longSlotList (h : storedName? name = some n) {i : ℕ} {slot : Bytes}
    (hslot : n.longSlotList[i]? = some slot) :
    (slotByte slot 0).toNat = n.longSlots - i + if i = 0 then 0x40 else 0 := by
  have hcount := longSlots_le h
  obtain ⟨hlt, rfl⟩ := getElem?_longSlotList hslot
  have hfirst : n.longSlots - i = n.longSlots ↔ i = 0 := by omega
  rw [(slotByte_longSlot ..).1, toNat_longSlot_order (by omega)]
  simp only [hfirst]

theorem marks_longSlotList {slot : Bytes} (hslot : slot ∈ n.longSlotList) :
    slotByte slot 11 = attrLongName ∧ slotByte slot 13 = shortSum n.short := by
  obtain ⟨i, hi⟩ := List.mem_iff_getElem?.mp hslot
  obtain ⟨-, rfl⟩ := getElem?_longSlotList hi
  exact (slotByte_longSlot ..).2

/-- The number of a part neither ends the directory nor marks an entry as removed. -/
theorem first_longSlotList (h : storedName? name = some n) {slot : Bytes}
    (hslot : slot ∈ n.longSlotList) : slotByte slot 0 ≠ 0 ∧ slotByte slot 0 ≠ 0xE5 := by
  have hcount := longSlots_le h
  obtain ⟨i, hi⟩ := List.mem_iff_getElem?.mp hslot
  obtain ⟨hlt, -⟩ := getElem?_longSlotList hi
  have hnumber := sequence_longSlotList h hi
  have hbounds : 0 < (slotByte slot 0).toNat ∧ (slotByte slot 0).toNat < 0xE5 := by
    rw [hnumber]
    split <;> omega
  constructor
  · intro hzero
    rw [hzero] at hbounds
    exact absurd hbounds.1 (by decide)
  · intro hremoved
    rw [hremoved] at hbounds
    exact absurd hbounds.2 (by decide)

theorem slotLayout_of_stored (h : storedName? name = some n) (attributes : UInt8)
    (cluster size : UInt32) :
    SlotLayout n attributes n.longSlotList
      { short := n.short, attributes, caseFlags := n.caseFlags, cluster, size :
        DirectoryEntry }.encode := by
  set e : DirectoryEntry :=
    { short := n.short, attributes, caseFlags := n.caseFlags, cluster, size } with he
  have hlength := length_short_of_storedName? h
  obtain ⟨hshort, -, hflags, -⟩ := encode_fields e hlength
  rw [Bytes.slice, List.drop_zero] at hshort
  refine ⟨length_longSlotList n, ?_, fun slot hslot => (marks_longSlotList hslot).1, ?_, hshort,
    slotByte_encode_attributes e hlength, ?_, ?_⟩
  · intro i slot hslot
    rw [length_longSlotList]
    exact sequence_longSlotList h hslot
  · intro slot hslot
    rw [(marks_longSlotList hslot).2, hshort]
  · rw [slotByte_eq_headD_slice, hflags]
    rfl
  · intro slot hslot
    rcases List.mem_append.mp hslot with hslot | hslot
    · exact first_longSlotList h hslot
    · have hprintable := isPrintable_headD_short h
      rw [List.mem_singleton.mp hslot, slotByte_encode_first e hlength]
      exact ⟨hprintable.ne_zero, hprintable.ne_removed⟩

/-! ## Reading back -/

/-- The parts that a driver finds in the slots of a long name. -/
theorem map_ofSlot_longSlotList (h : storedName? name = some n) :
    n.longSlotList.map LongPart.ofSlot = ((List.range n.longSlots).map fun i =>
      ⟨i + 1, unitsFrom (n.long.getD []) (i * unitsPerSlot) unitsPerSlot⟩).reverse := by
  have hcount := longSlots_le h
  rw [StoredName.longSlotList, List.map_map, ← List.map_reverse]
  refine List.map_congr_left fun i hi => ?_
  have hi := List.mem_range.mp (List.mem_reverse.mp hi)
  exact ofSlot_longSlot _ _ _ (Nat.succ_pos i) (by omega)

/-- The units in the slots of a long name are those of the name, with every surrogate beside its
partner. -/
theorem ofUtf16?_longNameUnits (h : storedName? name = some n) (hnul : '\x00' ∉ name.toList)
    (hlong : n.long.isSome = true) :
    Text.ofUtf16? (longNameUnits (n.longSlotList.map LongPart.ofSlot)) = some name := by
  obtain ⟨units, hunits⟩ := Option.isSome_iff_exists.mp hlong
  have hname : Text.utf16 name = units := by
    rcases storedName?_eq_some h with ⟨-, hnone⟩ | ⟨-, -, -, rfl⟩
    · rw [hnone] at hunits
      cases hunits
    · exact Option.some.inj hunits
  rw [map_ofSlot_longSlotList h, hunits, Option.getD_some,
    longNameUnits_parts (length_long_le h hunits).1, ← hname, takeWhile_utf16 hnul,
    Text.ofUtf16?_utf16]

/-- A name that is stored in one slot although a dot ends it. -/
def EndsInDot (name : String) : Prop := HasShortForm name ∧ name.toList.getLast? = some '.'

/-- A stored name is shown as it is, but for the dot at the end of a short one. -/
theorem shown_of_stored (h : storedName? name = some n) :
    (¬ EndsInDot name → n.shown = name) ∧ (EndsInDot name → n.shown ++ "." = name) := by
  rcases storedName?_eq_some h with ⟨hshort, hlong⟩ | ⟨hshort, -, -, rfl⟩
  · have hform : HasShortForm name := (isNone_long_iff h).mp hlong
    have hshown : n.shown = shownShort n.short n.caseFlags := by
      rw [StoredName.shown, hlong]
    rw [hshown]
    rcases shownShort_of_shortForm? hshort with hsame | ⟨hdot, -⟩
    · have hname := String.toList_inj.mp hsame
      refine ⟨fun _ => hname, ?_⟩
      rintro ⟨-, hlast⟩
      -- A short name is never shown with a dot at its end.
      refine absurd ?_ (getLast?_shownShort hshort)
      rw [hname, Text.fold, List.getLast?_map, hlast]
      rfl
    · constructor
      · intro hends
        refine absurd ⟨hform, ?_⟩ hends
        rw [← hdot, List.getLast?_concat]
      · intro _
        apply String.toList_inj.mp
        rw [String.toList_append, ← hdot]
        rfl
  · refine ⟨fun _ => Text.ofUtf16Lossy_utf16 name, ?_⟩
    rintro ⟨hform, -⟩
    exact absurd hform (shortForm?_eq_none_iff.mp hshort)

/-- An entry that a driver finds under a name. -/
structure ReadsAs (name : String) (n : StoredName) (attributes : UInt8) (cluster size : UInt32)
    (item : Listed) : Prop where
  name_eq : ¬ EndsInDot name → item.name = name
  dot : EndsInDot name → item.name ++ "." = name
  short : item.short = n.short
  isLong : item.isLong = true ↔ ¬ HasShortForm name
  /-- A driver that refuses surrogates without a partner finds the long name as well. -/
  strict : item.isLong = true →
    Text.ofUtf16? (longNameUnits (n.longSlotList.map LongPart.ofSlot)) = some item.name
  attributes : item.attributes = attributes
  cluster : item.cluster = cluster.toNat
  size : item.size = size.toNat

theorem exists_readsAs (h : storedName? name = some n) (hnul : '\x00' ∉ name.toList)
    {attributes : UInt8} (hattributes : attributes ≠ attrLongName) (cluster size : UInt32) :
    ∃ item, listing (n.encode attributes cluster size) = [item] ∧
      ReadsAs name n attributes cluster size item := by
  have hlisted := listSlots_encode h hattributes cluster size []
  obtain ⟨hname, hdot⟩ := shown_of_stored h
  rw [StoredName.listed_eq_shown h hnul, List.append_nil, listSlots] at hlisted
  have hlong : n.long.isSome = true ↔ ¬ HasShortForm name := by
    rw [← isNone_long_iff h, Option.isSome_iff_ne_none]
  refine ⟨_, hlisted, ?_⟩
  exact {
    name_eq := hname
    dot := hdot
    short := rfl
    isLong := hlong
    strict := by
      intro hsome
      have hends : ¬ EndsInDot name := fun hends => hlong.mp hsome hends.1
      rw [ofUtf16?_longNameUnits h hnul hsome]
      exact congrArg some (hname hends).symm
    attributes := rfl
    cluster := rfl
    size := rfl }

/-- A name cannot be stored just if it is empty, or has no short form and more than 255 units.  Any
other name is written in the slots that were counted for it, and as long as it has no NUL, a driver
finds the entry of a file under the same name, less the dot that ends a short one. -/
theorem name_read_back (name : String) :
    (storedName? name = none ↔
      name = "" ∨ ¬ HasShortForm name ∧ 255 < (Text.utf16 name).length) ∧
    ∀ n, storedName? name = some n → ∀ cluster size : UInt32,
      (∀ attributes, (n.encode attributes cluster size).length = 32 * n.slots ∧
        ∃ entry, slotsIn (n.encode attributes cluster size) = n.longSlotList ++ [entry] ∧
          SlotLayout n attributes n.longSlotList entry) ∧
      ('\x00' ∉ name.toList →
        ∃ item, listing (n.encode Image.Arrangement.fileAttributes cluster size) = [item] ∧
          ReadsAs name n Image.Arrangement.fileAttributes cluster size item) := by
  constructor
  · rw [storedName?_eq_none_iff, shortForm?_eq_none_iff]
    constructor
    · rintro ⟨hform, hempty | hlong⟩
      · exact Or.inl hempty
      · exact Or.inr ⟨hform, hlong⟩
    · rintro (rfl | ⟨hform, hlong⟩)
      · exact ⟨not_hasShortForm_empty, Or.inl rfl⟩
      · exact ⟨hform, Or.inr hlong⟩
  · intro n h cluster size
    have hshort := length_short_of_storedName? h
    constructor
    · intro attributes
      exact ⟨StoredName.length_encode hshort attributes cluster size, _,
        slotsIn_encode hshort attributes cluster size,
        slotLayout_of_stored h attributes cluster size⟩
    · intro hnul
      exact exists_readsAs h hnul (by decide) cluster size

/-- A name with several dots and letters of both cases whose 26 units, two surrogate pairs among
them, fill two slots without an end mark. -/
def scoreName : String := "Größe 𝄞.tar.gz.🎼 MixCase"

theorem scoreName_read_back :
    ∃ n item, storedName? scoreName = some n ∧ (Text.utf16 scoreName).length = 26 ∧ n.slots = 3 ∧
      listing (n.encode Image.Arrangement.fileAttributes 5 7) = [item] ∧
      ReadsAs scoreName n Image.Arrangement.fileAttributes 5 7 item ∧ item.name = scoreName := by
  have hshape : (storedName? scoreName).map StoredName.slots = some 3 ∧
      (Text.utf16 scoreName).length = 26 ∧ '\x00' ∉ scoreName.toList ∧
      scoreName.toList.getLast? ≠ some '.' := by
    decide +kernel
  obtain ⟨hstored, hunits, hnul, hlast⟩ := hshape
  obtain ⟨n, hn, hslots⟩ := Option.map_eq_some_iff.mp hstored
  obtain ⟨-, hback⟩ := name_read_back scoreName
  obtain ⟨item, hlisting, hreads⟩ := (hback n hn 5 7).2 hnul
  exact ⟨n, item, hn, hunits, hslots, hlisting, hreads, hreads.name_eq fun hends => hlast hends.2⟩

end BootVolume.Fat
