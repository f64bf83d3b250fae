import BootVolume.Proofs.Slices
import BootVolume.Proofs.Text.Hex

/-!
# Headers read back

A header that is spelled in digits of either case is read back, whatever bytes
follow it and wherever it stands.  A well-formed header is read the same in any
other place and with other bytes behind it (`Header.parse_append`).
-/

namespace BootVolume.Newc

open WrittenRecord (foldDigit)

theorem ok_bind {ε α β : Type} (a : α) (next : α → Except ε β) : (Except.ok a >>= next) = next a :=
  rfl

/-- A chain of checks succeeds just if each of them does. -/
theorem bind_eq_ok {ε α β : Type} {check : Except ε α} {next : α → Except ε β} {b : β} :
    (check >>= next) = .ok b ↔ ∃ a, check = .ok a ∧ next a = .ok b := by
  cases check with
  | error e => exact ⟨fun h => (nomatch h), fun ⟨_, h, _⟩ => (nomatch h)⟩
  | ok a => exact ⟨fun h => ⟨a, rfl, h⟩, fun ⟨_, ha, h⟩ => by cases ha; exact h⟩

namespace Field

theorem all_position (f : Field) : all[f.position]? = some f := by
  cases f <;> rfl

theorem position_lt (f : Field) : f.position < 13 := by
  cases f <;> decide

end Field

namespace Header

variable {h : Header} {text rest data : Bytes} {offset : Nat}

theorem slice_encode (h : Header) (f : Field) :
    Bytes.slice h.encode (6 + 8 * f.position) 8 = Text.lowerHex 8 (h.value f).toNat := by
  have hmagic : magic.length = 6 := rfl
  unfold encode
  rw [Bytes.slice_append_right (by omega), hmagic, Nat.add_sub_cancel_left]
  exact Bytes.slice_flatMap (fun _ => Text.length_lowerHex _ _) f.all_position

theorem length_of_spelled (hspelled : text.map foldDigit = h.encode) :
    text.length = headerLength := by
  rw [← length_encode h, ← hspelled, List.length_map]

theorem parseField_spelled (hspelled : text.map foldDigit = h.encode) (rest : Bytes)
    (offset : Nat) (f : Field) : parseField (text ++ rest) offset f = .ok (h.value f) := by
  have hlength : text.length = 110 := length_of_spelled hspelled
  have hposition := f.position_lt
  have hfield : Text.ofHex? (Bytes.slice (text ++ rest) (6 + 8 * f.position) 8) =
      some (h.value f).toNat := by
    rw [Bytes.slice_append_left (by omega), ← Text.ofHex?_map_foldDigit, ← Bytes.slice_map,
      hspelled, slice_encode]
    exact Text.ofHex?_lowerHex (h.value f).toNat_lt
  unfold parseField
  rw [hfield]
  simp only [UInt32.ofNat_toNat]

theorem take_magic (hspelled : text.map foldDigit = h.encode) (rest : Bytes) :
    (text ++ rest).take 6 = magic := by
  have hlength : text.length = 110 := length_of_spelled hspelled
  have hfolded : (text.take 6).map foldDigit = magic := by
    rw [List.map_take, hspelled]
    rfl
  -- The magic has no letters, so its bytes are as they were before folding.
  have hkept : ∀ b ∈ text.take 6, foldDigit b = b := by
    intro b hb
    have hsmall : ∀ c ∈ magic, c < 97 := by decide +kernel
    have hmem : foldDigit b ∈ magic := hfolded ▸ List.mem_map_of_mem hb
    exact (Text.eq_of_foldDigit_eq rfl (hsmall _ hmem)).symm
  rw [List.take_append_of_le_length (by omega), ← hfolded]
  exact ((List.map_congr_left hkept).trans (List.map_id _)).symm

/-- A header is read back from its digits. -/
theorem parse_spelled (hspelled : text.map foldDigit = h.encode) (rest : Bytes) (offset : Nat) :
    parse (text ++ rest) offset = .ok h := by
  have hlength : text.length = 110 := length_of_spelled hspelled
  have hmagic : ¬ (6 ≤ (text ++ rest).length ∧ (text ++ rest).take 6 ≠ magic) :=
    fun hbad => hbad.2 (take_magic hspelled rest)
  have hlong : ¬ (text ++ rest).length < headerLength := by
    rw [List.length_append, headerLength]
    omega
  unfold parse
  rw [if_neg hmagic, if_neg hlong]
  simp only [parseField_spelled hspelled]
  rfl

/-! ## What is read -/

theorem parse_of_otherMagic (hother : 6 ≤ data.length ∧ data.take 6 ≠ magic) :
    parse data offset = .error (.badMagic offset) := by
  unfold parse
  rw [if_pos hother]
  rfl

theorem parse_of_short (hother : ¬ (6 ≤ data.length ∧ data.take 6 ≠ magic))
    (hshort : data.length < headerLength) : parse data offset = .error (.truncated offset) := by
  unfold parse
  rw [if_neg hother, if_pos hshort]
  rfl

/-- Bytes that are long enough for a header can be asked for the magic. -/
theorem magic_of_long (hother : ¬ (6 ≤ data.length ∧ data.take 6 ≠ magic))
    (hlong : headerLength ≤ data.length) : data.take 6 = magic := by
  by_contra hne
  exact hother ⟨Nat.le_trans (by decide) hlong, hne⟩

/-- A header is read just if the magic is there and each field can be read. -/
theorem parse_eq_ok_iff :
    parse data offset = .ok h ↔
      headerLength ≤ data.length ∧ data.take 6 = magic ∧
        ∀ f, parseField data offset f = .ok (h.value f) := by
  constructor
  · intro hparse
    by_cases hother : 6 ≤ data.length ∧ data.take 6 ≠ magic
    · rw [parse_of_otherMagic hother] at hparse
      cases hparse
    by_cases hshort : data.length < headerLength
    · rw [parse_of_short hother hshort] at hparse
      cases hparse
    have hlong := Nat.not_lt.mp hshort
    refine ⟨hlong, magic_of_long hother hlong, fun f => ?_⟩
    unfold parse at hparse
    rw [if_neg hother, if_neg hshort] at hparse
    simp only [bind_eq_ok] at hparse
    obtain ⟨_, hino, _, hmode, _, huid, _, hgid, _, hnlink, _, hmtime, _, hfilesize, _,
      hdevmajor, _, hdevminor, _, hrdevmajor, _, hrdevminor, _, hnamesize, _, hcheck,
      hheader⟩ := hparse
    cases hheader
    cases f <;> assumption
  · rintro ⟨hlong, hmagic, hfields⟩
    unfold parse
    rw [if_neg fun hbad => hbad.2 hmagic, if_neg (Nat.not_lt.mpr hlong)]
    simp only [hfields]
    rfl

theorem parseField_eq_ok_iff {f : Field} {v : UInt32} :
    parseField data offset f = .ok v ↔
      ∃ n, Text.ofHex? (Bytes.slice data (6 + 8 * f.position) 8) = some n ∧
        UInt32.ofNat n = v := by
  unfold parseField
  cases Text.ofHex? (Bytes.slice data (6 + 8 * f.position) 8) with
  | none => simp
  | some n => simp

/-- What is read depends neither on the bytes behind the header nor on its place. -/
theorem parse_append (hparse : parse data offset = .ok h) (rest : Bytes) (offset' : Nat) :
    parse (data ++ rest) offset' = .ok h := by
  obtain ⟨hlong, hmagic, hfields⟩ := parse_eq_ok_iff.mp hparse
  have hlength : 110 ≤ data.length := hlong
  refine parse_eq_ok_iff.mpr ⟨?_, ?_, fun f => ?_⟩
  · rw [List.length_append]
    exact Nat.le_trans hlong (Nat.le_add_right ..)
  · rw [List.take_append_of_le_length (by omega), hmagic]
  · have hposition := f.position_lt
    obtain ⟨n, hn, hvalue⟩ := parseField_eq_ok_iff.mp (hfields f)
    refine parseField_eq_ok_iff.mpr ⟨n, ?_, hvalue⟩
    rw [Bytes.slice_append_left (by omega), hn]

end Header

end BootVolume.Newc
