import BootVolume.Proofs.Newc.Reader

/-!
# Written records are found

A record that the format allows begins the bytes that it is written to, whatever
follows its content (`WrittenRecord.found_begins`).  A record as this library
writes it is one of these: its header is spelled in lower case, and zeros fill
up its name.
-/

namespace BootVolume.Newc

open WrittenRecord (foldDigit)

/-- The header of this library needs no folding. -/
theorem Header.map_foldDigit_encode (h : Header) : h.encode.map foldDigit = h.encode := by
  have hkept : ∀ b ∈ h.encode, foldDigit b = b := by
    have hmagic : ∀ b ∈ magic, foldDigit b = b := by decide +kernel
    have hdigits : ∀ d < 16, foldDigit (Text.lowerDigit d) = Text.lowerDigit d := by decide
    intro b hb
    rcases List.mem_append.mp hb with hb | hb
    · exact hmagic b hb
    · obtain ⟨f, -, hb⟩ := List.mem_flatMap.mp hb
      obtain ⟨d, hd, rfl⟩ := List.mem_map.mp hb
      exact hdigits d (Text.nibbles_lt _ _ d hd)
  exact (List.map_congr_left hkept).trans (List.map_id _)

namespace WrittenRecord

/-- A record with its name filled up, or with no content behind its name, begins the bytes that
it is written to. -/
theorem found_begins {r : WrittenRecord} (proper : r.IsProper)
    (hfilled : r.namePadding.length = padding (headerLength + r.header.namesize.toNat) ∨
      r.data = [])
    (offset : Nat) (rest : Bytes) :
    (r.found offset).Begins
      (r.headerText ++ (Text.utf8 r.name ++ Bytes.zeros r.nuls ++ (r.namePadding ++
        (r.data ++ rest)))) := by
  have hheader : r.headerText.length = headerLength := Header.length_of_spelled proper.spelled
  have hname : (Text.utf8 r.name ++ Bytes.zeros r.nuls).length = r.header.namesize.toNat := by
    rw [List.length_append, Bytes.length_zeros, proper.name_size]
  have hstart (hpadded : r.namePadding.length =
      padding (headerLength + r.header.namesize.toNat)) :
      (r.headerText ++ (Text.utf8 r.name ++ Bytes.zeros r.nuls ++ r.namePadding)).length =
        recordStart r.header.namesize.toNat := by
    rw [List.length_append, List.length_append, hheader, hname, hpadded, recordStart,
      ← add_padding, Nat.add_assoc]
  have hempty (hdata : r.data = []) : r.header.filesize.toNat = 0 := by
    rw [proper.data_size, hdata, List.length_nil]
  refine ⟨Header.parse_spelled proper.spelled _ offset, ?_, ?_, ?_, ?_⟩
  · show headerLength + r.header.namesize.toNat ≤ _
    rw [List.length_append, hheader, List.length_append, hname]
    omega
  · show Text.ofUtf8? (stripNuls (Bytes.slice _ headerLength r.header.namesize.toNat)) = some r.name
    rw [← hheader, ← hname, ← List.append_assoc, Bytes.slice_middle, stripNuls_append proper.name_end,
      Text.ofUtf8?_utf8]
  · show r.header.filesize.toNat = 0 ∨
      recordStart r.header.namesize.toNat + r.header.filesize.toNat ≤ _
    refine hfilled.symm.imp hempty fun hpadded => ?_
    rw [← hstart hpadded, proper.data_size]
    simp only [List.length_append]
    omega
  · show r.data = Bytes.slice _ (recordStart r.header.namesize.toNat) r.header.filesize.toNat
    rcases hfilled with hpadded | hdata
    · rw [← hstart hpadded, proper.data_size]
      simp only [← List.append_assoc]
      rw [Bytes.slice_middle]
    · rw [hempty hdata, Bytes.slice_zero_count, hdata]

/-- A record as this library writes it, up to its content. -/
def plain (name : String) (mode : UInt32) (data : Bytes) : WrittenRecord where
  gap := 0
  header := Header.make mode (UInt32.ofNat data.length) (UInt32.ofNat (Text.utf8 name).length)
  headerText :=
    (Header.make mode (UInt32.ofNat data.length) (UInt32.ofNat (Text.utf8 name).length)).encode
  name
  nuls := 0
  namePadding := Bytes.zeros (padding (headerLength + (Text.utf8 name).length))
  data
  dataPadding := []

theorem plain_isProper {name : String} {data : Bytes} (hnul : '\x00' ∉ name.toList)
    (hname : (Text.utf8 name).length < Bytes.limit32) (hdata : data.length < Bytes.limit32)
    (mode : UInt32) : (plain name mode data).IsProper where
  spelled := Header.map_foldDigit_encode _
  name_size := by
    show (UInt32.ofNat (Text.utf8 name).length).toNat = (Text.utf8 name).length + 0
    exact UInt32.toNat_ofNat_of_lt hname
  name_end hlast := Text.zero_not_mem_utf8 hnul (List.mem_of_getLast? hlast)
  data_size := UInt32.toNat_ofNat_of_lt hdata

end WrittenRecord

end BootVolume.Newc
