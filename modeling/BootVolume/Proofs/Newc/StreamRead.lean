import BootVolume.Proofs.Newc.Cursor
import BootVolume.Proofs.Newc.Stream

/-!
# Streams read back

A stream is read without a fault, record by record, whatever its archiver chose
where the format leaves a choice (`records_of_stream`).  The induction is on the
records of the stream.  Behind a record with both paddings the reader stands at
the gap before the next one (`recordsFrom_encode_of_padded`); the last record may
end before its paddings do, and then the reader is at the end
(`recordsFrom_encode_of_lastPadded`).
-/

namespace BootVolume.Newc

/-! ## Deciding whether records make up a stream -/

instance : DecidablePred WrittenRecord.IsProper := fun r =>
  decidable_of_iff
    (r.headerText.map WrittenRecord.foldDigit = r.header.encode ∧
      r.header.namesize.toNat = (Text.utf8 r.name).length + r.nuls ∧
      (Text.utf8 r.name).getLast? ≠ some 0 ∧ r.header.filesize.toNat = r.data.length)
    ⟨fun ⟨spelled, name_size, name_end, data_size⟩ => ⟨spelled, name_size, name_end, data_size⟩,
      fun h => ⟨h.spelled, h.name_size, h.name_end, h.data_size⟩⟩

instance : DecidablePred WrittenRecord.IsPadded := fun r =>
  decidable_of_iff
    (r.namePadding.length = padding (headerLength + r.header.namesize.toNat) ∧
      r.dataPadding.length = padding r.data.length)
    ⟨fun ⟨name_padding, data_padding⟩ => ⟨name_padding, data_padding⟩,
      fun h => ⟨h.name_padding, h.data_padding⟩⟩

instance : DecidablePred WrittenRecord.IsLastPadded := fun r =>
  decidable_of_iff
    ((r.namePadding.length = padding (headerLength + r.header.namesize.toNat) ∨
        (r.data = [] ∧ r.dataPadding = [] ∧
          r.namePadding.length ≤ padding (headerLength + r.header.namesize.toNat))) ∧
      r.dataPadding.length ≤ padding r.data.length)
    ⟨fun ⟨name_padding, data_padding⟩ => ⟨name_padding, data_padding⟩,
      fun h => ⟨h.name_padding, h.data_padding⟩⟩

instance decidableIsStream : DecidablePred IsStream
  | [] => inferInstanceAs (Decidable True)
  | [r] => inferInstanceAs (Decidable (r.IsProper ∧ r.IsLastPadded))
  | r :: s :: rest =>
      have : Decidable (IsStream (s :: rest)) := decidableIsStream (s :: rest)
      inferInstanceAs (Decidable (r.IsProper ∧ r.IsPadded ∧ IsStream (s :: rest)))

/-! ## Reading -/

namespace WrittenRecord

variable {r : WrittenRecord}

theorem length_body (proper : r.IsProper) :
    r.body.length = headerLength + r.header.namesize.toNat + r.namePadding.length +
      (r.header.filesize.toNat + r.dataPadding.length) := by
  have hheader : r.headerText.length = headerLength := Header.length_of_spelled proper.spelled
  unfold body
  simp only [List.length_append, Bytes.length_zeros, hheader, proper.name_size, proper.data_size]
  omega

/-- A padded record takes up as many bytes as are written. -/
theorem IsPadded.span_found (padded : r.IsPadded) (proper : r.IsProper) (offset : Nat) :
    (r.found offset).span = r.body.length := by
  rw [length_body proper, padded.name_padding, padded.data_padding, ← proper.data_size, add_padding,
    add_padding]
  rfl

/-- The last record takes up at least the bytes that are written. -/
theorem IsLastPadded.le_span_found (padded : r.IsLastPadded) (proper : r.IsProper)
    (offset : Nat) : r.body.length ≤ (r.found offset).span := by
  have hspan : (r.found offset).span =
      headerLength + r.header.namesize.toNat + padding (headerLength + r.header.namesize.toNat) +
        (r.header.filesize.toNat + padding r.header.filesize.toNat) := by
    rw [add_padding, add_padding]
    rfl
  have hname : r.namePadding.length ≤ padding (headerLength + r.header.namesize.toNat) :=
    padded.name_padding.elim Nat.le_of_eq fun h => h.2.2
  have hdata := padded.data_padding
  rw [← proper.data_size] at hdata
  rw [length_body proper, hspan]
  omega

/-- The gap before a record is skipped, and the record is found behind it. -/
theorem recordsFrom_encode (proper : r.IsProper)
    (hfilled : r.namePadding.length = padding (headerLength + r.header.namesize.toNat) ∨
      r.data = [])
    (offset : Nat) (rest : Bytes) :
    recordsFrom offset (r.encode ++ rest) =
      .ok (r.found (offset + r.gap)) ::
        recordsFrom (offset + r.gap + (r.found (offset + r.gap)).span)
          ((r.body ++ rest).drop (r.found (offset + r.gap)).span) := by
  have begins : (r.found (offset + r.gap)).Begins (r.body ++ rest) := by
    have hbegins := found_begins proper hfilled (offset + r.gap) (r.dataPadding ++ rest)
    simpa only [body, List.append_assoc] using hbegins
  rw [encode, List.append_assoc, recordsFrom_zeros]
  exact recordsFrom_of_begins begins rfl

/-- Behind a padded record the reader goes on with what follows it. -/
theorem recordsFrom_encode_of_padded (proper : r.IsProper) (padded : r.IsPadded)
    (offset : Nat) (rest : Bytes) :
    recordsFrom offset (r.encode ++ rest) =
      .ok (r.found (offset + r.gap)) :: recordsFrom (offset + r.encode.length) rest := by
  rw [recordsFrom_encode proper (Or.inl padded.name_padding), padded.span_found proper,
    List.drop_left, encode, List.length_append, Bytes.length_zeros, Nat.add_assoc]

/-- Behind the last record the reader is at the end. -/
theorem recordsFrom_encode_of_lastPadded (proper : r.IsProper) (padded : r.IsLastPadded)
    (offset : Nat) :
    recordsFrom offset r.encode = [.ok (r.found (offset + r.gap))] := by
  have hle := padded.le_span_found proper (offset + r.gap)
  have hread := recordsFrom_encode proper (padded.name_padding.imp_right And.left) offset []
  rw [List.append_nil, List.append_nil, List.drop_of_length_le hle, recordsFrom_nil] at hread
  exact hread

end WrittenRecord

open WrittenRecord (recordsFrom_encode_of_padded recordsFrom_encode_of_lastPadded)

theorem recordsFrom_streamBytes {rs : List WrittenRecord} (stream : IsStream rs) (offset : Nat) :
    recordsFrom offset (streamBytes rs) = (recordsOf offset rs).map .ok := by
  fun_induction recordsOf offset rs with
  | case1 offset => exact recordsFrom_nil offset
  | case2 offset r rest ih =>
      rw [streamBytes, List.flatMap_cons, List.map_cons]
      -- Only a record with others behind it must be padded to its end.
      cases rest with
      | nil =>
          obtain ⟨proper, padded⟩ := stream
          rw [List.flatMap_nil, List.append_nil]
          exact recordsFrom_encode_of_lastPadded proper padded offset
      | cons s others =>
          obtain ⟨proper, padded, hothers⟩ := stream
          rw [recordsFrom_encode_of_padded proper padded, ← ih hothers]
          rfl

/-- A reader finds exactly the records of a stream, in their order, each with its header, its
name without the NUL bytes, its content and its offset; it meets no fault, and behind the last
record it says that there are no more. -/
theorem records_of_stream {rs : List WrittenRecord} (stream : IsStream rs) :
    records (streamBytes rs) = (recordsOf 0 rs).map .ok ∧
      Cursor.Iterates (streamBytes rs) .start ((recordsOf 0 rs).map .ok) := by
  have hrecords : records (streamBytes rs) = (recordsOf 0 rs).map .ok :=
    recordsFrom_streamBytes stream 0
  exact ⟨hrecords, hrecords ▸ Cursor.iterates_records (streamBytes rs)⟩

/-- A stream that differs from what this library writes wherever it may: digits in upper case,
more than one NUL byte behind a name, paddings that are not zero, zeros between records, and a
trailer that ends with its name. -/
def foreignStream : List WrittenRecord :=
  [{ gap := 3
     header := { ino := 0xabcdef01, mode := modeFile, filesize := 1, namesize := 4 }
     headerText := Bytes.ascii
       ("070701" ++ "ABCDEF01" ++ "000081Ff" ++ "00000000" ++ "00000000" ++ "00000000" ++
        "00000000" ++ "00000001" ++ "00000000" ++ "00000000" ++ "00000000" ++ "00000000" ++
        "00000004" ++ "00000000")
     name := "é"
     nuls := 2
     namePadding := [1, 255]
     data := [7]
     dataPadding := [0, 9, 48] },
   { gap := 5
     header := { mode := modeFile, filesize := 4, namesize := 1, check := 0xffffffff }
     headerText := Bytes.ascii
       ("070701" ++ "00000000" ++ "000081ff" ++ "00000000" ++ "00000000" ++ "00000000" ++
        "00000000" ++ "00000004" ++ "00000000" ++ "00000000" ++ "00000000" ++ "00000000" ++
        "00000001" ++ "fFfFFFff")
     name := "b"
     nuls := 0
     namePadding := [32]
     data := [1, 2, 3, 4]
     dataPadding := [] },
   { gap := 0
     header := { namesize := 11 }
     headerText := ({ namesize := 11 } : Header).encode
     name := trailerName
     nuls := 1
     namePadding := []
     data := []
     dataPadding := [] }]

theorem records_of_foreignStream :
    records (streamBytes foreignStream) =
      [.ok { header := { ino := 0xabcdef01, mode := modeFile, filesize := 1, namesize := 4 }
             name := "é", data := [7], offset := 3 },
       .ok { header := { mode := modeFile, filesize := 4, namesize := 1, check := 0xffffffff }
             name := "b", data := [1, 2, 3, 4], offset := 128 },
       .ok { header := { namesize := 11 }
             name := "TRAILER!!!", data := [], offset := 244 }] := by
  have stream : IsStream foreignStream := by decide +kernel
  have hrecords := (records_of_stream stream).1
  exact hrecords.trans (by decide +kernel)

end BootVolume.Newc
