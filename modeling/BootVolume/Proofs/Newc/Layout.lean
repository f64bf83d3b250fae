import BootVolume.Newc.Layout
import BootVolume.Proofs.Content.Serves
import BootVolume.Proofs.Rounding

/-!
# Sizes and bytes of archives

`exactStop` counts pieces in numbers without a bound, and `bytesFrom` puts their
bytes together as plain values.  As long as the exact size is a 64-bit word,
measuring yields it (`measure_eq`), and over honest sources rendering yields the
bytes in whatever buffer is large enough (`runOn_render`).
-/

namespace BootVolume.Newc

variable {σ : Type}

/-- The position behind a piece that starts at `position`, unless it is a refusal. -/
def Piece.stopAt (position : Nat) : Piece → Option Nat
  | .align => some (align4 position)
  | .bytes data => some (position + data.length)
  | .content entry => some (position + entry.source.length)
  | .refusal _ => none

/-- The position behind pieces, unless one of them is a refusal. -/
def exactStop (position : Nat) : List Piece → Option Nat
  | [] => some position
  | piece :: rest => (piece.stopAt position).bind fun stop => exactStop stop rest

/-- The bytes of a piece at `position`, where each entry has the given content. -/
def Piece.bytesAt (content : Entry → Bytes) (position : Nat) : Piece → Bytes
  | .align => Bytes.zeros (padding position)
  | .bytes data => data
  | .content entry => content entry
  | .refusal _ => []

/-- The bytes of pieces that start at `position`. -/
def bytesFrom (content : Entry → Bytes) (position : Nat) : List Piece → Bytes
  | [] => []
  | piece :: rest =>
      piece.bytesAt content position ++
        bytesFrom content (position + (piece.bytesAt content position).length) rest

theorem exactStop_cons {piece : Piece} {rest : List Piece} {position stop : Nat}
    (h : exactStop position (piece :: rest) = some stop) :
    ∃ middle, piece.stopAt position = some middle ∧ exactStop middle rest = some stop :=
  Option.bind_eq_some_iff.mp h

theorem Piece.le_stopAt {piece : Piece} {position stop : Nat}
    (h : piece.stopAt position = some stop) : position ≤ stop := by
  cases piece with
  | align =>
      cases h
      exact le_align4 _
  | bytes data =>
      cases h
      exact Nat.le_add_right ..
  | content entry =>
      cases h
      exact Nat.le_add_right ..
  | refusal cause => cases h

theorem le_of_exactStop {pieces : List Piece} {position stop : Nat}
    (h : exactStop position pieces = some stop) : position ≤ stop := by
  induction pieces generalizing position with
  | nil => exact Nat.le_of_eq (Option.some.inj h)
  | cons piece rest ih =>
      obtain ⟨middle, hmiddle, hrest⟩ := exactStop_cons h
      exact Nat.le_trans (Piece.le_stopAt hmiddle) (ih hrest)

/-- The bytes of a piece reach to where the piece stops. -/
theorem Piece.add_length_bytesAt {content : Entry → Bytes} {piece : Piece} {position stop : Nat}
    (hstop : piece.stopAt position = some stop)
    (hlength : ∀ entry, piece = .content entry → (content entry).length = entry.source.length) :
    position + (piece.bytesAt content position).length = stop := by
  cases piece with
  | align =>
      cases hstop
      rw [bytesAt, Bytes.length_zeros, add_padding]
  | bytes data =>
      cases hstop
      rfl
  | content entry =>
      cases hstop
      rw [bytesAt, hlength entry rfl]
  | refusal cause => cases hstop

/-- The bytes of pieces reach to where the pieces stop. -/
theorem add_length_bytesFrom {content : Entry → Bytes} {pieces : List Piece} {position stop : Nat}
    (hstop : exactStop position pieces = some stop)
    (hlength : ∀ entry, .content entry ∈ pieces → (content entry).length = entry.source.length) :
    position + (bytesFrom content position pieces).length = stop := by
  induction pieces generalizing position with
  | nil => exact Option.some.inj hstop
  | cons piece rest ih =>
      obtain ⟨middle, hmiddle, hrest⟩ := exactStop_cons hstop
      have hpiece : position + (piece.bytesAt content position).length = middle :=
        Piece.add_length_bytesAt hmiddle fun entry hentry =>
          hlength entry (hentry ▸ List.mem_cons_self ..)
      rw [bytesFrom, List.length_append, ← Nat.add_assoc, hpiece]
      exact ih hrest fun entry hentry => hlength entry (List.mem_cons_of_mem _ hentry)

/-! ## Pieces of an archive -/

section Layout

variable {entry : Entry} {name : String} {dirs : Directories} {inRun : Bool}

theorem recordHead_of_lt (h : (Text.utf8 name).length < Bytes.limit32) (mode filesize : UInt32) :
    recordHead name mode filesize =
      [.bytes (Header.make mode filesize (UInt32.ofNat (Text.utf8 name).length)).encode,
        .bytes (Text.utf8 name), .align] := if_pos h

theorem recordHead_of_le (h : Bytes.limit32 ≤ (Text.utf8 name).length) (mode filesize : UInt32) :
    recordHead name mode filesize = [.refusal (.nameTooLong (Text.utf8 name).length)] :=
  if_neg (Nat.not_lt.mpr h)

theorem layoutFrom_named (hname : entry.name = some name) (rest : List Entry) :
    layoutFrom dirs inRun (entry :: rest) =
      .align :: ((dirs.insertParents name).2.flatMap directoryHead ++
        (fileHead name entry.source.length ++
          .content entry :: layoutFrom (dirs.insertParents name).1 true rest)) := by
  rw [layoutFrom]
  simp only [hname, List.cons_append, List.append_assoc]

theorem layoutFrom_raw (hname : entry.name = none) (rest : List Entry) :
    layoutFrom dirs inRun (entry :: rest) =
      .align :: ((if inRun then trailer else []) ++
        .content entry :: layoutFrom .empty false rest) := by
  rw [layoutFrom]
  simp only [hname, List.cons_append]

theorem content_not_mem_recordHead (entry : Entry) (name : String) (mode filesize : UInt32) :
    .content entry ∉ recordHead name mode filesize := by
  by_cases hlength : (Text.utf8 name).length < Bytes.limit32
  · rw [recordHead_of_lt hlength]
    simp
  · rw [recordHead_of_le (Nat.not_lt.mp hlength)]
    simp

theorem content_not_mem_fileHead (entry : Entry) (name : String) (length : Nat) :
    .content entry ∉ fileHead name length := by
  unfold fileHead
  split
  · exact content_not_mem_recordHead _ _ _ _
  · simp

/-- The contents of an archive are those of its entries. -/
theorem mem_of_content_mem {entries : List Entry}
    (h : .content entry ∈ layoutFrom dirs inRun entries) : entry ∈ entries := by
  induction entries generalizing dirs inRun with
  | nil =>
      cases inRun with
      | false => cases h
      | true =>
          rcases List.mem_cons.mp h with h | h
          · cases h
          · exact absurd h (content_not_mem_recordHead _ _ _ _)
  | cons first rest ih =>
      have hcontent : ∀ {dirs inRun}, .content entry ∈ .content first :: layoutFrom dirs inRun rest →
          entry ∈ first :: rest := by
        intro dirs inRun hmem
        rcases List.mem_cons.mp hmem with hmem | hmem
        · cases hmem
          exact List.mem_cons_self ..
        · exact List.mem_cons_of_mem _ (ih hmem)
      cases hname : first.name with
      | some name =>
          rw [layoutFrom_named hname, List.mem_cons, List.mem_append, List.mem_append] at h
          rcases h with h | h | h | h
          · cases h
          · obtain ⟨dir, -, h⟩ := List.mem_flatMap.mp h
            exact absurd h (content_not_mem_recordHead _ _ _ _)
          · exact absurd h (content_not_mem_fileHead _ _ _)
          · exact hcontent h
      | none =>
          rw [layoutFrom_raw hname, List.mem_cons, List.mem_append] at h
          rcases h with h | h | h
          · cases h
          · cases inRun with
            | false => cases h
            | true =>
                rw [if_pos rfl] at h
                exact absurd h (content_not_mem_recordHead _ _ _ _)
          · exact hcontent h

/-- An archive is empty or starts by filling up to a multiple of four. -/
theorem layoutFrom_cases (dirs : Directories) (inRun : Bool) (entries : List Entry) :
    layoutFrom dirs inRun entries = [] ∨
      ∃ rest, layoutFrom dirs inRun entries = .align :: rest := by
  cases entries with
  | nil =>
      cases inRun with
      | false => exact Or.inl rfl
      | true => exact Or.inr ⟨_, rfl⟩
  | cons entry rest =>
      refine Or.inr ?_
      cases hname : entry.name with
      | some name => exact ⟨_, layoutFrom_named hname rest⟩
      | none => exact ⟨_, layoutFrom_raw hname rest⟩

/-! ## Refusals -/

theorem refusal_not_mem {pieces : List Piece} {position stop : Nat}
    (h : exactStop position pieces = some stop) (cause : ArchiveError) :
    .refusal cause ∉ pieces := by
  induction pieces generalizing position with
  | nil => exact List.not_mem_nil
  | cons piece rest ih =>
      obtain ⟨middle, hmiddle, hrest⟩ := exactStop_cons h
      intro hmem
      rcases List.mem_cons.mp hmem with rfl | hmem
      · cases hmiddle
      · exact ih hrest hmem

theorem name_lt_of_recordHead {mode filesize : UInt32}
    (h : ∀ cause, .refusal cause ∉ recordHead name mode filesize) :
    (Text.utf8 name).length < Bytes.limit32 := by
  by_contra hlong
  rw [recordHead_of_le (Nat.not_lt.mp hlong)] at h
  exact h _ (List.mem_singleton_self _)

theorem lt_of_fileHead {length : Nat} (h : ∀ cause, .refusal cause ∉ fileHead name length) :
    length < Bytes.limit32 ∧ (Text.utf8 name).length < Bytes.limit32 := by
  unfold fileHead at h
  split at h
  · rename_i hlength
    exact ⟨hlength, name_lt_of_recordHead h⟩
  · exact absurd (List.mem_singleton_self _) (h _)

end Layout

/-! ## Measuring -/

theorem alignWord_ofNat {n : Nat} (h : align4 n < 2 ^ 64) :
    alignWord (UInt64.ofNat n) = UInt64.ofNat (align4 n) := by
  have hadd : n + 3 < 2 ^ 64 := by
    unfold align4 at h
    omega
  have hword : (UInt64.ofNat n + 3).toNat = n + 3 := by
    rw [show (3 : UInt64) = UInt64.ofNat 3 from rfl, ← UInt64.ofNat_add]
    exact UInt64.toNat_ofNat_of_lt hadd
  have hround : (UInt64.ofNat (align4 n)).toNat = align4 n := UInt64.toNat_ofNat_of_lt h
  rw [← UInt64.toNat_inj, alignWord, UInt64.toNat_and, hword, hround]
  exact and_highBits (k := 2) hadd (by decide)

theorem measureFrom_eq {pieces : List Piece} {position stop : Nat}
    (h : exactStop position pieces = some stop) (hstop : stop < 2 ^ 64) :
    measureFrom (UInt64.ofNat position) pieces = .ok (UInt64.ofNat stop) := by
  induction pieces generalizing position with
  | nil =>
      cases h
      rfl
  | cons piece rest ih =>
      obtain ⟨middle, hmiddle, hrest⟩ := exactStop_cons h
      have hle := le_of_exactStop hrest
      cases piece with
      | align =>
          cases hmiddle
          rw [measureFrom, alignWord_ofNat (Nat.lt_of_le_of_lt hle hstop), ih hrest]
      | bytes data =>
          cases hmiddle
          rw [measureFrom, ← UInt64.ofNat_add, ih hrest]
      | content entry =>
          cases hmiddle
          rw [measureFrom, ← UInt64.ofNat_add, ih hrest]
      | refusal cause => cases hmiddle

/-- An exact size below the bound of 64-bit words is the size that is measured. -/
theorem measure_eq {entries : List Entry} {size : Nat}
    (h : exactStop 0 (layout entries) = some size) (hsize : size < 2 ^ 64) :
    measure entries = .ok (UInt64.ofNat size) :=
  measureFrom_eq h hsize

/-- Only a refusal keeps pieces from being measured. -/
theorem exists_exactStop {pieces : List Piece} {word size : UInt64}
    (h : measureFrom word pieces = .ok size) (position : Nat) :
    ∃ stop, exactStop position pieces = some stop := by
  induction pieces generalizing word position with
  | nil => exact ⟨position, rfl⟩
  | cons piece rest ih =>
      cases piece with
      | align => exact ih h _
      | bytes data => exact ih h _
      | content entry => exact ih h _
      | refusal cause => cases h

/-- A measured archive that is smaller than the bound of 64-bit words has the measured size. -/
theorem exactStop_of_measure {entries : List Entry} {size : UInt64}
    (h : measure entries = .ok size)
    (hlimit : ∀ total, exactStop 0 (layout entries) = some total → total < 2 ^ 64) :
    exactStop 0 (layout entries) = some size.toNat := by
  obtain ⟨total, htotal⟩ := exists_exactStop h 0
  have hbound := hlimit total htotal
  rw [measure_eq htotal hbound] at h
  rw [htotal, ← Except.ok.inj h]
  exact congrArg some (UInt64.toNat_ofNat_of_lt hbound).symm

/-- If the exact size is larger than the measured one, the sum of the lengths wrapped. -/
theorem le_of_measure_lt {entries : List Entry} {size : UInt64} {total : Nat}
    (h : measure entries = .ok size) (htotal : exactStop 0 (layout entries) = some total)
    (hless : size.toNat < total) : 2 ^ 64 ≤ total := by
  by_contra hlimit
  have hbound : total < 2 ^ 64 := Nat.not_le.mp hlimit
  have hsize : UInt64.ofNat total = size := by
    rw [measure_eq htotal hbound] at h
    exact Except.ok.inj h
  have hexact : size.toNat = total := hsize ▸ UInt64.toNat_ofNat_of_lt hbound
  omega

/-! ## Rendering -/

section Render

variable {storage : Storage σ} {good : Machine σ → Prop} {content : Entry → Bytes}

/-- The bytes of a piece, without a look at the room in the buffer. -/
def Piece.fill (storage : Storage σ) (position : Nat) : Piece → Action σ RenderError Bytes
  | .align => pure (Bytes.zeros (padding position))
  | .bytes data => pure data
  | .content entry =>
      Action.mapError (.read entry.path) (entry.source.readExact storage 0 entry.source.length)
  | .refusal cause => throw (.record cause)

/-- A piece is written if the buffer reaches to where it stops, and reported otherwise. -/
theorem Piece.render_eq {piece : Piece} {position stop : Nat}
    (hstop : piece.stopAt position = some stop) (storage : Storage σ) (available : Nat) :
    piece.render storage available position =
      if stop ≤ available then piece.fill storage position
      else throw (.bufferTooSmall (min stop 0xFFFFFFFFFFFFFFFF) available) := by
  cases piece with
  | align =>
      cases hstop
      rw [render, reserve, add_padding]
      split <;> rfl
  | bytes data =>
      cases hstop
      rw [render, reserve]
      split <;> rfl
  | content entry =>
      cases hstop
      rw [render, reserve]
      split <;> rfl
  | refusal cause => cases hstop

/-- Whatever a piece is filled with reaches to where the piece stops. -/
theorem Piece.length_of_fill {piece : Piece} {position stop : Nat}
    (hstop : piece.stopAt position = some stop) {m m' : Machine σ} {data : Bytes}
    (h : (piece.fill storage position).runOn m = (.ok data, m')) :
    position + data.length = stop := by
  cases piece with
  | align =>
      cases hstop
      cases h
      rw [Bytes.length_zeros, add_padding]
  | bytes data =>
      cases hstop
      cases h
      rfl
  | content entry =>
      cases hstop
      rw [Source.length_of_readExact (Action.runOn_mapError_eq_ok h)]
  | refusal cause => cases hstop

/-- Over honest sources a piece is filled with its bytes. -/
theorem Piece.runOn_fill (content : Entry → Bytes) {piece : Piece} {position stop : Nat}
    (hstop : piece.stopAt position = some stop)
    (honest : ∀ entry, piece = .content entry →
      Honest storage good entry.source (content entry)) {m : Machine σ} (hm : good m) :
    ∃ m', (piece.fill storage position).runOn m = (.ok (piece.bytesAt content position), m') ∧
      good m' := by
  cases piece with
  | align => exact ⟨m, rfl, hm⟩
  | bytes data => exact ⟨m, rfl, hm⟩
  | content entry =>
      obtain ⟨m', hread, hm'⟩ := (honest entry rfl).readExact_whole hm
      exact ⟨m', Action.runOn_mapError_ok hread _, hm'⟩
  | refusal cause => cases hstop

/-- A piece of an honest source is rendered to its bytes, which reach to where it stops. -/
theorem Piece.runOn_render (content : Entry → Bytes) {piece : Piece} {position stop available : Nat}
    (hstop : piece.stopAt position = some stop) (hfits : stop ≤ available)
    (honest : ∀ entry, piece = .content entry →
      Honest storage good entry.source (content entry)) {m : Machine σ} (hm : good m) :
    ∃ m', (piece.render storage available position).runOn m =
        (.ok (piece.bytesAt content position), m') ∧ good m' ∧
      position + (piece.bytesAt content position).length = stop := by
  obtain ⟨m', hfill, hm'⟩ := Piece.runOn_fill content hstop honest hm
  refine ⟨m', ?_, hm', Piece.length_of_fill hstop hfill⟩
  rw [Piece.render_eq hstop, if_pos hfits, hfill]

/-- What is rendered reaches to where the pieces stop, and that lies inside the buffer. -/
theorem length_of_renderFrom {pieces : List Piece} {position stop available : Nat}
    (hstop : exactStop position pieces = some stop) (hposition : position ≤ available)
    {m m' : Machine σ} {data : Bytes}
    (h : (renderFrom storage available position pieces).runOn m = (.ok data, m')) :
    position + data.length = stop ∧ stop ≤ available := by
  induction pieces generalizing position m data with
  | nil =>
      cases hstop
      cases h
      exact ⟨rfl, hposition⟩
  | cons piece rest ih =>
      obtain ⟨middle, hmiddle, hrest⟩ := exactStop_cons hstop
      rw [renderFrom, Piece.render_eq hmiddle] at h
      by_cases hfits : middle ≤ available
      · rw [if_pos hfits] at h
        obtain ⟨head, m₁, hhead, h⟩ := Action.runOn_bind_eq_ok h
        obtain ⟨tail, m₂, htail, h⟩ := Action.runOn_bind_eq_ok h
        cases h
        have hlength := Piece.length_of_fill hmiddle hhead
        rw [hlength] at htail
        rw [List.length_append, ← Nat.add_assoc, hlength]
        exact ih hrest hfits htail
      · rw [if_neg hfits] at h
        cases h

/-- Over honest sources pieces are rendered to their bytes. -/
theorem runOn_renderFrom (content : Entry → Bytes) {pieces : List Piece}
    {position stop available : Nat}
    (hstop : exactStop position pieces = some stop) (hfits : stop ≤ available)
    (honest : ∀ entry, .content entry ∈ pieces →
      Honest storage good entry.source (content entry)) {m : Machine σ} (hm : good m) :
    ∃ m', (renderFrom storage available position pieces).runOn m =
        (.ok (bytesFrom content position pieces), m') ∧ good m' ∧
      position + (bytesFrom content position pieces).length = stop := by
  induction pieces generalizing position m with
  | nil => exact ⟨m, rfl, hm, Option.some.inj hstop⟩
  | cons piece rest ih =>
      obtain ⟨middle, hmiddle, hrest⟩ := exactStop_cons hstop
      obtain ⟨m₁, hpiece, hm₁, hlength⟩ := Piece.runOn_render content hmiddle
        (Nat.le_trans (le_of_exactStop hrest) hfits)
        (fun entry hentry => honest entry (hentry ▸ List.mem_cons_self ..)) hm
      obtain ⟨m₂, hothers, hm₂, hlength'⟩ := ih hrest
        (fun entry hentry => honest entry (List.mem_cons_of_mem _ hentry)) hm₁
      refine ⟨m₂, ?_, hm₂, ?_⟩
      · rw [renderFrom, Action.runOn_bind_ok hpiece, hlength, Action.runOn_bind_ok hothers,
          bytesFrom, hlength, Action.runOn_pure]
      · rw [bytesFrom, List.length_append, hlength, ← Nat.add_assoc, hlength, hlength']

/-- Over honest sources an archive is written to the start of a buffer that holds it. -/
theorem runOn_render {entries : List Entry} {size : Nat}
    (hsize : exactStop 0 (layout entries) = some size) (buffer : Bytes)
    (hfits : size ≤ buffer.length)
    (honest : ∀ entry ∈ entries, Honest storage good entry.source (content entry))
    {m : Machine σ} (hm : good m) :
    ∃ m', (render storage entries buffer).runOn m =
        (.ok ⟨bytesFrom content 0 (layout entries) ++ buffer.drop size, size⟩, m') ∧ good m' ∧
      (bytesFrom content 0 (layout entries)).length = size := by
  obtain ⟨m', hrender, hm', hlength⟩ := runOn_renderFrom content hsize hfits
    (fun entry hentry => honest entry (mem_of_content_mem hentry)) hm
  rw [Nat.zero_add] at hlength
  refine ⟨m', ?_, hm', hlength⟩
  rw [render, Action.runOn_bind_ok hrender, Action.runOn_pure, hlength]

end Render

end BootVolume.Newc
