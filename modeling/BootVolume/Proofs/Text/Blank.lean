import Mathlib
import BootVolume.Text.Blank

/-!
# Words of a line

A blank parts the words of a line: those before it are the words of what stands
before it, and those behind it the words of the rest (`wordsFrom_append_blank`).
So words that are put together with blanks are taken apart again.
-/

namespace BootVolume.Text

/-- A line that has the given words in order, with blanks between them, and maybe blanks before
the first and behind the last one. -/
inductive Spaced : List String → List Char → Prop
  | none : Spaced [] []
  | blank {c : Char} {words : List String} {line : List Char} (hc : isBlank c = true)
      (rest : Spaced words line) : Spaced words (c :: line)
  | last (word : String) : Spaced [word] word.toList
  | word (word : String) {c : Char} {words : List String} {line : List Char}
      (hc : isBlank c = true) (rest : Spaced words line) :
      Spaced (word :: words) (word.toList ++ c :: line)

/-- Something that can be a word: a text with at least one character, none of them blank. -/
def IsWord (text : String) : Prop := text ≠ "" ∧ ∀ c ∈ text.toList, isBlank c = false

instance : DecidablePred IsWord := fun _ => inferInstanceAs (Decidable (_ ∧ _))

theorem wordsFrom_append_blank {c : Char} (hc : isBlank c = true) (word before behind : List Char) :
    wordsFrom word (before ++ c :: behind) = wordsFrom word before ++ wordsFrom [] behind := by
  induction before generalizing word with
  | nil =>
      simp only [List.nil_append, wordsFrom, hc, if_true]
      split <;> rfl
  | cons d before ih =>
      simp only [List.cons_append, wordsFrom]
      split
      · split
        · exact ih []
        · rw [ih [], List.cons_append]
      · exact ih (d :: word)

theorem wordsFrom_of_not_blank {rest : List Char} (h : ∀ c ∈ rest, isBlank c = false)
    (word : List Char) : wordsFrom word rest = wordsFrom (rest.reverse ++ word) [] := by
  induction rest generalizing word with
  | nil => rfl
  | cons c rest ih =>
      obtain ⟨hc, hrest⟩ := List.forall_mem_cons.mp h
      have hstep : wordsFrom word (c :: rest) = wordsFrom (c :: word) rest := by
        simp only [wordsFrom, hc, Bool.false_eq_true, if_false]
      rw [hstep, ih hrest, List.reverse_cons, List.append_assoc, List.singleton_append]

theorem wordsFrom_of_isWord {word : String} (h : IsWord word) :
    wordsFrom [] word.toList = [word] := by
  have hne : word.toList ≠ [] := mt String.toList_eq_nil_iff.mp h.1
  rw [wordsFrom_of_not_blank h.2, List.append_nil, wordsFrom, if_neg (by simpa using hne),
    List.reverse_reverse, String.ofList_toList]

theorem wordsFrom_of_spaced {words : List String} {line : List Char} (h : Spaced words line)
    (hwords : ∀ word ∈ words, IsWord word) : wordsFrom [] line = words := by
  induction h with
  | none => rfl
  | blank hc rest ih => exact (wordsFrom_append_blank hc [] [] _).trans (ih hwords)
  | last word => exact wordsFrom_of_isWord (hwords word (List.mem_singleton_self _))
  | word word hc rest ih =>
      obtain ⟨hword, hrest⟩ := List.forall_mem_cons.mp hwords
      rw [wordsFrom_append_blank hc, wordsFrom_of_isWord hword, ih hrest, List.singleton_append]

theorem isWord_ofList {word : List Char} (hne : word ≠ []) (hblank : ∀ c ∈ word, isBlank c = false) :
    IsWord (String.ofList word.reverse) := by
  constructor
  · intro h
    exact hne (List.reverse_eq_nil_iff.mp (by simpa using congrArg String.toList h))
  · simpa using hblank

/-- The words that `wordsFrom` finds are spaced out over the current word and the line behind
it. -/
theorem spaced_wordsFrom (word : List Char) (hword : ∀ c ∈ word, isBlank c = false)
    (line : List Char) :
    Spaced (wordsFrom word line) (word.reverse ++ line) ∧
      ∀ found ∈ wordsFrom word line, IsWord found := by
  induction line generalizing word with
  | nil =>
      rw [wordsFrom, List.append_nil]
      split
      · rename_i hempty
        rw [List.isEmpty_iff.mp hempty]
        exact ⟨.none, by simp⟩
      · rename_i hne
        have hisWord := isWord_ofList (mt List.isEmpty_iff.mpr hne) hword
        exact ⟨by simpa using Spaced.last (String.ofList word.reverse), by simpa using hisWord⟩
  | cons c line ih =>
      obtain ⟨hrest, hfound⟩ := ih [] (by simp)
      rw [wordsFrom]
      split
      · rename_i hc
        split
        · rename_i hempty
          rw [List.isEmpty_iff.mp hempty]
          exact ⟨.blank hc hrest, hfound⟩
        · rename_i hne
          refine ⟨?_, List.forall_mem_cons.mpr
            ⟨isWord_ofList (mt List.isEmpty_iff.mpr hne) hword, hfound⟩⟩
          simpa using Spaced.word (String.ofList word.reverse) hc hrest
      · rename_i hc
        have hlonger := ih (c :: word)
          (List.forall_mem_cons.mpr ⟨Bool.eq_false_iff.mpr hc, hword⟩)
        rwa [List.reverse_cons, List.append_assoc, List.singleton_append] at hlonger

/-- The words of a line are those that were put together. -/
theorem words_eq_iff {words : List String} {line : String} :
    Text.words line = words ↔
      Spaced words line.toList ∧ ∀ word ∈ words, IsWord word := by
  constructor
  · rintro rfl
    exact spaced_wordsFrom [] (by simp) line.toList
  · rintro ⟨hspaced, hwords⟩
    exact wordsFrom_of_spaced hspaced hwords

end BootVolume.Text
