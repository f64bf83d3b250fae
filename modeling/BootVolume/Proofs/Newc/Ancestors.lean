import Mathlib
import BootVolume.Newc.Directories

/-!
# The directories above a file

`ancestors` scans a path once from left to right.  Two descriptions that do not
follow that scan say what it finds: the paths of the directories are the parts
of the path before a slash, as far as they end in a name (`directoriesAbove`),
and the non-empty segments of such a part are the names of the directories down
to it (`segments`, `Follows`).

Both proofs are inductions on what is still to be read; what has been read,
last character first, is a segment followed by nothing or by a slash.
-/

namespace BootVolume.Newc

/-- Whether the slash at a position of a path ends a name. -/
def endsName (path : List Char) (i : Nat) : Bool :=
  path[i]? == some '/' && decide (0 < i) && path[i - 1]? != some '/'

/-- The directories that a path goes through, shortest first: what stands before each slash
that ends a name. -/
def directoriesAbove (path : String) : List String :=
  ((List.range path.toList.length).filter (endsName path.toList)).map fun i =>
    String.ofList (path.toList.take i)

/-- The non-empty parts of a path between its slashes. -/
def segmentsIn (path : List Char) : List String :=
  ((path.splitOn '/').filter (· ≠ [])).map String.ofList

/-- The non-empty segments of a path. -/
def segments (path : String) : List String := segmentsIn path.toList

/-! ## Segments -/

theorem segmentsIn_nil : segmentsIn [] = [] := rfl

theorem segmentsIn_slash (before after : List Char) :
    segmentsIn (before ++ '/' :: after) = segmentsIn before ++ segmentsIn after := by
  have hsplit : (before ++ '/' :: after).splitOn '/' =
      before.splitOn '/' ++ after.splitOn '/' := List.splitOnP_append_cons _ _ rfl
  simp only [segmentsIn, hsplit, List.filter_append, List.map_append]

theorem segmentsIn_name {name : List Char} (hslash : '/' ∉ name) (hne : name ≠ []) :
    segmentsIn name = [String.ofList name] := by
  have hsplit : name.splitOn '/' = [name] := List.splitOnP_eq_singleton fun c hc =>
    beq_eq_false_iff_ne.mpr fun h => hslash (h ▸ hc)
  simp [segmentsIn, hsplit, hne]

section Scan

variable (read : List Char)

/-- The segment that is being read, last character first. -/
abbrev current : List Char := read.takeWhile (· != '/')

/-- What stands before the segment that is being read, last character first. -/
abbrev earlier : List Char := read.dropWhile (· != '/')

theorem slash_not_mem_current : '/' ∉ current read := fun h => by
  have := List.mem_takeWhile_imp h
  simp at this

theorem earlier_cases : earlier read = [] ∨ ∃ others, earlier read = '/' :: others := by
  cases h : earlier read with
  | nil => exact Or.inl rfl
  | cons c others =>
      have hc := List.head?_dropWhile_not (· != '/') read
      rw [show read.dropWhile (· != '/') = c :: others from h] at hc
      have hc : c = '/' := by simpa using hc
      exact Or.inr ⟨others, by rw [hc]⟩

/-- The segments of what has been read: those before the current one, and that one. -/
theorem segmentsIn_read :
    segmentsIn read.reverse = segmentsIn (earlier read).reverse ++
      if current read = [] then [] else [String.ofList (current read).reverse] := by
  have hcurrent : segmentsIn (current read).reverse =
      if current read = [] then [] else [String.ofList (current read).reverse] := by
    by_cases hempty : current read = []
    · rw [if_pos hempty, hempty]
      rfl
    · rw [if_neg hempty]
      refine segmentsIn_name (fun hmem => slash_not_mem_current read (List.mem_reverse.mp hmem)) ?_
      exact mt List.reverse_eq_nil_iff.mp hempty
  have hread : read.reverse = (earlier read).reverse ++ (current read).reverse := by
    rw [← List.reverse_append, List.takeWhile_append_dropWhile]
  rw [hread, ← hcurrent]
  rcases earlier_cases read with hnone | ⟨others, hslash⟩
  · rw [hnone]
    rfl
  · rw [hslash, List.reverse_cons, List.append_assoc, List.singleton_append, segmentsIn_slash,
      segmentsIn_slash, segmentsIn_nil, List.append_nil]

end Scan

/-! ## What the scan finds -/

/-- Directories of which each stands in the one before it, the first in a directory with the
given names above it. -/
def Follows (above : List String) : List Ancestor → Prop
  | [] => True
  | a :: rest => segments a.path = above ++ [a.name] ∧ Follows (above ++ [a.name]) rest

theorem follows_ancestorsFrom (read rest : List Char) :
    Follows (segmentsIn (earlier read).reverse) (ancestorsFrom read (current read) rest) := by
  induction rest generalizing read with
  | nil => trivial
  | cons c rest ih =>
      have hnext := ih (c :: read)
      by_cases hc : c = '/'
      · subst hc
        have hearlier : segmentsIn (earlier ('/' :: read)).reverse = segmentsIn read.reverse := by
          show segmentsIn ('/' :: read).reverse = _
          rw [List.reverse_cons, segmentsIn_slash, segmentsIn_nil, List.append_nil]
        rw [hearlier, segmentsIn_read] at hnext
        rw [ancestorsFrom, if_pos rfl]
        by_cases hempty : current read = []
        · rw [if_pos hempty, List.append_nil] at hnext
          rw [if_pos (List.isEmpty_iff.mpr hempty)]
          exact hnext
        · rw [if_neg hempty] at hnext
          rw [if_neg (mt List.isEmpty_iff.mp hempty)]
          refine ⟨?_, hnext⟩
          rw [segments, String.toList_ofList, segmentsIn_read, if_neg hempty]
      · have hcurrent : current (c :: read) = c :: current read :=
          List.takeWhile_cons_of_pos (by simpa using hc)
        have hearlier : earlier (c :: read) = earlier read :=
          List.dropWhile_cons_of_pos (by simpa using hc)
        rw [hcurrent, hearlier] at hnext
        rw [ancestorsFrom, if_neg hc]
        exact hnext

/-- The segments of the paths of the directories above a file are their names from the
outermost one down. -/
theorem follows_ancestors (path : String) : Follows [] (ancestors path) :=
  follows_ancestorsFrom [] path.toList

/-- The next character ends a name if it is a slash and a segment has been read. -/
theorem endsName_next (read rest : List Char) (c : Char) :
    endsName (read.reverse ++ c :: rest) read.length = true ↔ c = '/' ∧ current read ≠ [] := by
  have hat : (read.reverse ++ c :: rest)[read.length]? = some c := by
    rw [List.getElem?_append_right (by rw [List.length_reverse]), List.length_reverse,
      Nat.sub_self]
    rfl
  rw [endsName, hat]
  cases read with
  | nil => simp
  | cons d others =>
      have hbefore : ((d :: others).reverse ++ c :: rest)[others.length]? = some d := by
        rw [List.getElem?_append_left (by simp), List.reverse_cons,
          List.getElem?_append_right (by rw [List.length_reverse]), List.length_reverse,
          Nat.sub_self]
        rfl
      rw [List.length_cons, Nat.add_sub_cancel, hbefore]
      by_cases hd : d = '/' <;> simp [hd]

theorem map_path_ancestorsFrom (read rest : List Char) :
    (ancestorsFrom read (current read) rest).map Ancestor.path =
      ((List.range' read.length rest.length).filter (endsName (read.reverse ++ rest))).map
        fun i => String.ofList ((read.reverse ++ rest).take i) := by
  induction rest generalizing read with
  | nil => rfl
  | cons c rest ih =>
      have hwhole : (c :: read).reverse ++ rest = read.reverse ++ c :: rest := by
        rw [List.reverse_cons, List.append_assoc, List.singleton_append]
      have hends := endsName_next read rest c
      have hnext := ih (c :: read)
      rw [hwhole, List.length_cons] at hnext
      rw [List.length_cons, List.range'_succ, ancestorsFrom]
      by_cases hc : c = '/'
      · subst hc
        rw [if_pos rfl]
        by_cases hempty : current read = []
        · rw [if_pos (List.isEmpty_iff.mpr hempty),
            List.filter_cons_of_neg fun h => (hends.mp h).2 hempty]
          exact hnext
        · rw [if_neg (mt List.isEmpty_iff.mp hempty),
            List.filter_cons_of_pos (hends.mpr ⟨rfl, hempty⟩), List.map_cons, List.map_cons,
            List.take_left' (List.length_reverse ..)]
          exact congrArg (_ :: ·) hnext
      · have hcurrent : current (c :: read) = c :: current read :=
          List.takeWhile_cons_of_pos (by simpa using hc)
        rw [hcurrent] at hnext
        rw [if_neg hc, List.filter_cons_of_neg fun h => hc (hends.mp h).1]
        exact hnext

/-- The scan finds the parts of the path before the slashes that end a name. -/
theorem map_path_ancestors (path : String) :
    (ancestors path).map Ancestor.path = directoriesAbove path := by
  rw [directoriesAbove, List.range_eq_range']
  exact map_path_ancestorsFrom [] path.toList

/-! ## Directories of a chain that are new -/

theorem length_lt_of_follows {above : List String} {chain : List Ancestor}
    (h : Follows above chain) : ∀ a ∈ chain, above.length < (segments a.path).length := by
  induction chain generalizing above with
  | nil => exact nofun
  | cons a rest ih =>
      obtain ⟨hpath, hrest⟩ := h
      refine List.forall_mem_cons.mpr ⟨?_, fun b hb => ?_⟩
      · rw [hpath, List.length_append]
        exact Nat.lt_succ_self _
      · have := ih hrest b hb
        rw [List.length_append] at this
        omega

/-- The directories of a chain whose segments were not seen. -/
def newIn (seen : List (List String)) (chain : List Ancestor) : List Ancestor :=
  chain.filter fun a => !seen.contains (segments a.path)

theorem mem_newIn_iff {seen : List (List String)} {chain : List Ancestor} {a : Ancestor} :
    a ∈ newIn seen chain ↔ a ∈ chain ∧ segments a.path ∉ seen := by
  simp [newIn]

theorem newIn_congr {seen seen' : List (List String)} (h : ∀ dir, dir ∈ seen ↔ dir ∈ seen')
    (chain : List Ancestor) : newIn seen chain = newIn seen' chain := by
  apply List.filter_congr
  intro a _
  simp only [List.contains_eq_mem, h]

theorem newIn_cons_of_mem {seen : List (List String)} {a : Ancestor} (rest : List Ancestor)
    (h : segments a.path ∈ seen) : newIn seen (a :: rest) = newIn seen rest :=
  List.filter_cons_of_neg (by simpa using h)

/-- A directory that is new makes none of those in it old. -/
theorem newIn_cons_of_not_mem {seen : List (List String)} {above : List String} {a : Ancestor}
    {rest : List Ancestor} (hchain : Follows above (a :: rest)) (h : segments a.path ∉ seen) :
    newIn seen (a :: rest) = a :: newIn (seen ++ [segments a.path]) rest := by
  rw [newIn, List.filter_cons_of_pos (by simpa using h)]
  congr 1
  apply List.filter_congr
  intro b hb
  have hlonger := length_lt_of_follows hchain.2 b hb
  rw [← hchain.1] at hlonger
  have hne : segments b.path ≠ segments a.path := fun heq => by
    rw [heq] at hlonger
    omega
  simp [hne]

end BootVolume.Newc
