import BootVolume.Proofs.Newc.Ancestors

/-!
# Directories linked by their places

The directories of a run can be kept in a table instead of a forest.  Each holds
the places of the next directory beside it and of the first one in it, and a
search follows these places.  It has no value where a place lies outside the
table, and none where the links go round in a circle.

That this never happens follows from what the table looks like
(`Links.linked`).  A directory is entered in front of those beside it, so its
link leads to the newest of the directories that were there already, and along
the links places only become smaller.  The table is thus determined by the list
of directories in the order in which they were entered, and entering one more
adds it to the list (`Links.insert?_linked`).
-/

namespace BootVolume.Newc

/-- A directory in a table: the next one beside it, and the first one in it. -/
structure Node where
  name : String
  next : Option Nat
  inside : Option Nat
  deriving DecidableEq

/-- A table of directories, and the place of the first outermost one. -/
structure Links where
  nodes : List Node
  top : Option Nat
  deriving DecidableEq

namespace Links

/-- A table without directories. -/
def empty : Links := ⟨[], none⟩

/-- The first directory in another one, or the first outermost one. -/
def firstIn? (links : Links) : Option Nat → Option (Option Nat)
  | none => some links.top
  | some place => (links.nodes[place]?).map Node.inside

/-- Follow the links from a directory on, past no more than `steps` others, until one has the
name that is sought. -/
def findWithin? (nodes : List Node) (name : String) (steps : Nat) :
    Option Nat → Option (Option Nat)
  | none => some none
  | some place =>
      match steps with
      | 0 => none
      | steps + 1 =>
          match nodes[place]? with
          | none => none
          | some node =>
              if node.name = name then some (some place)
              else findWithin? nodes name steps node.next

/-- Follow the links from a directory on until one has the name that is sought.  A search that
passes more directories than there are goes round in a circle. -/
def find? (nodes : List Node) (name : String) (start : Option Nat) : Option (Option Nat) :=
  findWithin? nodes name nodes.length start

/-- Make a directory the first one in another one. -/
def putFirst? (links : Links) (place : Nat) : Option Nat → Option Links
  | none => some { links with top := some place }
  | some parent =>
      if parent < links.nodes.length then
        some { links with
          nodes := links.nodes.modify parent fun node => { node with inside := some place } }
      else none

/-- Enter a directory behind all others in the table, in front of those beside it. -/
def add? (links : Links) (parent : Option Nat) (name : String) : Option Links := do
  let first ← links.firstIn? parent
  putFirst? { links with nodes := links.nodes ++ [⟨name, first, none⟩] } links.nodes.length parent

/-- Enter a chain of directories, and give those that are new. -/
def insert? (links : Links) (parent : Option Nat) :
    List Ancestor → Option (Links × List Ancestor)
  | [] => some (links, [])
  | a :: rest => do
      match ← find? links.nodes a.name (← links.firstIn? parent) with
      | some place => links.insert? (some place) rest
      | none =>
          let grown ← links.add? parent a.name
          let (result, created) ← grown.insert? (some links.nodes.length) rest
          return (result, a :: created)

/-- Enter the ancestors of a path, and give those that are new. -/
def insertParents? (links : Links) (path : String) : Option (Links × List Ancestor) :=
  links.insert? none (ancestors path)

/-- The links from a directory on lead to directories with the given names, and end there. -/
inductive Chain (nodes : List Node) : Option Nat → List String → Prop
  | stop : Chain nodes none []
  | link {place : Nat} {node : Node} {names : List String} (h : nodes[place]? = some node)
      (rest : Chain nodes node.next names) : Chain nodes (some place) (node.name :: names)

/-! ## The table of a list of directories -/

/-- The last of the first `n` directories that stands directly in a given one. -/
def newest (dirs : List (List String)) (above : List String) : Nat → Option Nat
  | 0 => none
  | n + 1 => if (dirs[n]?).map List.dropLast = some above then some n else newest dirs above n

/-- What the table has at the place of a directory. -/
def nodeAt (dirs : List (List String)) (place : Nat) (dir : List String) : Node where
  name := dir.getLastD ""
  next := newest dirs dir.dropLast place
  inside := newest dirs dir dirs.length

/-- The table of directories that were entered in the given order. -/
def linked (dirs : List (List String)) : Links where
  nodes := dirs.mapIdx (nodeAt dirs)
  top := newest dirs [] dirs.length

/-- Directories that can have been entered in this order: none twice, and each behind the one
that it stands in. -/
structure Entered (dirs : List (List String)) : Prop where
  nonempty : [] ∉ dirs
  nodup : dirs.Nodup
  parents : ∀ place dir, dirs[place]? = some dir → dir.dropLast ≠ [] →
    dir.dropLast ∈ dirs.take place

/-- A place in the table, or the outside of it, that belongs to a directory. -/
def Leads (dirs : List (List String)) (parent : Option Nat) (above : List String) : Prop :=
  match parent with
  | none => above = []
  | some place => dirs[place]? = some above

section Table

variable {dirs : List (List String)} {above dir : List String} {name : String}
  {parent : Option Nat}

theorem nodes_linked (dirs : List (List String)) (place : Nat) :
    (linked dirs).nodes[place]? = (dirs[place]?).map (nodeAt dirs place) :=
  List.getElem?_mapIdx

theorem length_linked (dirs : List (List String)) : (linked dirs).nodes.length = dirs.length :=
  List.length_mapIdx

theorem firstIn?_linked (h : Leads dirs parent above) :
    (linked dirs).firstIn? parent = some (newest dirs above dirs.length) := by
  cases parent with
  | none =>
      have hnone : above = [] := h
      rw [hnone]
      rfl
  | some place =>
      have hplace : dirs[place]? = some above := h
      rw [firstIn?, nodes_linked, hplace]
      rfl

theorem newest_eq_none (h : ∀ dir ∈ dirs, dir.dropLast ≠ above) (n : Nat) :
    newest dirs above n = none := by
  induction n with
  | zero => rfl
  | succ n ih =>
      rw [newest, if_neg, ih]
      intro hn
      obtain ⟨dir, hdir, heq⟩ := Option.map_eq_some_iff.mp hn
      exact h dir (List.mem_of_getElem? hdir) heq

theorem newest_append (more : List (List String)) {n : Nat} (hn : n ≤ dirs.length) :
    newest (dirs ++ more) above n = newest dirs above n := by
  induction n with
  | zero => rfl
  | succ n ih =>
      rw [newest, newest, List.getElem?_append_left hn, ih (Nat.le_of_succ_le hn)]

theorem newest_concat (dirs : List (List String)) (above dir : List String) :
    newest (dirs ++ [dir]) above (dirs ++ [dir]).length =
      if dir.dropLast = above then some dirs.length else newest dirs above dirs.length := by
  rw [List.length_append, List.length_singleton, newest, List.getElem?_concat_length,
    newest_append [dir] (Nat.le_refl _)]
  simp only [Option.map_some, Option.some.injEq]

theorem newest_succ {n : Nat} (hn : n < dirs.length) (above : List String) :
    newest dirs above (n + 1) =
      if dirs[n].dropLast = above then some n else newest dirs above n := by
  rw [newest, List.getElem?_eq_getElem hn]
  simp only [Option.map_some, Option.some.injEq]

theorem nodes_linked_of_lt {n : Nat} (hn : n < dirs.length) :
    (linked dirs).nodes[n]? = some (nodeAt dirs n dirs[n]) := by
  rw [nodes_linked, List.getElem?_eq_getElem hn, Option.map_some]

theorem eq_concat_iff (hdir : dir ≠ []) :
    dir = above ++ [name] ↔ dir.dropLast = above ∧ dir.getLastD "" = name := by
  constructor
  · rintro rfl
    simp
  · rintro ⟨rfl, rfl⟩
    rw [List.getLastD_eq_getLast?, List.getLast?_eq_some_getLast hdir, Option.getD_some,
      List.dropLast_append_getLast]

/-- A directory that was entered is the one sought if it stands in the same one and has the same
name. -/
theorem Entered.getElem_eq_iff (entered : Entered dirs) {n : Nat} (hn : n < dirs.length)
    (above : List String) (name : String) :
    dirs[n] = above ++ [name] ↔ dirs[n].dropLast = above ∧ dirs[n].getLastD "" = name :=
  eq_concat_iff fun hnil => entered.nonempty (hnil ▸ List.getElem_mem hn)

/-- Unless the newest directory is the one sought, an older one is. -/
theorem older_iff {n : Nat} (hn : n < dirs.length) (hne : dirs[n] ≠ dir) (place : Nat) :
    place < n ∧ dirs[place]? = some dir ↔ place < n + 1 ∧ dirs[place]? = some dir := by
  constructor
  · exact fun h => ⟨Nat.lt_succ_of_lt h.1, h.2⟩
  · rintro ⟨hplace, heq⟩
    refine ⟨Nat.lt_of_le_of_ne (Nat.le_of_lt_succ hplace) ?_, heq⟩
    rintro rfl
    exact hne (Option.some.inj ((List.getElem?_eq_getElem hn).symm.trans heq))

/-- Along the links of the directories in another one, older ones are found by their names, past
no more directories than are older. -/
theorem findWithin?_newest (entered : Entered dirs) (above : List String) (name : String) {n : Nat}
    (hn : n ≤ dirs.length) {steps : Nat} (hsteps : n ≤ steps) :
    ∃ found, findWithin? (linked dirs).nodes name steps (newest dirs above n) = some found ∧
      ∀ place, found = some place ↔ place < n ∧ dirs[place]? = some (above ++ [name]) := by
  induction n generalizing steps with
  | zero =>
      refine ⟨none, ?_, fun place => ?_⟩
      · rw [newest, findWithin?]
      · simp
  | succ n ih =>
      have hsought := entered.getElem_eq_iff hn above name
      rw [newest_succ hn]
      by_cases habove : dirs[n].dropLast = above
      · obtain ⟨steps, rfl⟩ := Nat.exists_eq_add_of_le' (Nat.le_trans (Nat.le_add_left 1 n) hsteps)
        rw [if_pos habove, findWithin?, nodes_linked_of_lt hn]
        by_cases hname : dirs[n].getLastD "" = name
        · refine ⟨some n, if_pos hname, fun place => ?_⟩
          have hhere := hsought.mpr ⟨habove, hname⟩
          constructor
          · intro h
            cases h
            exact ⟨Nat.lt_succ_self n, hhere ▸ List.getElem?_eq_getElem hn⟩
          · rintro ⟨hplace, heq⟩
            rw [← hhere, ← List.getElem?_eq_getElem hn] at heq
            exact congrArg some ((List.getElem?_inj hn entered.nodup).mp heq.symm)
        · obtain ⟨found, hfind, hfound⟩ :=
            ih (Nat.le_of_succ_le hn) (Nat.le_of_succ_le_succ hsteps)
          refine ⟨found, (if_neg hname).trans ?_, fun place => ?_⟩
          · show findWithin? _ name steps (newest dirs dirs[n].dropLast n) = some found
            rw [habove]
            exact hfind
          · have hne : dirs[n] ≠ above ++ [name] := fun heq => hname (hsought.mp heq).2
            exact (hfound place).trans (older_iff hn hne place)
      · obtain ⟨found, hfind, hfound⟩ := ih (Nat.le_of_succ_le hn) (Nat.le_of_succ_le hsteps)
        have hne : dirs[n] ≠ above ++ [name] := fun heq => habove (hsought.mp heq).1
        rw [if_neg habove]
        exact ⟨found, hfind, fun place => (hfound place).trans (older_iff hn hne place)⟩

/-- A search among the directories in another one ends, and finds by its name what is there. -/
theorem find?_newest (entered : Entered dirs) (above : List String) (name : String) :
    ∃ found, find? (linked dirs).nodes name (newest dirs above dirs.length) = some found ∧
      ∀ place, found = some place ↔ dirs[place]? = some (above ++ [name]) := by
  rw [find?, length_linked]
  obtain ⟨found, hfind, hfound⟩ :=
    findWithin?_newest entered above name (Nat.le_refl dirs.length) (Nat.le_refl _)
  refine ⟨found, hfind, fun place => ?_⟩
  rw [hfound, and_iff_right_of_imp]
  exact fun hplace => (List.getElem?_eq_some_iff.mp hplace).1

/-- The links of the directories in another one lead to all of them and end there, and no two of
them have one name. -/
theorem chain_newest (entered : Entered dirs) (above : List String) {n : Nat}
    (hn : n ≤ dirs.length) :
    ∃ names, Chain (linked dirs).nodes (newest dirs above n) names ∧ names.Nodup ∧
      ∀ name, name ∈ names ↔ above ++ [name] ∈ dirs.take n := by
  induction n with
  | zero => exact ⟨[], .stop, .nil, by simp⟩
  | succ n ih =>
      obtain ⟨names, hchain, hnodup, hnames⟩ := ih (Nat.le_of_succ_le hn)
      have hsought := entered.getElem_eq_iff hn above
      have htake : ∀ name, above ++ [name] ∈ dirs.take (n + 1) ↔
          above ++ [name] ∈ dirs.take n ∨ dirs[n] = above ++ [name] := by
        intro name
        rw [List.take_succ_eq_append_getElem hn, List.mem_append, List.mem_singleton, eq_comm]
      rw [newest_succ hn]
      by_cases habove : dirs[n].dropLast = above
      · rw [if_pos habove]
        refine ⟨_, .link (nodes_linked_of_lt hn) (habove ▸ hchain), ?_, fun name => ?_⟩
        · refine List.nodup_cons.mpr ⟨fun hmem => ?_, hnodup⟩
          obtain ⟨place, hplace, heq⟩ := List.mem_take_iff_getElem.mp ((hnames _).mp hmem)
          have hhere := (hsought _).mpr ⟨habove, rfl⟩
          have := (entered.nodup.getElem_inj_iff).mp (heq.trans hhere.symm)
          omega
        · rw [List.mem_cons, hnames, htake, hsought, or_comm]
          simp [habove, nodeAt, eq_comm]
      · rw [if_neg habove]
        refine ⟨names, hchain, hnodup, fun name => ?_⟩
        rw [hnames, htake, hsought]
        simp [habove]

/-! ## Entering directories -/

theorem Entered.nil : Entered [] := ⟨List.not_mem_nil, .nil, by simp⟩

theorem Entered.concat (entered : Entered dirs) (h : Leads dirs parent above)
    (hnew : above ++ [name] ∉ dirs) : Entered (dirs ++ [above ++ [name]]) := by
  refine ⟨?_, ?_, fun place dir hplace hparent => ?_⟩
  · rw [List.mem_append, List.mem_singleton]
    rintro (hmem | hnil)
    · exact entered.nonempty hmem
    · exact absurd hnil.symm (by simp)
  · rw [List.nodup_append_comm]
    exact List.nodup_cons.mpr ⟨hnew, entered.nodup⟩
  · by_cases hold : place < dirs.length
    · rw [List.getElem?_append_left hold] at hplace
      rw [List.take_append_of_le_length (Nat.le_of_lt hold)]
      exact entered.parents place dir hplace hparent
    · have hlast : place = dirs.length := by
        have := (List.getElem?_eq_some_iff.mp hplace).1
        rw [List.length_append, List.length_singleton] at this
        omega
      subst hlast
      rw [List.getElem?_concat_length, Option.some.injEq] at hplace
      subst hplace
      rw [List.dropLast_concat] at hparent ⊢
      rw [List.take_left' rfl]
      cases parent with
      | none => exact absurd h hparent
      | some place => exact List.mem_of_getElem? h

/-- A directory that is not there has nothing in it. -/
theorem newest_of_not_mem (entered : Entered dirs) (hdir : dir ∉ dirs) (hne : dir ≠ []) (n : Nat) :
    newest dirs dir n = none := by
  apply newest_eq_none
  rintro inner hinner rfl
  obtain ⟨place, hplace⟩ := List.getElem?_of_mem hinner
  exact hdir (List.mem_of_mem_take (entered.parents place inner hplace hne))

/-- What the table has at a place once another directory was entered in `above`. -/
def nodeBeside (dirs : List (List String)) (above : List String) (place : Nat)
    (dir : List String) : Node where
  name := dir.getLastD ""
  next := newest dirs dir.dropLast place
  inside := if dir = above then some dirs.length else newest dirs dir dirs.length

theorem nodeAt_concat (dirs : List (List String)) (above : List String) (name : String)
    (dir : List String) {place : Nat} (hplace : place ≤ dirs.length) :
    nodeAt (dirs ++ [above ++ [name]]) place dir = nodeBeside dirs above place dir := by
  rw [nodeAt, newest_append _ hplace, newest_concat, List.dropLast_concat, nodeBeside]
  simp only [eq_comm (a := above)]

/-- A directory that was entered stands in front of those beside it, and nothing is in it. -/
theorem linked_concat (entered : Entered dirs) (hnew : above ++ [name] ∉ dirs) :
    linked (dirs ++ [above ++ [name]]) =
      { nodes := dirs.mapIdx (nodeBeside dirs above) ++
          [⟨name, newest dirs above dirs.length, none⟩]
        top := if above = [] then some dirs.length else (linked dirs).top } := by
  have hold : dirs.mapIdx (nodeAt (dirs ++ [above ++ [name]])) =
      dirs.mapIdx (nodeBeside dirs above) := by
    apply List.ext_getElem?
    intro place
    rw [List.getElem?_mapIdx, List.getElem?_mapIdx]
    cases hplace : dirs[place]? with
    | none => rfl
    | some dir =>
        have hle := Nat.le_of_lt (List.getElem?_eq_some_iff.mp hplace).1
        rw [Option.map_some, Option.map_some, nodeAt_concat dirs above name dir hle]
  have hlast : nodeAt (dirs ++ [above ++ [name]]) dirs.length (above ++ [name]) =
      ⟨name, newest dirs above dirs.length, none⟩ := by
    have hne : above ++ [name] ≠ above := by simp
    rw [nodeAt_concat dirs above name _ (Nat.le_refl _), nodeBeside, if_neg hne,
      newest_of_not_mem entered hnew (by simp)]
    simp
  have htop : newest (dirs ++ [above ++ [name]]) [] (dirs ++ [above ++ [name]]).length =
      if above = [] then some dirs.length else (linked dirs).top := by
    rw [newest_concat, List.dropLast_concat]
    rfl
  rw [linked, List.mapIdx_concat, hold, hlast, htop]

theorem putFirst?_linked (entered : Entered dirs) (h : Leads dirs parent above) (node : Node) :
    putFirst? { linked dirs with nodes := (linked dirs).nodes ++ [node] } dirs.length parent =
      some { nodes := dirs.mapIdx (nodeBeside dirs above) ++ [node]
             top := if above = [] then some dirs.length else (linked dirs).top } := by
  cases parent with
  | none =>
      have habove : above = [] := h
      subst habove
      have hsame : dirs.mapIdx (nodeBeside dirs []) = (linked dirs).nodes := by
        apply List.ext_getElem?
        intro place
        rw [List.getElem?_mapIdx, nodes_linked]
        cases hplace : dirs[place]? with
        | none => rfl
        | some dir =>
            have hne : dir ≠ [] := fun hnil =>
              entered.nonempty (hnil ▸ List.mem_of_getElem? hplace)
            rw [Option.map_some, Option.map_some, nodeBeside, if_neg hne, nodeAt]
      rw [putFirst?, if_pos rfl, hsame]
  | some parent =>
      have hparent : dirs[parent]? = some above := h
      have hlt := (List.getElem?_eq_some_iff.mp hparent).1
      have hne : above ≠ [] := fun hnil => entered.nonempty (hnil ▸ List.mem_of_getElem? hparent)
      have hchanged : ((linked dirs).nodes ++ [node]).modify parent
          (fun node => { node with inside := some dirs.length }) =
            dirs.mapIdx (nodeBeside dirs above) ++ [node] := by
        apply List.ext_getElem?
        intro place
        rw [List.getElem?_modify]
        by_cases hplace : place < dirs.length
        · have hdir : dirs[place]? = some dirs[place] := List.getElem?_eq_getElem hplace
          have hsame : dirs[place] = above ↔ parent = place := by
            rw [← Option.some.injEq, ← hdir, ← hparent, eq_comm]
            exact List.getElem?_inj hlt entered.nodup
          rw [List.getElem?_append_left (by rwa [length_linked]), nodes_linked,
            List.getElem?_append_left (by rwa [List.length_mapIdx]), List.getElem?_mapIdx, hdir]
          by_cases habove : dirs[place] = above
          · simp [nodeBeside, nodeAt, if_pos habove, if_pos (hsame.mp habove)]
          · simp [nodeBeside, nodeAt, if_neg habove, if_neg (mt hsame.mpr habove)]
        · rw [List.getElem?_append_right (by rw [length_linked]; omega), length_linked,
            List.getElem?_append_right (by rw [List.length_mapIdx]; omega), List.length_mapIdx]
          simp [show parent ≠ place by omega]
      rw [putFirst?, if_pos (by rw [List.length_append, length_linked]; omega), if_neg hne,
        hchanged]

theorem add?_linked (entered : Entered dirs) (h : Leads dirs parent above)
    (hnew : above ++ [name] ∉ dirs) :
    (linked dirs).add? parent name = some (linked (dirs ++ [above ++ [name]])) := by
  unfold add?
  rw [firstIn?_linked h, length_linked, linked_concat entered hnew]
  exact putFirst?_linked entered h _

end Table

/-! ## Chains of directories -/

/-- The segments of the paths of directories. -/
abbrev segmentsOf (dirs : List Ancestor) : List (List String) := dirs.map fun a => segments a.path

/-- Entering a chain of directories does not get stuck and comes to an end, and what is new are
those that were not there. -/
theorem insert?_linked {dirs : List (List String)} (entered : Entered dirs) {parent : Option Nat}
    {above : List String} (h : Leads dirs parent above) {chain : List Ancestor}
    (hchain : Follows above chain) :
    (linked dirs).insert? parent chain =
        some (linked (dirs ++ segmentsOf (newIn dirs chain)), newIn dirs chain) ∧
      Entered (dirs ++ segmentsOf (newIn dirs chain)) := by
  induction chain generalizing dirs parent above with
  | nil =>
      have hnothing : dirs ++ segmentsOf (newIn dirs []) = dirs := List.append_nil dirs
      rw [hnothing]
      exact ⟨rfl, entered⟩
  | cons a rest ih =>
      obtain ⟨found, hfind, hfound⟩ := find?_newest entered above a.name
      rw [insert?, firstIn?_linked h]
      simp only [Option.bind_eq_bind, Option.bind_some, hfind]
      cases found with
      | some place =>
          have hplace : dirs[place]? = some (above ++ [a.name]) := (hfound place).mp rfl
          have hold : segments a.path ∈ dirs := hchain.1 ▸ List.mem_of_getElem? hplace
          rw [newIn_cons_of_mem rest hold]
          have hleads : Leads dirs (some place) (above ++ [a.name]) := hplace
          exact ih entered hleads hchain.2
      | none =>
          have hnew : above ++ [a.name] ∉ dirs := fun hmem => by
            obtain ⟨place, hplace⟩ := List.getElem?_of_mem hmem
            cases (hfound place).mpr hplace
          have hleads : Leads (dirs ++ [above ++ [a.name]]) (some dirs.length)
              (above ++ [a.name]) := List.getElem?_concat_length
          obtain ⟨hinsert, hentered⟩ := ih (entered.concat h hnew) hleads hchain.2
          rw [newIn_cons_of_not_mem hchain (hchain.1 ▸ hnew), segmentsOf, List.map_cons, hchain.1,
            List.append_cons]
          simp only [add?_linked entered h hnew, length_linked, Option.bind_some, hinsert]
          exact ⟨rfl, hentered⟩

/-- Entering the ancestors of a path finds those that were not there. -/
theorem insertParents?_linked {dirs : List (List String)} (entered : Entered dirs)
    (path : String) :
    (linked dirs).insertParents? path =
        some (linked (dirs ++ segmentsOf (newIn dirs (ancestors path))),
          newIn dirs (ancestors path)) ∧
      Entered (dirs ++ segmentsOf (newIn dirs (ancestors path))) := by
  have houtside : Leads dirs none [] := rfl
  exact insert?_linked entered houtside (follows_ancestors path)

end Links

end BootVolume.Newc
