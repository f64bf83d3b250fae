import BootVolume.Proofs.Newc.Ancestors

/-!
# The forest of written directories

A forest in which no two trees beside each other have one name (`Distinct`) is a
set of paths, closed under taking parents.  Inserting a chain of directories adds
the path of each of them and keeps the forest `Distinct`, and what is new are
exactly those whose path was not there before (`insert_grows`).

The induction follows `insert`, of which there are three cases: the first tree
has the name sought, a later one has, or none has.
-/

namespace BootVolume.Newc

/-- Those directories of a chain whose path is not known, where the paths of a directory start
with its name. -/
def unknown (known : List String → Bool) : List Ancestor → List Ancestor
  | [] => []
  | a :: rest =>
      let others := unknown (fun path => known (a.name :: path)) rest
      if known [a.name] then others else a :: others

theorem unknown_congr {known known' : List String → Bool}
    (h : ∀ path, path ≠ [] → known path = known' path) (chain : List Ancestor) :
    unknown known chain = unknown known' chain := by
  induction chain generalizing known known' with
  | nil => rfl
  | cons a rest ih =>
      rw [unknown, unknown, h [a.name] (List.cons_ne_nil _ _),
        ih fun path _ => h (a.name :: path) (List.cons_ne_nil _ _)]

theorem unknown_of_none {known : List String → Bool} {chain : List Ancestor}
    (h : ∀ path, path ≠ [] → path <+: chain.map Ancestor.name → known path = false) :
    unknown known chain = chain := by
  induction chain generalizing known with
  | nil => rfl
  | cons a rest ih =>
      have hfirst : known [a.name] = false :=
        h _ (List.cons_ne_nil _ _) (List.prefix_append [a.name] (rest.map Ancestor.name))
      have hothers : unknown (fun path => known (a.name :: path)) rest = rest :=
        ih fun path _ hpath => h _ (List.cons_ne_nil _ _) (List.prefix_cons_inj a.name |>.mpr hpath)
      rw [unknown, hothers, hfirst]
      rfl

/-- For directories each of which stands in the one before it, being known is a matter of the
segments of their paths. -/
theorem unknown_eq_filter {above : List String} {chain : List Ancestor} (h : Follows above chain)
    (known : List String → Bool) :
    unknown (fun path => known (above ++ path)) chain =
      chain.filter fun a => !known (segments a.path) := by
  induction chain generalizing above with
  | nil => rfl
  | cons a rest ih =>
      obtain ⟨hpath, hrest⟩ := h
      have hothers : unknown (fun path => known (above ++ a.name :: path)) rest =
          rest.filter fun a => !known (segments a.path) := by
        rw [← ih hrest]
        exact unknown_congr (fun path _ => by rw [List.append_assoc, List.singleton_append]) rest
      rw [unknown, hothers, List.filter_cons, hpath]
      cases known (above ++ [a.name]) <;> rfl

/-- The paths down to the directories of a chain are the segments of their own paths. -/
theorem exists_segments_iff {above : List String} {chain : List Ancestor} (h : Follows above chain)
    (path : List String) :
    (∃ a ∈ chain, segments a.path = path) ↔
      ∃ below, below ≠ [] ∧ below <+: chain.map Ancestor.name ∧ above ++ below = path := by
  induction chain generalizing above with
  | nil =>
      constructor
      · rintro ⟨a, ha, -⟩
        cases ha
      · rintro ⟨below, hne, hbelow, -⟩
        exact absurd (List.prefix_nil.mp hbelow) hne
  | cons a rest ih =>
      obtain ⟨hpath, hrest⟩ := h
      rw [List.exists_mem_cons_iff, hpath, ih hrest]
      constructor
      · rintro (rfl | ⟨below, -, hbelow, rfl⟩)
        · exact ⟨[a.name], List.cons_ne_nil _ _,
            List.prefix_append [a.name] (rest.map Ancestor.name), rfl⟩
        · exact ⟨a.name :: below, List.cons_ne_nil _ _, (List.prefix_cons_inj a.name).mpr hbelow,
            by rw [List.append_assoc, List.singleton_append]⟩
      · rintro ⟨below, hne, hbelow, rfl⟩
        cases below with
        | nil => exact absurd rfl hne
        | cons name below =>
            obtain ⟨rfl, hrest⟩ := List.cons_prefix_cons.mp hbelow
            cases below with
            | nil => exact Or.inl rfl
            | cons next below =>
                exact Or.inr ⟨next :: below, List.cons_ne_nil _ _, hrest,
                  by rw [List.append_assoc, List.singleton_append]⟩

namespace Directories

/-- No two trees beside each other have one name. -/
def Distinct : Directories → Prop
  | .none => True
  | .node name children siblings => name ∉ siblings.names ∧ children.Distinct ∧ siblings.Distinct

section

variable {dirs children siblings : Directories} {name : String} {a : Ancestor}
  {rest : List Ancestor} {path : List String}

/-- The paths of a forest by the name of the tree that they go into. -/
theorem mem_paths_node :
    path ∈ (Directories.node name children siblings).paths ↔
      path = [name] ∨ (∃ below ∈ children.paths, path = name :: below) ∨ path ∈ siblings.paths := by
  simp only [paths, List.cons_append, List.mem_cons, List.mem_append, List.mem_map, eq_comm]

theorem nil_not_mem_paths : [] ∉ dirs.paths := by
  induction dirs with
  | none => exact List.not_mem_nil
  | node name children siblings _ hsiblings => simp [paths, hsiblings]

theorem head_mem_names (h : name :: path ∈ dirs.paths) : name ∈ dirs.names := by
  induction dirs with
  | none => cases h
  | node first children siblings _ hsiblings =>
      rcases mem_paths_node.mp h with h | ⟨below, -, h⟩ | h
      · exact (List.cons.inj h).1 ▸ List.mem_cons_self ..
      · exact (List.cons.inj h).1 ▸ List.mem_cons_self ..
      · exact List.mem_cons_of_mem _ (hsiblings h)

/-- Below a tree with a name of its own stand its children. -/
theorem mem_paths_below (hname : name ∉ siblings.names) (hpath : path ≠ []) :
    name :: path ∈ (Directories.node name children siblings).paths ↔ path ∈ children.paths := by
  rw [mem_paths_node]
  constructor
  · rintro (h | ⟨below, hbelow, h⟩ | h)
    · exact absurd (List.cons.inj h).2 hpath
    · exact (List.cons.inj h).2 ▸ hbelow
    · exact absurd (head_mem_names h) hname
  · exact fun h => Or.inr (Or.inl ⟨path, h, rfl⟩)

/-- A forest has no path twice. -/
theorem paths_nodup (hdirs : dirs.Distinct) : dirs.paths.Nodup := by
  induction dirs with
  | none => exact .nil
  | node name children siblings hchildren hsiblings =>
      obtain ⟨hname, hbelow, hbeside⟩ := hdirs
      have hnil : [] ∉ children.paths := nil_not_mem_paths
      rw [paths, List.cons_append, List.nodup_cons, List.nodup_append]
      refine ⟨?_, (hchildren hbelow).map fun _ _ h => (List.cons.inj h).2, hsiblings hbeside, ?_⟩
      · rw [List.mem_append, List.mem_map]
        rintro (⟨below, hmem, heq⟩ | hmem)
        · exact hnil ((List.cons.inj heq).2 ▸ hmem)
        · exact hname (head_mem_names hmem)
      · intro path hpath other hother heq
        obtain ⟨below, -, rfl⟩ := List.mem_map.mp hpath
        exact hname (head_mem_names (heq ▸ hother))

/-! ## Branches -/

theorem mem_paths_branch {chain : List Ancestor} :
    path ∈ (branch dirs chain).paths ↔
      path ∈ dirs.paths ∨ path ≠ [] ∧ path <+: chain.map Ancestor.name := by
  induction chain generalizing dirs path with
  | nil =>
      rw [branch]
      constructor
      · exact Or.inl
      · rintro (h | ⟨hne, h⟩)
        · exact h
        · exact absurd (List.prefix_nil.mp h) hne
  | cons a rest ih =>
      rw [branch, mem_paths_node, List.map_cons]
      constructor
      · rintro (rfl | ⟨below, hbelow, rfl⟩ | h)
        · exact Or.inr ⟨List.cons_ne_nil _ _, List.prefix_append [a.name] _⟩
        · rcases ih.mp hbelow with h | ⟨-, h⟩
          · cases h
          · exact Or.inr ⟨List.cons_ne_nil _ _, (List.prefix_cons_inj a.name).mpr h⟩
        · exact Or.inl h
      · rintro (h | ⟨hne, h⟩)
        · exact Or.inr (Or.inr h)
        · cases path with
          | nil => exact absurd rfl hne
          | cons name path =>
              obtain ⟨rfl, hbelow⟩ := List.cons_prefix_cons.mp h
              cases path with
              | nil => exact Or.inl rfl
              | cons next path =>
                  exact Or.inr (Or.inl
                    ⟨_, ih.mpr (Or.inr ⟨List.cons_ne_nil _ _, hbelow⟩), rfl⟩)

theorem distinct_branch (hdirs : dirs.Distinct) {chain : List Ancestor}
    (hhead : ∀ a ∈ chain.head?, a.name ∉ dirs.names) : (branch dirs chain).Distinct := by
  induction chain generalizing dirs with
  | nil => exact hdirs
  | cons a rest ih => exact ⟨hhead a rfl, ih trivial fun _ _ => List.not_mem_nil, hdirs⟩

/-! ## The cases of insertion -/

theorem isSome_insertBelow? :
    (dirs.insertBelow? (a :: rest)).isSome = true ↔ a.name ∈ dirs.names := by
  induction dirs with
  | none => simp [insertBelow?, names]
  | node name children siblings _ hsiblings =>
      rw [insertBelow?, names, List.mem_cons]
      by_cases hname : name = a.name
      · rw [if_pos hname]
        refine iff_of_true ?_ (Or.inl hname.symm)
        split <;> rfl
      · rw [if_neg hname, Option.isSome_map, hsiblings]
        exact ⟨Or.inr, fun h => h.resolve_left (Ne.symm hname)⟩

theorem insert_nil : dirs.insert [] = (dirs, []) := by
  cases dirs <;> rfl

theorem insert_of_not_mem (h : a.name ∉ dirs.names) :
    dirs.insert (a :: rest) = (branch dirs (a :: rest), a :: rest) := by
  have hnone : dirs.insertBelow? (a :: rest) = Option.none := by
    rw [← Option.not_isSome_iff_eq_none]
    exact mt isSome_insertBelow?.mp h
  rw [insert, hnone]
  rfl

theorem insert_of_first (hname : name = a.name) :
    (Directories.node name children siblings).insert (a :: rest) =
      (.node name (children.insert rest).1 siblings, (children.insert rest).2) := by
  rw [insert, insertBelow?, if_pos hname]
  cases h : children.insertBelow? rest with
  | none => simp [insert, h]
  | some result => simp [insert, h]

theorem insert_of_later (hname : name ≠ a.name) (hmem : a.name ∈ siblings.names) :
    (Directories.node name children siblings).insert (a :: rest) =
      (.node name children (siblings.insert (a :: rest)).1, (siblings.insert (a :: rest)).2) := by
  obtain ⟨result, hresult⟩ := Option.isSome_iff_exists.mp (isSome_insertBelow?.mpr hmem)
  rw [insert, insertBelow?, if_neg hname, insert, hresult]
  rfl

/-- A tree that is there already takes the chain, so no name is added beside it. -/
theorem names_insert (hmem : a.name ∈ dirs.names) :
    (dirs.insert (a :: rest)).1.names = dirs.names := by
  induction dirs with
  | none => cases hmem
  | node name children siblings _ hsiblings =>
      by_cases hname : name = a.name
      · rw [insert_of_first hname]
        rfl
      · have hlater := (List.mem_cons.mp hmem).resolve_left (Ne.symm hname)
        rw [insert_of_later hname hlater, names, hsiblings hlater, names]

end

/-! ## What insertion does -/

/-- The forest and the new directories that a chain of directories leads to. -/
structure Grows (dirs : Directories) (chain : List Ancestor)
    (result : Directories × List Ancestor) : Prop where
  distinct : result.1.Distinct
  paths : ∀ path, path ∈ result.1.paths ↔
    path ∈ dirs.paths ∨ path ≠ [] ∧ path <+: chain.map Ancestor.name
  created : result.2 = unknown (fun path => decide (path ∈ dirs.paths)) chain

section

variable {dirs children siblings : Directories} {name : String} {a : Ancestor}
  {rest : List Ancestor}

theorem grows_nil (hdirs : dirs.Distinct) : dirs.Grows [] (dirs.insert []) := by
  rw [insert_nil]
  refine ⟨hdirs, fun path => ?_, rfl⟩
  rw [List.map_nil, List.prefix_nil]
  exact ⟨Or.inl, fun h => h.resolve_right fun h => h.1 h.2⟩

theorem grows_of_not_mem (hdirs : dirs.Distinct) (hnew : a.name ∉ dirs.names) :
    dirs.Grows (a :: rest) (dirs.insert (a :: rest)) := by
  rw [insert_of_not_mem hnew]
  refine ⟨distinct_branch hdirs fun b hb => Option.some.inj hb ▸ hnew,
    fun path => mem_paths_branch, (unknown_of_none fun path hne hpath => ?_).symm⟩
  refine decide_eq_false fun hmem => hnew ?_
  cases path with
  | nil => exact absurd rfl hne
  | cons name path =>
      obtain ⟨rfl, -⟩ := List.cons_prefix_cons.mp hpath
      exact head_mem_names hmem

theorem grows_of_first (hdirs : (Directories.node name children siblings).Distinct)
    (hname : name = a.name) (h : children.Grows rest (children.insert rest)) :
    (Directories.node name children siblings).Grows (a :: rest)
      ((Directories.node name children siblings).insert (a :: rest)) := by
  subst hname
  rw [insert_of_first rfl]
  refine ⟨⟨hdirs.1, h.distinct, hdirs.2.2⟩, fun path => ?_, ?_⟩
  · rw [mem_paths_node, mem_paths_node, List.map_cons]
    constructor
    · rintro (hself | ⟨below, hbelow, rfl⟩ | hbeside)
      · exact Or.inl (Or.inl hself)
      · rcases (h.paths below).mp hbelow with hold | ⟨-, hchain⟩
        · exact Or.inl (Or.inr (Or.inl ⟨below, hold, rfl⟩))
        · exact Or.inr ⟨List.cons_ne_nil _ _, (List.prefix_cons_inj a.name).mpr hchain⟩
      · exact Or.inl (Or.inr (Or.inr hbeside))
    · rintro ((hself | ⟨below, hbelow, rfl⟩ | hbeside) | ⟨hne, hchain⟩)
      · exact Or.inl hself
      · exact Or.inr (Or.inl ⟨below, (h.paths below).mpr (Or.inl hbelow), rfl⟩)
      · exact Or.inr (Or.inr hbeside)
      · cases path with
        | nil => exact absurd rfl hne
        | cons first below =>
            obtain ⟨rfl, hbelow⟩ := List.cons_prefix_cons.mp hchain
            cases below with
            | nil => exact Or.inl rfl
            | cons next below =>
                exact Or.inr (Or.inl ⟨_, (h.paths _).mpr
                  (Or.inr ⟨List.cons_ne_nil _ _, hbelow⟩), rfl⟩)
  · have hself : decide ([a.name] ∈ (Directories.node a.name children siblings).paths) = true :=
      decide_eq_true (List.mem_cons_self ..)
    rw [unknown, hself, if_pos rfl]
    refine h.created.trans (unknown_congr (fun path hne => ?_) rest)
    exact decide_eq_decide.mpr (mem_paths_below hdirs.1 hne).symm

theorem grows_of_later (hdirs : (Directories.node name children siblings).Distinct)
    (hname : name ≠ a.name) (hmem : a.name ∈ siblings.names)
    (h : siblings.Grows (a :: rest) (siblings.insert (a :: rest))) :
    (Directories.node name children siblings).Grows (a :: rest)
      ((Directories.node name children siblings).insert (a :: rest)) := by
  -- A path that starts with another name stands beside the first tree.
  have hbeside : ∀ below, a.name :: below ∈ (Directories.node name children siblings).paths ↔
      a.name :: below ∈ siblings.paths := fun below => by
    rw [mem_paths_node]
    constructor
    · rintro (heq | ⟨_, -, heq⟩ | hlater)
      · exact absurd (List.cons.inj heq).1.symm hname
      · exact absurd (List.cons.inj heq).1.symm hname
      · exact hlater
    · exact fun hlater => Or.inr (Or.inr hlater)
  rw [insert_of_later hname hmem]
  refine ⟨⟨?_, hdirs.2.1, h.distinct⟩, fun path => ?_, ?_⟩
  · rw [names_insert hmem]
    exact hdirs.1
  · rw [mem_paths_node, mem_paths_node, h.paths, or_assoc, or_assoc]
  · refine h.created.trans ?_
    simp only [unknown, hbeside]

end

/-- Inserting adds the paths down to the directories of the chain, and gives those that were
not there. -/
theorem insert_grows {dirs : Directories} (hdirs : dirs.Distinct) (chain : List Ancestor) :
    dirs.Grows chain (dirs.insert chain) := by
  induction dirs generalizing chain with
  | none =>
      cases chain with
      | nil => exact grows_nil trivial
      | cons a rest => exact grows_of_not_mem trivial List.not_mem_nil
  | node name children siblings hchildren hsiblings =>
      cases chain with
      | nil => exact grows_nil hdirs
      | cons a rest =>
          by_cases hname : name = a.name
          · exact grows_of_first hdirs hname (hchildren hdirs.2.1 rest)
          · by_cases hmem : a.name ∈ siblings.names
            · exact grows_of_later hdirs hname hmem (hsiblings hdirs.2.2 (a :: rest))
            · refine grows_of_not_mem hdirs fun h => ?_
              exact (List.mem_cons.mp h).elim (fun h => hname h.symm) hmem

end Directories

end BootVolume.Newc
