import BootVolume.Proofs.Newc.Links
import BootVolume.Proofs.Newc.ReadBack

/-!
# Directories reported once

Between two times that the directories of an archive are cleared, each of them
is reported once, behind the one that it stands in.  The statement is about any
sequence of requests (`Request`), and about both ways of keeping directories:
as a forest, and as a table in which they link to each other.

What both have in common after some requests is the list of the segments of the
directories reported since they were last cleared (`Agree`): the forest holds
them as a set, and the table is the one that belongs to this list.  A request
keeps that up (`Agree.add`), and so does any number of them (`agree_after`).
-/

namespace BootVolume.Newc

open Links (segmentsOf)

/-- What is asked of the directories of an archive: to take in those above a file, or to forget
all of them. -/
inductive Request where
  | add (path : String)
  | clear
  deriving DecidableEq, Repr

namespace Request

/-- The paths that were given since the last time that directories were forgotten. -/
def pathsSince : List Request → List String :=
  List.foldl (fun paths request =>
    match request with
    | add path => paths ++ [path]
    | clear => []) []

/-- The segments of the directories above these paths. -/
def known (requests : List Request) : List (List String) :=
  (pathsSince requests).flatMap fun path => (directoriesAbove path).map segments

theorem known_add (requests : List Request) (path : String) :
    known (requests ++ [add path]) = known requests ++ (directoriesAbove path).map segments := by
  simp [known, pathsSince]

theorem known_clear (requests : List Request) : known (requests ++ [clear]) = [] := by
  simp [known, pathsSince]

end Request

/-- One request to a forest. -/
def Directories.meet (dirs : Directories) : Request → Directories
  | .add path => (dirs.insertParents path).1
  | .clear => .empty

/-- The forest after requests. -/
def Directories.after (requests : List Request) : Directories :=
  requests.foldl Directories.meet .empty

/-- One request to a table, with the directories that were reported since it was last cleared. -/
def Links.meet? : Links × List Ancestor → Request → Option (Links × List Ancestor)
  | (links, reported), .add path => do
      let (grown, created) ← links.insertParents? path
      return (grown, reported ++ created)
  | _, .clear => some (.empty, [])

/-- The table after requests, with the directories that were reported since it was last cleared;
nothing if a request gets stuck or does not come to an end. -/
def Links.after? (requests : List Request) : Option (Links × List Ancestor) :=
  requests.foldlM Links.meet? (.empty, [])

theorem Directories.after_concat (requests : List Request) (request : Request) :
    after (requests ++ [request]) = (after requests).meet request := by
  rw [after, List.foldl_append]
  rfl

theorem Links.after?_concat {requests : List Request} {links : Links} {reported : List Ancestor}
    (h : after? requests = some (links, reported)) (request : Request) :
    after? (requests ++ [request]) = meet? (links, reported) request := by
  unfold after? at h ⊢
  rw [List.foldlM_append, h]
  exact bind_pure (meet? (links, reported) request)

/-! ## Offsets -/

/-- Each directory above a file has a longer path than the one it stands in. -/
theorem pairwise_directoriesAbove (path : String) :
    (directoriesAbove path).Pairwise fun dir inner => dir.utf8ByteSize < inner.utf8ByteSize := by
  rw [directoriesAbove, List.pairwise_map]
  refine List.Pairwise.imp_of_mem ?_ (List.pairwise_lt_range.filter _)
  intro i j _ hj hlt
  have hinside := List.mem_range.mp (List.mem_of_mem_filter hj)
  obtain ⟨d, rfl⟩ := Nat.exists_eq_add_of_le (Nat.le_of_lt hlt)
  rw [List.take_add, String.ofList_append, String.utf8ByteSize_append]
  have hrest : String.ofList ((path.toList.drop i).take d) ≠ "" := by
    intro hempty
    have hnil := congrArg (fun text => text.toList.length) hempty
    simp only [String.toList_ofList, List.length_take, List.length_drop, String.toList_empty,
      List.length_nil] at hnil
    omega
  have hsize := mt String.utf8ByteSize_eq_zero_iff.mp hrest
  omega

theorem pairwise_newDirectories (seen : List (List String)) (path : String) :
    ((newDirectories seen path).map String.utf8ByteSize).Pairwise (· < ·) :=
  List.pairwise_map.mpr ((pairwise_directoriesAbove path).filter _)

/-! ## The forest and the table -/

/-- A forest and a table that hold the directories that were reported, in this order, which are
those that were seen. -/
structure Agree (dirs : Directories) (links : Links) (reported : List Ancestor)
    (seen : List (List String)) : Prop where
  remembers : dirs.Remembers seen
  links_eq : links = Links.linked (segmentsOf reported)
  entered : Links.Entered (segmentsOf reported)
  mem_iff : ∀ dir, dir ∈ segmentsOf reported ↔ dir ∈ seen

namespace Agree

variable {dirs : Directories} {links : Links} {reported : List Ancestor}
  {seen : List (List String)}

theorem empty : Agree .empty .empty [] [] :=
  ⟨.empty, rfl, .nil, fun _ => Iff.rfl⟩

/-- The forest and the table report the same directories above a file, and go on to agree. -/
theorem add (agree : Agree dirs links reported seen) (path : String) :
    ∃ grown created, links.insertParents? path = some (grown, created) ∧
      (dirs.insertParents path).2 = created ∧
      Agree (dirs.insertParents path).1 grown (reported ++ created)
        (seen ++ (directoriesAbove path).map segments) := by
  obtain ⟨hinsert, hentered⟩ := Links.insertParents?_linked agree.entered path
  have hcreated : newIn (segmentsOf reported) (ancestors path) = newIn seen (ancestors path) :=
    newIn_congr agree.mem_iff _
  rw [← List.map_append] at hinsert hentered
  refine ⟨_, _, ?_, ?_, agree.remembers.insertParents path, rfl, hentered, fun dir => ?_⟩
  · rw [agree.links_eq]
    exact hinsert
  · rw [hcreated]
    exact agree.remembers.created_eq path
  · rw [segmentsOf, List.map_append, List.mem_append, agree.mem_iff, List.mem_append, hcreated,
      ← map_path_ancestors, List.map_map]
    simp only [List.mem_map, mem_newIn_iff, Function.comp_apply]
    constructor
    · rintro (hold | ⟨a, ⟨ha, -⟩, rfl⟩)
      · exact Or.inl hold
      · exact Or.inr ⟨a, ha, rfl⟩
    · rintro (hold | ⟨a, ha, rfl⟩)
      · exact Or.inl hold
      · by_cases hseen : segments a.path ∈ seen
        · exact Or.inl hseen
        · exact Or.inr ⟨a, ⟨ha, hseen⟩, rfl⟩

/-- Both hold as many directories as there are different ones among those that were seen. -/
theorem size_eq (agree : Agree dirs links reported seen) :
    dirs.size = seen.toFinset.card ∧ links.nodes.length = seen.toFinset.card := by
  constructor
  · have hsame : seen.toFinset = dirs.paths.toFinset := by
      ext dir
      rw [List.mem_toFinset, List.mem_toFinset, agree.remembers.mem_iff]
    rw [hsame, List.toFinset_card_of_nodup (Directories.paths_nodup agree.remembers.distinct),
      Directories.length_paths]
  · have hsame : seen.toFinset = (segmentsOf reported).toFinset := by
      ext dir
      rw [List.mem_toFinset, List.mem_toFinset, agree.mem_iff]
    rw [hsame, List.toFinset_card_of_nodup agree.entered.nodup, agree.links_eq,
      Links.length_linked]

/-- The links from the first directory in another one come to an end, and no two directories that
they lead to have one name. -/
theorem exists_chain (agree : Agree dirs links reported seen) {parent first : Option Nat}
    (hfirst : links.firstIn? parent = some first) :
    ∃ names, Links.Chain links.nodes first names ∧ names.Nodup := by
  have hleads : ∃ above, Links.Leads (segmentsOf reported) parent above := by
    cases parent with
    | none => exact ⟨[], rfl⟩
    | some place =>
        rw [agree.links_eq, Links.firstIn?, Links.nodes_linked, Option.map_map] at hfirst
        obtain ⟨above, habove, -⟩ := Option.map_eq_some_iff.mp hfirst
        exact ⟨above, habove⟩
  obtain ⟨above, habove⟩ := hleads
  rw [agree.links_eq, Links.firstIn?_linked habove] at hfirst
  obtain ⟨names, hchain, hnodup, -⟩ := Links.chain_newest agree.entered above (Nat.le_refl _)
  cases hfirst
  rw [agree.links_eq]
  exact ⟨names, hchain, hnodup⟩

end Agree

/-- Requests never get stuck, and what they leave agrees. -/
theorem agree_after (requests : List Request) :
    ∃ links reported, Links.after? requests = some (links, reported) ∧
      Agree (Directories.after requests) links reported (Request.known requests) := by
  induction requests using List.reverseRecOn with
  | nil => exact ⟨.empty, [], rfl, .empty⟩
  | append_singleton requests request ih =>
      obtain ⟨links, reported, hafter, agree⟩ := ih
      rw [Links.after?_concat hafter, Directories.after_concat]
      cases request with
      | add path =>
          obtain ⟨grown, created, hinsert, -, hagree⟩ := agree.add path
          rw [Request.known_add, Links.meet?, hinsert]
          exact ⟨grown, reported ++ created, rfl, hagree⟩
      | clear =>
          rw [Request.known_clear]
          exact ⟨.empty, [], rfl, .empty⟩

/-- Whatever was asked before, to take in the directories above a file reports, with its path up
to there, each directory that the path goes through and that was not above a file since all were
forgotten; the offsets at which these paths end rise.  The forest does so, and so does the table
of links, which never gets stuck: its links come to an end wherever they begin, and lead to
directories of different names.  Both hold as many directories as there are different ones above
those files.  Each of them was reported once, behind the one that it stands in. -/
theorem directories_reported_once (requests : List Request) :
    ∃ (links : Links) (reported : List Ancestor),
      Links.after? requests = some (links, reported) ∧
      (∀ path, ∃ grown created, links.insertParents? path = some (grown, created) ∧
        ((Directories.after requests).insertParents path).2 = created ∧
        created.map Ancestor.path = newDirectories (Request.known requests) path ∧
        (created.map fun a => a.path.utf8ByteSize).Pairwise (· < ·)) ∧
      (Directories.after requests).size = (Request.known requests).toFinset.card ∧
      links.nodes.length = (Request.known requests).toFinset.card ∧
      (segmentsOf reported).Nodup ∧
      (∀ dir, dir ∈ segmentsOf reported ↔ dir ∈ Request.known requests) ∧
      (∀ i dir, (segmentsOf reported)[i]? = some dir → dir.dropLast ≠ [] →
        dir.dropLast ∈ (segmentsOf reported).take i) ∧
      ∀ parent first, links.firstIn? parent = some first →
        ∃ names, Links.Chain links.nodes first names ∧ names.Nodup := by
  obtain ⟨links, reported, hafter, agree⟩ := agree_after requests
  refine ⟨links, reported, hafter, fun path => ?_, agree.size_eq.1, agree.size_eq.2,
    agree.entered.nodup, agree.mem_iff, agree.entered.parents, fun parent first hfirst =>
      agree.exists_chain hfirst⟩
  obtain ⟨grown, created, hinsert, hforest, -⟩ := agree.add path
  have hpaths : created.map Ancestor.path = newDirectories (Request.known requests) path := by
    rw [← hforest]
    exact agree.remembers.map_path_created path
  refine ⟨grown, created, hinsert, hforest, hpaths, ?_⟩
  have hsizes := pairwise_newDirectories (Request.known requests) path
  rwa [← hpaths, List.map_map] at hsizes

end BootVolume.Newc
