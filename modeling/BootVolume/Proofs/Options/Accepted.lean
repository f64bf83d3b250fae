import BootVolume.Proofs.Options.Items

/-!
# What an argument list must be

The other direction of `parseArguments_items`: an argument list that is read without a
failure was written as a list of items.  There is one exception.  An on-off switch in its
long spelling is taken for itself whatever is attached to it, so a list that is accepted may
hold values that no switch takes (`arguments_accepted_iff`).

The proof runs along the reading.  For each kind of argument it is known how such an
argument is written, and the kind is all that the reading looks at, files apart.
-/

namespace BootVolume.Options

/-! ## How a kind of argument is written -/

section Separator

variable {separator c : Char} {cs behind : List Char}

/-- What stands before a separator, the separator, and what stands behind it. -/
theorem eq_append_of_dropWhile (h : cs.dropWhile (· != separator) = c :: behind) :
    cs = cs.takeWhile (· != separator) ++ separator :: behind := by
  have hseparator : separator = c := by
    have hnot := List.head?_dropWhile_not (· != separator) cs
    rw [h, List.head?_cons] at hnot
    simp only [bne_eq_false_iff_eq] at hnot
    exact hnot.symm
  calc cs
      = cs.takeWhile (· != separator) ++ cs.dropWhile (· != separator) :=
        List.takeWhile_append_dropWhile.symm
    _ = cs.takeWhile (· != separator) ++ separator :: behind := by rw [h, ← hseparator]

theorem not_mem_takeWhile (separator : Char) (cs : List Char) :
    separator ∉ cs.takeWhile (· != separator) := by
  intro hmem
  have hne := List.mem_takeWhile_imp hmem
  simp at hne

end Separator

section Kinds

variable {argument switch value : String} {attached : Option String} {t : Toggle} {c : Choice}

theorem eq_of_splitValue_some (h : splitValue argument = (switch, some value)) :
    argument = switch ++ "=" ++ value ∧ switch.toList.take 2 = ['-', '-'] := by
  simp only [splitValue] at h
  split at h
  · rename_i separator rest hrest
    split at h
    · rename_i hdashes
      obtain ⟨rfl, hvalue⟩ := Prod.mk.inj h
      obtain rfl := Option.some.inj hvalue
      refine ⟨String.toList_inj.mp ?_, by rw [String.toList_ofList, hdashes]⟩
      simpa using eq_append_of_dropWhile hrest
    · cases h
  · cases h

theorem eq_of_splitValue_none (h : splitValue argument = (switch, none)) : argument = switch := by
  simp only [splitValue] at h
  split at h
  · split at h
    · cases h
    · exact congrArg Prod.fst h
  · exact congrArg Prod.fst h

/-- The kind of an argument is that of its switch. -/
theorem kindOf_cases (h : splitValue argument = (switch, attached)) :
    (∃ t : Toggle, kindOf argument = .toggle t ∧ switch ∈ t.spellings) ∨
      (∃ c : Choice, kindOf argument = .choice c attached ∧ switch ∈ c.spellings) ∨
      kindOf argument = .unknownSwitch ∨
      kindOf argument = .file ∧ switch.toList.head? ≠ some '-' := by
  simp only [kindOf, h]
  cases htoggle : Toggle.all.find? (·.spellings.contains switch) with
  | some t =>
      have hcontains := List.find?_some htoggle
      exact .inl ⟨t, rfl, List.contains_iff_mem.mp hcontains⟩
  | none =>
      cases hchoice : Choice.all.find? (·.spellings.contains switch) with
      | some c =>
          have hcontains := List.find?_some hchoice
          exact .inr (.inl ⟨c, rfl, List.contains_iff_mem.mp hcontains⟩)
      | none =>
          by_cases hdash : switch.toList.head? = some '-'
          · exact .inr (.inr (.inl (if_pos hdash)))
          · exact .inr (.inr (.inr ⟨if_neg hdash, hdash⟩))

theorem exists_spelling {spellings : List String} (hlength : spellings.length = 2)
    (h : switch ∈ spellings) : ∃ short, switch = spelling spellings short := by
  obtain ⟨long, short, rfl⟩ := List.length_eq_two.mp hlength
  rcases List.mem_pair.mp h with rfl | rfl
  · exact ⟨false, rfl⟩
  · exact ⟨true, rfl⟩

/-- Only the long spelling of a switch starts with two dashes. -/
theorem Toggle.eq_long (h : switch ∈ t.spellings) (hdashes : switch.toList.take 2 = ['-', '-']) :
    switch = spelling t.spellings false := by
  revert h hdashes switch
  cases t <;> decide

theorem Choice.eq_long (h : switch ∈ c.spellings) (hdashes : switch.toList.take 2 = ['-', '-']) :
    switch = c.long := by
  revert h hdashes switch
  cases c <;> decide

/-- An on-off switch is in one of its spellings, or in the long one with something attached. -/
theorem eq_of_kindOf_toggle (h : kindOf argument = .toggle t) :
    (∃ short, argument = spelling t.spellings short) ∨
      ∃ value, argument = spelling t.spellings false ++ "=" ++ value := by
  rcases hsplit : splitValue argument with ⟨switch, attached⟩
  have hmem : switch ∈ t.spellings := by
    rcases kindOf_cases hsplit with ⟨u, hkind, hmem⟩ | ⟨c, hkind, -⟩ | hkind | ⟨hkind, -⟩ <;>
      rw [hkind] at h <;> cases h
    exact hmem
  cases attached with
  | none =>
      rw [eq_of_splitValue_none hsplit]
      exact .inl (exists_spelling (by cases t <;> rfl) hmem)
  | some value =>
      obtain ⟨hargument, hdashes⟩ := eq_of_splitValue_some hsplit
      exact .inr ⟨value, Toggle.eq_long hmem hdashes ▸ hargument⟩

theorem choice_of_kindOf (h : kindOf argument = .choice c attached) :
    ∃ switch ∈ c.spellings, splitValue argument = (switch, attached) := by
  rcases hsplit : splitValue argument with ⟨switch, attached⟩
  rcases kindOf_cases hsplit with ⟨t, hkind, -⟩ | ⟨c, hkind, hmem⟩ | hkind | ⟨hkind, -⟩ <;>
    rw [hkind] at h <;> cases h
  exact ⟨switch, hmem, rfl⟩

theorem eq_of_kindOf_choice_none (h : kindOf argument = .choice c none) :
    ∃ short, argument = spelling c.spellings short := by
  obtain ⟨switch, hmem, hsplit⟩ := choice_of_kindOf h
  rw [eq_of_splitValue_none hsplit]
  exact exists_spelling (by cases c <;> rfl) hmem

theorem eq_of_kindOf_choice_some (h : kindOf argument = .choice c (some value)) :
    argument = c.long ++ "=" ++ value := by
  obtain ⟨switch, hmem, hsplit⟩ := choice_of_kindOf h
  obtain ⟨hargument, hdashes⟩ := eq_of_splitValue_some hsplit
  exact Choice.eq_long hmem hdashes ▸ hargument

/-- What has something attached starts with a dash, so a file is all of its argument. -/
theorem head?_of_kindOf_file (h : kindOf argument = .file) :
    argument.toList.head? ≠ some '-' := by
  rcases hsplit : splitValue argument with ⟨switch, attached⟩
  have hhead : switch.toList.head? ≠ some '-' := by
    rcases kindOf_cases hsplit with ⟨t, hkind, -⟩ | ⟨c, hkind, -⟩ | hkind | ⟨-, hhead⟩
    · rw [hkind] at h; cases h
    · rw [hkind] at h; cases h
    · rw [hkind] at h; cases h
    · exact hhead
  cases attached with
  | none => rwa [eq_of_splitValue_none hsplit]
  | some value =>
      obtain ⟨-, hdashes⟩ := eq_of_splitValue_some hsplit
      refine absurd ?_ hhead
      have htake : (switch.toList.take 2).head? = switch.toList.head? := List.head?_take
      rw [← htake, hdashes]
      rfl

end Kinds

/-! ## Files -/

/-- A file that is taken from an argument is an item, written as this argument. -/
theorem exists_item_of_parseFile {argument : String} {file : FileArgument}
    (hhead : argument.toList.head? ≠ some '-') (h : parseFile argument = .ok file) :
    ∃ item : Item, item.IsProper ∧ item.arguments = [argument] := by
  simp only [parseFile] at h
  split at h
  · rename_i rest hargument
    split at h
    · rename_i n ame _ p ath hname hpath
      refine ⟨.named (rest.takeWhile (· == '/')).length (String.ofList (n :: ame))
        (String.ofList (p :: ath)), ⟨?_, ?_, ?_, ?_⟩, ?_⟩
      · simp
      · rw [String.toList_ofList, ← hname]
        exact not_mem_takeWhile ':' _
      · have hslash := List.head?_dropWhile_not (· == '/') rest
        rw [eq_append_of_dropWhile hpath, hname, List.cons_append, List.head?_cons] at hslash
        simpa using hslash
      · simp
      · have hslashes : List.replicate (rest.takeWhile (· == '/')).length '/' =
            rest.takeWhile (· == '/') := by
          refine (List.eq_replicate_of_mem fun c hc => ?_).symm
          have hslash := List.mem_takeWhile_imp hc
          exact beq_iff_eq.mp hslash
        have hrest : rest = rest.takeWhile (· == '/') ++ (n :: ame ++ ':' :: p :: ath) := by
          rw [← hname, ← eq_append_of_dropWhile hpath, List.takeWhile_append_dropWhile]
        refine congrArg ([·]) (String.toList_inj.mp ?_)
        rw [toList_named, hargument, hslashes]
        simpa using hrest.symm
    · cases h
  · rename_i hnamed
    refine ⟨.archive argument, ⟨hhead, fun htake => ?_⟩, rfl⟩
    refine hnamed (argument.toList.drop 2) ?_
    rw [← List.take_append_drop 2 argument.toList, htake]
    rfl

/-! ## Lists that are accepted -/

/-- A part of an argument list as the reading takes it: an item, or an on-off switch with a
value that it does not take. -/
inductive Written where
  | item (item : Item)
  | ignored (t : Toggle) (value : String)
  deriving DecidableEq, Repr, Inhabited

namespace Written

def arguments : Written → List String
  | item i => i.arguments
  | ignored t value => [spelling t.spellings false ++ "=" ++ value]

/-- The item that it counts as. -/
def meant : Written → Item
  | item i => i
  | ignored t _ => .toggle t false

end Written

/-- A part stands before the parts of the rest. -/
theorem cut_cons {first rest : List String} {w : Written} (hproper : w.meant.IsProper)
    (hfirst : w.arguments = first)
    (hrest : ∃ written : List Written, (∀ w ∈ written, w.meant.IsProper) ∧
      rest = written.flatMap Written.arguments) :
    ∃ written : List Written, (∀ w ∈ written, w.meant.IsProper) ∧
      first ++ rest = written.flatMap Written.arguments := by
  obtain ⟨written, hwritten, rfl⟩ := hrest
  exact ⟨w :: written, List.forall_mem_cons.mpr ⟨hproper, hwritten⟩, by rw [← hfirst]; rfl⟩

theorem takes_of_assign {c : Choice} {value : String} {s s' : Settings}
    (h : assign c value s = .ok s') : Item.takes c value := by
  cases c with
  | index =>
      simp only [assign] at h
      split at h
      · rename_i index hindex
        exact Option.isSome_iff_exists.mpr ⟨index, hindex⟩
      · cases h
  | inject => trivial

/-- A list that is read without a failure can be cut into parts. -/
theorem exists_cut {settings : Settings} {files : List FileArgument} {arguments : List String}
    {result : Settings × List FileArgument}
    (h : parseFrom settings files arguments = .ok result) :
    ∃ written : List Written, (∀ w ∈ written, w.meant.IsProper) ∧
      arguments = written.flatMap Written.arguments := by
  fun_induction parseFrom settings files arguments with
  | case1 => cases h
  | case2 => exact ⟨[], List.forall_mem_nil _, rfl⟩
  | case3 settings files argument rest t hkind ih =>
      rcases eq_of_kindOf_toggle hkind with ⟨short, rfl⟩ | ⟨value, rfl⟩
      · exact cut_cons (w := .item (.toggle t short)) trivial rfl (ih h)
      · exact cut_cons (w := .ignored t value) trivial rfl (ih h)
  | case4 settings files argument rest c value hkind ih =>
      obtain rfl := eq_of_kindOf_choice_some hkind
      cases hassign : assign c value settings with
      | error cause =>
          rw [hassign] at h
          cases h
      | ok s =>
          rw [hassign] at h
          exact cut_cons (w := .item (.attached c value)) (takes_of_assign hassign) rfl (ih s h)
  | case5 => cases h
  | case6 settings files argument c hkind value rest ih =>
      obtain ⟨short, rfl⟩ := eq_of_kindOf_choice_none hkind
      cases hassign : assign c value settings with
      | error cause =>
          rw [hassign] at h
          cases h
      | ok s =>
          rw [hassign] at h
          exact cut_cons (w := .item (.separate c short value)) (takes_of_assign hassign) rfl
            (ih s h)
  | case7 => cases h
  | case8 settings files argument rest hkind ih =>
      cases hfile : parseFile argument with
      | error cause =>
          rw [hfile] at h
          cases h
      | ok file =>
          rw [hfile] at h
          obtain ⟨item, hproper, hitem⟩ :=
            exists_item_of_parseFile (head?_of_kindOf_file hkind) hfile
          exact cut_cons (w := .item item) hproper hitem (ih file h)

/-- What is attached to an on-off switch makes no difference. -/
theorem parseFrom_ignored (settings : Settings) (files : List FileArgument) (t : Toggle)
    (value : String) (rest : List String) :
    parseFrom settings files ((spelling t.spellings false ++ "=" ++ value) :: rest) =
      parseFrom settings files (spelling t.spellings false :: rest) := by
  have hsplit : splitValue (spelling t.spellings false ++ "=" ++ value) =
      (spelling t.spellings false, some value) := by
    apply splitValue_attached <;> cases t <;> decide
  have htoggle : Toggle.all.find? (·.spellings.contains (spelling t.spellings false)) = some t := by
    cases t <;> decide
  have hkind : kindOf (spelling t.spellings false ++ "=" ++ value) = .toggle t := by
    simp only [kindOf, hsplit, htoggle]
  rw [parseFrom, parseFrom, hkind, kindOf_toggle]

/-- A list of parts is read as the items that they count as. -/
theorem parseFrom_written {written : List Written} (proper : ∀ w ∈ written, w.meant.IsProper)
    (settings : Settings) (files : List FileArgument) :
    parseFrom settings files (written.flatMap Written.arguments) =
      parseFrom settings files ((written.map Written.meant).flatMap Item.arguments) := by
  induction written generalizing settings files with
  | nil => rfl
  | cons w rest ih =>
      obtain ⟨hw, hrest⟩ := List.forall_mem_cons.mp proper
      have hplain : parseFrom settings files
          (w.arguments ++ rest.flatMap Written.arguments) =
            parseFrom settings files (w.meant.arguments ++ rest.flatMap Written.arguments) := by
        cases w with
        | item item => rfl
        | ignored t value => exact parseFrom_ignored settings files t value _
      rw [List.flatMap_cons, List.map_cons, List.flatMap_cons, hplain, parseFrom_item hw,
        parseFrom_item hw, ih hrest]

/-- An argument list is accepted just if it can be cut into items that keep to the command
syntax, among them at least one file, and on-off switches in their long spelling with a value
that they do not take.  It is read as these items ask for, the values left out. -/
theorem arguments_accepted_iff (arguments : List String) (settings : Settings)
    (files : List FileArgument) :
    parseArguments arguments = .ok (settings, files) ↔
      ∃ written : List Written, arguments = written.flatMap Written.arguments ∧
        (∀ w ∈ written, w.meant.IsProper) ∧
        Item.filesOf (written.map Written.meant) = files ∧ files ≠ [] ∧
        Item.settingsOf (written.map Written.meant) = settings := by
  have hread : ∀ {written : List Written}, (∀ w ∈ written, w.meant.IsProper) →
      parseArguments (written.flatMap Written.arguments) =
        Item.asked (written.map Written.meant) := by
    intro written proper
    rw [← parseArguments_items (List.forall_mem_map.mpr proper)]
    exact parseFrom_written proper {} []
  constructor
  · intro h
    obtain ⟨written, proper, rfl⟩ := exists_cut h
    rw [hread proper, Item.asked] at h
    split at h
    · cases h
    · rename_i hfiles
      cases h
      exact ⟨written, rfl, proper, rfl, hfiles, rfl⟩
  · rintro ⟨written, rfl, proper, rfl, hfiles, rfl⟩
    rw [hread proper, Item.asked, if_neg hfiles]

/-- A switch that takes no value is accepted with one attached.  Whatever values the other
switches may take, such a list is no list of items, unless a path may look like a switch. -/
theorem valued_switch_accepted :
    parseArguments ["--gui=x", "f"] =
        .ok ({ gui := true }, [{ name := none, path := "f" }]) ∧
      ¬ ∃ items : List Item, items.flatMap Item.arguments = ["--gui=x", "f"] ∧
        ∀ path, Item.archive path ∈ items → (Item.archive path).IsProper := by
  refine ⟨by decide, ?_⟩
  rintro ⟨items, hitems, hpaths⟩
  cases items with
  | nil => cases hitems
  | cons item rest =>
      rw [List.flatMap_cons] at hitems
      cases item with
      | toggle t short =>
          have hwritten : spelling t.spellings short = "--gui=x" := (List.cons.inj hitems).1
          revert hwritten
          cases t <;> cases short <;> decide
      | attached c value =>
          have hwritten : c.long ++ "=" ++ value = "--gui=x" := (List.cons.inj hitems).1
          have hkind := kindOf_attached c value
          have hgui : kindOf "--gui=x" = .toggle .gui := by decide
          rw [hwritten, hgui] at hkind
          cases hkind
      | separate c short value =>
          have hwritten : spelling c.spellings short = "--gui=x" := (List.cons.inj hitems).1
          revert hwritten
          cases c <;> cases short <;> decide
      | named slashes name path =>
          have hwritten := congrArg String.toList (List.cons.inj hitems).1
          rw [toList_named] at hwritten
          cases (List.cons.inj hwritten).1
      | archive path =>
          have hwritten : path = "--gui=x" := (List.cons.inj hitems).1
          have hproper := hpaths path List.mem_cons_self
          rw [hwritten] at hproper
          exact absurd hproper (by decide)

end BootVolume.Options
