import BootVolume.Options.Item
import BootVolume.Proofs.Text.Blank

/-!
# Arguments read back as items

Arguments are read one after the other, and a switch with its value in the next
argument takes two of them.  Still the reading does not depend on how items are
mixed: the arguments of one item do to the settings and files what the item says
(`parseFrom_item`), whatever stands before and behind them.

So the arguments of a list of items are read as the items ask for
(`parseFrom_items`).  That is a statement about a run through the list;
`Item.settingsOf` says the same of the list as a whole, where an on-off switch
occurs or not and of several values the last one counts.
-/

namespace BootVolume.Options

/-! ## Where an argument is split -/

section Separator

variable {separator : Char} {before behind : List Char}

theorem takeWhile_separator (h : separator ∉ before) :
    (before ++ separator :: behind).takeWhile (· != separator) = before := by
  have hall : ∀ c ∈ before, (c != separator) = true := by
    intro c hc
    exact bne_iff_ne.mpr fun heq => h (heq ▸ hc)
  simp [List.takeWhile_append_of_pos hall]

theorem dropWhile_separator (h : separator ∉ before) :
    (before ++ separator :: behind).dropWhile (· != separator) = separator :: behind := by
  have hall : ∀ c ∈ before, (c != separator) = true := by
    intro c hc
    exact bne_iff_ne.mpr fun heq => h (heq ▸ hc)
  simp [List.dropWhile_append_of_pos hall]

end Separator

/-! ## Kinds of arguments -/

section Kinds

variable {argument value : String}

theorem splitValue_attached {switch : String} (hequals : '=' ∉ switch.toList)
    (hdashes : switch.toList.take 2 = ['-', '-']) :
    splitValue (switch ++ "=" ++ value) = (switch, some value) := by
  have hargument : (switch ++ "=" ++ value).toList = switch.toList ++ '=' :: value.toList := by
    simp
  simp [splitValue, hargument, takeWhile_separator hequals, dropWhile_separator hequals, hdashes]

/-- Without a dash at its start an argument has no value attached. -/
theorem splitValue_of_file (h : argument.toList.head? ≠ some '-') :
    splitValue argument = (argument, none) := by
  have hdashes : (argument.toList.takeWhile (· != '=')).take 2 ≠ ['-', '-'] := by
    intro htake
    apply h
    cases hcs : argument.toList with
    | nil =>
        rw [hcs] at htake
        cases htake
    | cons c cs =>
        rw [hcs, List.takeWhile_cons] at htake
        split at htake
        · rw [List.head?_cons, (List.cons.inj htake).1]
        · cases htake
  simp only [splitValue, if_neg hdashes]
  cases argument.toList.dropWhile (· != '=') <;> rfl

theorem kindOf_toggle (t : Toggle) (short : Bool) :
    kindOf (spelling t.spellings short) = .toggle t := by
  cases t <;> cases short <;> decide

theorem kindOf_choice (c : Choice) (short : Bool) :
    kindOf (spelling c.spellings short) = .choice c none := by
  cases c <;> cases short <;> decide

theorem kindOf_attached (c : Choice) (value : String) :
    kindOf (c.long ++ "=" ++ value) = .choice c (some value) := by
  have hsplit : splitValue (c.long ++ "=" ++ value) = (c.long, some value) := by
    apply splitValue_attached <;> cases c <;> decide
  have htoggle : Toggle.all.find? (·.spellings.contains c.long) = none := by cases c <;> decide
  have hchoice : Choice.all.find? (·.spellings.contains c.long) = some c := by cases c <;> decide
  unfold kindOf
  simp only [hsplit, htoggle, hchoice]

theorem Toggle.head?_of_mem_spellings {t : Toggle} {switch : String}
    (h : switch ∈ t.spellings) : switch.toList.head? = some '-' := by
  revert h switch
  cases t <;> decide

theorem Choice.head?_of_mem_spellings {c : Choice} {switch : String}
    (h : switch ∈ c.spellings) : switch.toList.head? = some '-' := by
  revert h switch
  cases c <;> decide

theorem kindOf_file (h : argument.toList.head? ≠ some '-') : kindOf argument = .file := by
  have htoggle : Toggle.all.find? (·.spellings.contains argument) = none := by
    apply List.find?_eq_none.mpr
    intro t _ hmem
    exact h (Toggle.head?_of_mem_spellings (List.contains_iff_mem.mp hmem))
  have hchoice : Choice.all.find? (·.spellings.contains argument) = none := by
    apply List.find?_eq_none.mpr
    intro c _ hmem
    exact h (Choice.head?_of_mem_spellings (List.contains_iff_mem.mp hmem))
  unfold kindOf
  simp only [splitValue_of_file h, htoggle, hchoice, if_neg h]

end Kinds

/-! ## Files -/

theorem toList_named (slashes : Nat) (name path : String) :
    ("@:" ++ String.ofList (List.replicate slashes '/') ++ name ++ ":" ++ path).toList =
      '@' :: ':' :: (List.replicate slashes '/' ++ (name.toList ++ ':' :: path.toList)) := by
  simp

theorem parseFile_named {name path : String} (slashes : Nat) (hname : name ≠ "")
    (hcolon : ':' ∉ name.toList) (hslash : name.toList.head? ≠ some '/') (hpath : path ≠ "") :
    parseFile ("@:" ++ String.ofList (List.replicate slashes '/') ++ name ++ ":" ++ path) =
      .ok { name := some name, path } := by
  have hslashes : ∀ c ∈ List.replicate slashes '/', (c == '/') = true := by
    intro c hc
    exact beq_iff_eq.mpr (List.eq_of_mem_replicate hc)
  have hkept : (name.toList ++ ':' :: path.toList).dropWhile (· == '/') =
      name.toList ++ ':' :: path.toList := by
    cases hcs : name.toList with
    | nil => exact absurd (String.toList_eq_nil_iff.mp hcs) hname
    | cons c cs =>
        rw [hcs, List.head?_cons] at hslash
        exact List.dropWhile_cons_of_neg fun h => hslash (congrArg some (beq_iff_eq.mp h))
  obtain ⟨n, ame, hn⟩ := List.exists_cons_of_ne_nil (mt String.toList_eq_nil_iff.mp hname)
  obtain ⟨p, ath, hp⟩ := List.exists_cons_of_ne_nil (mt String.toList_eq_nil_iff.mp hpath)
  unfold parseFile
  simp only [toList_named, List.dropWhile_append_of_pos hslashes, hkept,
    takeWhile_separator hcolon, dropWhile_separator hcolon]
  simp only [hn, hp]
  rw [← hn, ← hp, String.ofList_toList, String.ofList_toList]

theorem parseFile_archive {path : String} (h : path.toList.take 2 ≠ ['@', ':']) :
    parseFile path = .ok { name := none, path } := by
  unfold parseFile
  split
  · rename_i hcs
    rw [hcs] at h
    exact absurd rfl h
  · rfl

/-! ## Items -/

namespace Item

/-- What a value does to the settings. -/
def choose (c : Choice) (value : String) (s : Settings) : Settings :=
  match c with
  | .index => { s with index := (parseIndex? value).getD s.index }
  | .inject => { s with injectDirectory := value }

/-- What an item does to the settings. -/
def apply : Item → Settings → Settings
  | toggle t _, s => t.switchOn s
  | attached c value, s => choose c value s
  | separate c _ value, s => choose c value s
  | named .., s => s
  | archive _, s => s

theorem assign_of_takes {c : Choice} {value : String} (h : takes c value) (s : Settings) :
    assign c value s = .ok (choose c value s) := by
  cases c with
  | index =>
      obtain ⟨index, hindex⟩ := Option.isSome_iff_exists.mp h
      simp [assign, choose, hindex]
  | inject => rfl

end Item

/-- The arguments of an item do what the item says, and the reading goes on behind them. -/
theorem parseFrom_item {item : Item} (proper : item.IsProper) (s : Settings)
    (files : List FileArgument) (rest : List String) :
    parseFrom s files (item.arguments ++ rest) =
      parseFrom (item.apply s) (files ++ item.file?.toList) rest := by
  cases item with
  | toggle t short =>
      rw [Item.arguments, List.singleton_append, parseFrom, kindOf_toggle]
      simp [Item.apply, Item.file?]
  | attached c value =>
      rw [Item.arguments, List.singleton_append, parseFrom, kindOf_attached]
      simp [Item.assign_of_takes proper, Item.apply, Item.file?, bind, Except.bind]
  | separate c short value =>
      rw [Item.arguments, List.cons_append, parseFrom, kindOf_choice]
      simp [Item.assign_of_takes proper, Item.apply, Item.file?, bind, Except.bind]
  | named slashes name path =>
      obtain ⟨hname, hcolon, hslash, hpath⟩ := proper
      have hkind : kindOf ("@:" ++ String.ofList (List.replicate slashes '/') ++ name ++ ":" ++
          path) = .file := kindOf_file (by simp)
      rw [Item.arguments, List.singleton_append, parseFrom, hkind]
      simp [parseFile_named slashes hname hcolon hslash hpath, Item.apply, Item.file?, bind,
        Except.bind]
  | archive path =>
      rw [Item.arguments, List.singleton_append, parseFrom, kindOf_file proper.1]
      simp [parseFile_archive proper.2, Item.apply, Item.file?, bind, Except.bind]

/-! ## What a list of items asks for -/

namespace Item

/-- What a list of items asks for. Without a file there is nothing to boot. -/
def asked (items : List Item) : Except InputError (Settings × List FileArgument) :=
  if filesOf items = [] then .error .noFiles else .ok (settingsOf items, filesOf items)

theorem filesOf_concat (items : List Item) (item : Item) :
    filesOf (items ++ [item]) = filesOf items ++ item.file?.toList := by
  cases item <;> simp [filesOf, file?]

theorem lastValue?_concat (c : Choice) (items : List Item) (item : Item) :
    lastValue? c (items ++ [item]) = (item.valueOf? c).or (lastValue? c items) := by
  unfold lastValue?
  rw [List.filterMap_append, List.getLast?_append]
  cases hvalue : item.valueOf? c <;> simp [hvalue]

/-- A value counts from the item on that gives it. -/
theorem settingsOf_concat_of_value (items : List Item) {item : Item} {c : Choice} {value : String}
    (htakes : takes c value) (htoggle : ∀ t, item.isToggle t = false)
    (hvalue : ∀ d, item.valueOf? d = if c = d then some value else none) :
    settingsOf (items ++ [item]) = choose c value (settingsOf items) := by
  cases c with
  | index =>
      obtain ⟨index, hindex⟩ := Option.isSome_iff_exists.mp htakes
      simp [settingsOf, choose, lastValue?_concat, htoggle, hvalue, hindex]
  | inject => simp [settingsOf, choose, lastValue?_concat, htoggle, hvalue]

/-- A file does nothing to the settings. -/
theorem settingsOf_concat_of_file (items : List Item) {item : Item}
    (htoggle : ∀ t, item.isToggle t = false) (hvalue : ∀ c, item.valueOf? c = none) :
    settingsOf (items ++ [item]) = settingsOf items := by
  simp [settingsOf, lastValue?_concat, htoggle, hvalue]

/-- One more item changes what is asked for by what that item does to the settings. -/
theorem settingsOf_concat (items : List Item) {item : Item} (proper : item.IsProper) :
    settingsOf (items ++ [item]) = item.apply (settingsOf items) := by
  cases item with
  | toggle t short =>
      cases t <;>
        simp [settingsOf, apply, Toggle.switchOn, lastValue?_concat, isToggle, valueOf?]
  | attached c value =>
      exact settingsOf_concat_of_value items proper (fun _ => rfl) (fun _ => rfl)
  | separate c short value =>
      exact settingsOf_concat_of_value items proper (fun _ => rfl) (fun _ => rfl)
  | named slashes name path => exact settingsOf_concat_of_file items (fun _ => rfl) (fun _ => rfl)
  | archive path => exact settingsOf_concat_of_file items (fun _ => rfl) (fun _ => rfl)

end Item

/-- Behind the arguments of some items the rest are read to what all of them ask for. -/
theorem parseFrom_items (done : List Item) {items : List Item}
    (proper : ∀ item ∈ items, item.IsProper) :
    parseFrom (Item.settingsOf done) (Item.filesOf done) (items.flatMap Item.arguments) =
      Item.asked (done ++ items) := by
  induction items generalizing done with
  | nil => simp [parseFrom, Item.asked]
  | cons item items ih =>
      obtain ⟨hitem, hitems⟩ := List.forall_mem_cons.mp proper
      have hrest := ih (done ++ [item]) hitems
      calc parseFrom (Item.settingsOf done) (Item.filesOf done)
            (item.arguments ++ items.flatMap Item.arguments)
        _ = parseFrom (item.apply (Item.settingsOf done))
              (Item.filesOf done ++ item.file?.toList) (items.flatMap Item.arguments) :=
            parseFrom_item hitem _ _ _
        _ = Item.asked (done ++ [item] ++ items) := by
            rw [← Item.settingsOf_concat done hitem, ← Item.filesOf_concat, hrest]
        _ = Item.asked (done ++ item :: items) := by
            rw [List.append_assoc, List.singleton_append]

theorem parseArguments_items {items : List Item} (proper : ∀ item ∈ items, item.IsProper) :
    parseArguments (items.flatMap Item.arguments) = Item.asked items :=
  parseFrom_items [] proper

/-! ## Lines -/

/-- Whether a word can name the program at the start of a line: it ends in `.efi`, up to the
case of the letters, and is not the argument of a named file. -/
def NamesProgram (word : String) : Prop :=
  (∃ stem ending, word = stem ++ ending ∧ Text.sameName ending ".efi" = true) ∧
    ¬ ∃ rest, word = "@:" ++ rest

theorem endsInEfi_iff {word : String} :
    (word.toList.drop (word.toList.length - 4)).map Char.toLower = ".efi".toList ↔
      ∃ stem ending, word = stem ++ ending ∧ Text.sameName ending ".efi" = true := by
  have hfold : Text.fold ".efi" = ".efi".toList := by decide
  simp only [Text.sameName_iff, hfold]
  constructor
  · intro h
    refine ⟨String.ofList (word.toList.take (word.toList.length - 4)),
      String.ofList (word.toList.drop (word.toList.length - 4)), ?_, ?_⟩
    · rw [← String.ofList_append, List.take_append_drop, String.ofList_toList]
    · rw [Text.fold, String.toList_ofList, h]
  · rintro ⟨stem, ending, rfl, hending⟩
    have hlength : ending.toList.length = 4 := by
      simpa [Text.fold] using congrArg List.length hending
    rw [String.toList_append, List.drop_left', ← hending, Text.fold]
    rw [List.length_append, hlength, Nat.add_sub_cancel]

theorem isProgramPath_iff {word : String} : isProgramPath word = true ↔ NamesProgram word := by
  have hnamed : word.toList.take 2 = ['@', ':'] ↔ ∃ rest, word = "@:" ++ rest := by
    constructor
    · intro h
      refine ⟨String.ofList (word.toList.drop 2), ?_⟩
      apply String.toList_inj.mp
      rw [String.toList_append, String.toList_ofList, ← List.take_append_drop 2 word.toList, h]
      simp
    · rintro ⟨rest, rfl⟩
      simp
  rw [NamesProgram, ← endsInEfi_iff, ← hnamed]
  simp [isProgramPath]

theorem parseLine_of_words {line : String} {arguments : List String}
    (h : Text.words line = arguments) (hfirst : ∀ first ∈ arguments.head?, ¬ NamesProgram first) :
    parseLine line = parseArguments arguments := by
  rw [parseLine, h]
  cases arguments with
  | nil => rfl
  | cons first rest =>
      apply if_neg
      rw [isProgramPath_iff]
      exact hfirst first rfl

theorem parseLine_of_program {line program : String} {arguments : List String}
    (h : Text.words line = program :: arguments) (hnames : NamesProgram program) :
    parseLine line = parseArguments arguments := by
  rw [parseLine, h]
  exact if_pos (isProgramPath_iff.mpr hnames)

/-- The arguments of a list of items, in whatever order switches and files stand, are read as
the items ask for: together, and from a line of them, with any blanks between them and with or
without a word in front that names the program.  Without such a word the first argument is not
to be taken for one. -/
theorem items_parsed {items : List Item} (proper : ∀ item ∈ items, item.IsProper) :
    let arguments := items.flatMap Item.arguments
    parseArguments arguments = Item.asked items ∧
      ((∀ argument ∈ arguments, Text.IsWord argument) →
        (∀ line : String, Text.Spaced arguments line.toList →
          (∀ first ∈ arguments.head?, ¬ NamesProgram first) →
            parseLine line = Item.asked items) ∧
        ∀ (program line : String), Text.IsWord program → NamesProgram program →
          Text.Spaced (program :: arguments) line.toList →
            parseLine line = Item.asked items) := by
  intro arguments
  have hparse : parseArguments arguments = Item.asked items := parseArguments_items proper
  refine ⟨hparse, fun hwords => ⟨?_, ?_⟩⟩
  · intro line hspaced hfirst
    have hline : Text.words line = arguments := Text.words_eq_iff.mpr ⟨hspaced, hwords⟩
    exact (parseLine_of_words hline hfirst).trans hparse
  · intro program line hprogram hnames hspaced
    have hline : Text.words line = program :: arguments :=
      Text.words_eq_iff.mpr ⟨hspaced, List.forall_mem_cons.mpr ⟨hprogram, hwords⟩⟩
    exact (parseLine_of_program hline hnames).trans hparse

/-- Switches and files mixed, with values and paths that have separators in them. -/
def mixedItems : List Item :=
  [.toggle .rawStore true, .separate .index true "+7", .named 2 "BCD" "a:b=c",
    .attached .inject "x=y", .archive "k=v", .attached .index "012", .toggle .gui false]

theorem mixedItems_parsed :
    (∀ item ∈ mixedItems, item.IsProper) ∧
      parseArguments ["-b", "-i", "+7", "@://BCD:a:b=c", "--inject=x=y", "k=v", "--index=012",
        "--gui"] =
        .ok ({ gui := true, rawStore := true, index := 12, injectDirectory := "x=y" },
          [{ name := some "BCD", path := "a:b=c" }, { name := none, path := "k=v" }]) ∧
      parseLine "-b -i\t+7  @://BCD:a:b=c --inject=x=y\nk=v --index=012 --gui " =
        Item.asked mixedItems ∧
      parseLine "\tX.EFI -b -i +7 @://BCD:a:b=c --inject=x=y k=v --index=012  --gui" =
        Item.asked mixedItems := by
  have proper : ∀ item ∈ mixedItems, item.IsProper := by decide
  have hbare : Text.words "-b -i\t+7  @://BCD:a:b=c --inject=x=y\nk=v --index=012 --gui " =
      mixedItems.flatMap Item.arguments := by decide +kernel
  have hnamed : Text.words "\tX.EFI -b -i +7 @://BCD:a:b=c --inject=x=y k=v --index=012  --gui" =
      "X.EFI" :: mixedItems.flatMap Item.arguments := by decide +kernel
  obtain ⟨hspaced, hwords⟩ := Text.words_eq_iff.mp hbare
  obtain ⟨hspaced', hwords'⟩ := Text.words_eq_iff.mp hnamed
  obtain ⟨hparse, hlines⟩ := items_parsed proper
  refine ⟨proper, hparse, ?_, ?_⟩
  · apply (hlines hwords).1 _ hspaced
    intro first hfirst
    cases hfirst
    exact mt isProgramPath_iff.mpr (by decide)
  · apply (hlines hwords).2 "X.EFI" _ _ _ hspaced'
    · exact hwords' _ List.mem_cons_self
    · exact isProgramPath_iff.mp (by decide +kernel)

end BootVolume.Options
