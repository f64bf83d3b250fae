import BootVolume.Options.Arguments

/-!
# Items of a command line

The command syntax seen from the other side: an argument list is a list of
items, each written as one or two arguments. `Item.settingsOf` and
`Item.filesOf` say what a list of items asks for, item by item and without
running through the arguments.
-/

namespace BootVolume.Options

/-- A switch or a file, as it is written. -/
inductive Item where
  /-- An on-off switch in its long or its short spelling. -/
  | toggle (t : Toggle) (short : Bool)
  /-- A switch with its value attached to it. -/
  | attached (c : Choice) (value : String)
  /-- A switch with its value in the next argument. -/
  | separate (c : Choice) (short : Bool) (value : String)
  /-- A file under a name of its own, behind some slashes that do not belong to it. -/
  | named (slashes : Nat) (name path : String)
  /-- An archive. -/
  | archive (path : String)
  deriving DecidableEq, Repr, Inhabited

/-- The long or the short one of two spellings. -/
def spelling (spellings : List String) (short : Bool) : String :=
  spellings.getD (if short then 1 else 0) ""

namespace Item

/-- The arguments of an item. -/
def arguments : Item → List String
  | toggle t short => [spelling t.spellings short]
  | attached c value => [c.long ++ "=" ++ value]
  | separate c short value => [spelling c.spellings short, value]
  | named slashes name path =>
      ["@:" ++ String.ofList (List.replicate slashes '/') ++ name ++ ":" ++ path]
  | archive path => [path]

/-- Whether a switch takes a value. -/
def takes (c : Choice) (value : String) : Prop :=
  match c with
  | .index => (parseIndex? value).isSome
  | .inject => True

/-- Whether an item keeps to the command syntax: values are those that their switches
take, a name is not empty, has no colon and does not start with a slash, the path of a
named file is not empty, and that of an archive looks neither like a switch nor like a
named file. -/
def IsProper : Item → Prop
  | toggle _ _ => True
  | attached c value => takes c value
  | separate c _ value => takes c value
  | named _ name path =>
      name ≠ "" ∧ ':' ∉ name.toList ∧ name.toList.head? ≠ some '/' ∧ path ≠ ""
  | archive path => path.toList.head? ≠ some '-' ∧ path.toList.take 2 ≠ ['@', ':']

instance (c : Choice) (value : String) : Decidable (takes c value) :=
  match c with
  | .index => inferInstanceAs (Decidable ((parseIndex? value).isSome = true))
  | .inject => inferInstanceAs (Decidable True)

instance : DecidablePred IsProper
  | toggle _ _ => inferInstanceAs (Decidable True)
  | attached c value => inferInstanceAs (Decidable (takes c value))
  | separate c _ value => inferInstanceAs (Decidable (takes c value))
  | named _ name path => inferInstanceAs (Decidable
      (name ≠ "" ∧ ':' ∉ name.toList ∧ name.toList.head? ≠ some '/' ∧ path ≠ ""))
  | archive path => inferInstanceAs (Decidable
      (path.toList.head? ≠ some '-' ∧ path.toList.take 2 ≠ ['@', ':']))

/-- Whether an item is the given on-off switch. -/
def isToggle (t : Toggle) : Item → Bool
  | toggle u _ => u == t
  | _ => false

/-- The value that an item gives to a switch, if it does. -/
def valueOf? (c : Choice) : Item → Option String
  | attached d value => if d = c then some value else none
  | separate d _ value => if d = c then some value else none
  | _ => none

/-- The file of an item, if it is one. -/
def file? : Item → Option FileArgument
  | named _ name path => some { name := some name, path }
  | archive path => some { name := none, path }
  | _ => none

/-- The last of the values that items give to a switch. -/
def lastValue? (c : Choice) (items : List Item) : Option String :=
  (items.filterMap (valueOf? c)).getLast?

/-- The settings that items ask for: an on-off switch is on if it occurs, and of several
values the last one counts. -/
def settingsOf (items : List Item) : Settings where
  gui := items.any (isToggle .gui)
  rawStore := items.any (isToggle .rawStore)
  rawContainers := items.any (isToggle .rawContainers)
  pause := items.any (isToggle .pause)
  inMemory := items.any (isToggle .inMemory)
  index := ((lastValue? .index items).bind parseIndex?).getD ({} : Settings).index
  injectDirectory := (lastValue? .inject items).getD ({} : Settings).injectDirectory

/-- The files among items, in order. -/
def filesOf (items : List Item) : List FileArgument := items.filterMap file?

end Item

end BootVolume.Options
