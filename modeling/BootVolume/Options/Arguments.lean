import BootVolume.Failure
import BootVolume.Options.Settings
import BootVolume.Text.Blank
import BootVolume.Text.CaseFold
import BootVolume.Text.Utf8

/-!
# Command arguments

```text
[--gui|-g] [--rawbcd|-b] [--rawwim|-w] [--pause|-p] [--mem|-m]
[--index=N|-i N] [--inject=DIR|-j DIR] FILE...
```

`FILE` is `@:NAME:PATH`, which gives the file at `PATH` the name `NAME`, or the
bare path of an archive. Switches and files may stand in any order; a later
value of a switch replaces an earlier one.
-/

namespace BootVolume.Options

/-! ## What an argument is -/

/-- The switches that are on or off. -/
inductive Toggle where
  | gui
  | rawStore
  | rawContainers
  | pause
  | inMemory
  deriving DecidableEq, Repr, Inhabited

namespace Toggle

/-- The two spellings of a switch. -/
def spellings : Toggle → List String
  | gui => ["--gui", "-g"]
  | rawStore => ["--rawbcd", "-b"]
  | rawContainers => ["--rawwim", "-w"]
  | pause => ["--pause", "-p"]
  | inMemory => ["--mem", "-m"]

/-- All on-off switches. -/
def all : List Toggle := [gui, rawStore, rawContainers, pause, inMemory]

/-- The settings with this switch on. -/
def switchOn (t : Toggle) (s : Settings) : Settings :=
  match t with
  | gui => { s with gui := true }
  | rawStore => { s with rawStore := true }
  | rawContainers => { s with rawContainers := true }
  | pause => { s with pause := true }
  | inMemory => { s with inMemory := true }

end Toggle

/-- The switches that take a value. -/
inductive Choice where
  | index
  | inject
  deriving DecidableEq, Repr, Inhabited

namespace Choice

/-- The long spelling of a switch, by which messages name it. -/
def long : Choice → String
  | index => "--index"
  | inject => "--inject"

/-- The two spellings of a switch. -/
def spellings : Choice → List String
  | index => ["--index", "-i"]
  | inject => ["--inject", "-j"]

/-- All switches that take a value. -/
def all : List Choice := [index, inject]

end Choice

/-- What an argument is. -/
inductive ArgumentKind where
  | toggle (t : Toggle)
  /-- A switch that takes a value, which may be attached to it. -/
  | choice (c : Choice) (attached : Option String)
  | unknownSwitch
  | file
  deriving DecidableEq, Repr, Inhabited

/-- The switch of an argument and the value attached to it. Only a switch with two
dashes can have a value attached, behind its first equals sign. -/
def splitValue (argument : String) : String × Option String :=
  let cs := argument.toList
  let switch := cs.takeWhile (· != '=')
  match cs.dropWhile (· != '=') with
  | _ :: value =>
      if switch.take 2 = ['-', '-'] then (String.ofList switch, some (String.ofList value))
      else (argument, none)
  | [] => (argument, none)

/-- What an argument is. A value attached to an on-off switch is ignored. -/
def kindOf (argument : String) : ArgumentKind :=
  let (switch, attached) := splitValue argument
  match Toggle.all.find? (·.spellings.contains switch) with
  | some t => .toggle t
  | none =>
      match Choice.all.find? (·.spellings.contains switch) with
      | some c => .choice c attached
      | none => if switch.toList.head? = some '-' then .unknownSwitch else .file

/-! ## Values -/

/-- The number that decimal digits spell. -/
def decimalValue (digits : List Char) : Nat :=
  digits.foldl (fun value c => value * 10 + (c.toNat - 48)) 0

/-- The 32-bit number that a text spells: digits, possibly behind one plus sign. -/
def parseIndex? (text : String) : Option UInt32 :=
  let digits := match text.toList with
    | '+' :: rest => rest
    | cs => cs
  if !digits.isEmpty && digits.all Char.isDigit && decimalValue digits < Bytes.limit32 then
    some (UInt32.ofNat (decimalValue digits))
  else none

/-- The settings with the value of a switch set. -/
def assign (c : Choice) (value : String) (s : Settings) : Except InputError Settings :=
  match c with
  | .index =>
      match parseIndex? value with
      | some index => .ok { s with index }
      | none => .error (.badIndex value)
  | .inject => .ok { s with injectDirectory := value }

/-- The file that an argument names. Slashes before the name do not belong to it. -/
def parseFile (argument : String) : Except InputError FileArgument :=
  match argument.toList with
  | '@' :: ':' :: rest =>
      let rest := rest.dropWhile (· == '/')
      match rest.takeWhile (· != ':'), rest.dropWhile (· != ':') with
      | n :: ame, _ :: p :: ath =>
          .ok { name := some (String.ofList (n :: ame)), path := String.ofList (p :: ath) }
      | _, _ => .error (.malformedArgument argument)
  | _ => .ok { name := none, path := argument }

/-! ## Argument lists -/

/-- The settings and files of the rest of an argument list, behind those that are
already known. -/
def parseFrom (settings : Settings) (files : List FileArgument) :
    List String → Except InputError (Settings × List FileArgument)
  | [] => if files.isEmpty then .error .noFiles else .ok (settings, files)
  | argument :: rest =>
      match kindOf argument with
      | .toggle t => parseFrom (t.switchOn settings) files rest
      | .choice c (some value) => do
          let settings ← assign c value settings
          parseFrom settings files rest
      | .choice c none =>
          match rest with
          | [] => .error (.missingValue c.long)
          | value :: rest => do
              let settings ← assign c value settings
              parseFrom settings files rest
      | .unknownSwitch => .error (.malformedArgument argument)
      | .file => do
          let file ← parseFile argument
          parseFrom settings (files ++ [file]) rest

/-- The settings and files of an argument list. -/
def parseArguments (arguments : List String) :
    Except InputError (Settings × List FileArgument) :=
  parseFrom {} [] arguments

/-- Whether the first word of a line names the program itself: it ends in `.efi` in
letters of either case and is no file argument. -/
def isProgramPath (word : String) : Bool :=
  let cs := word.toList
  let tail := cs.drop (cs.length - 4)
  tail.map Char.toLower == ".efi".toList && cs.take 2 != ['@', ':']

/-- The settings and files of a command line. Its words are separated by blanks; a
first word that names the program is left out. -/
def parseLine (line : String) : Except InputError (Settings × List FileArgument) :=
  match Text.words line with
  | first :: rest =>
      if isProgramPath first then parseArguments rest else parseArguments (first :: rest)
  | [] => parseArguments []

end BootVolume.Options
