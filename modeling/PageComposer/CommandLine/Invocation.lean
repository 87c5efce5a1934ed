import PageComposer.Path.Basic
import PageComposer.Text.Search

namespace PageComposer
namespace CommandLine

/-!
# Reading the arguments of an invocation

Arguments are read from left to right, first the common ones and then, behind
the name of a command, its own.  Common switches may stand on either side of
the command.  The first argument that does not fit ends the reading, and so
does a request for help or for the version.
-/

/-- How a result is printed. -/
inductive Format
  | text
  | json
deriving DecidableEq, Inhabited

/-- What is to be done. -/
inductive Command
  /-- Create a sample project. -/
  | init
  /-- Compose a template and print it. -/
  | compose (file : Path) (maxRuns? : Option Nat) (markRegions : Bool) (format : Format)
  /-- Collapse the marked regions of a composed page. -/
  | decompile (file : Path) (nested : Bool) (format : Format)
  /-- List the placeholders of a template. -/
  | scan (file : Path) (format : Format)
  /-- Compose every template without writing anything. -/
  | check (format : Format)
  /-- Compose every template and write the pages. -/
  | build (target? : Option Path)
deriving DecidableEq

/-- A command with the common settings. -/
structure Invocation where
  /-- The project root; the working folder where it is not given. -/
  root? : Option Path
  plain : Bool
  command? : Option Command
deriving DecidableEq

/-- Why there is nothing to be done. -/
inductive Stop
  | usageError
  | helpWanted
  | versionWanted
deriving DecidableEq

/-- The switches of all commands. -/
inductive Switch
  | path
  | verbose
  | noColor
  | help
  | version
  | maxRuns
  | markers
  | format
  | recursive
  | out
deriving DecidableEq

namespace Switch

/-- The name behind two hyphens. -/
def long : Switch -> Text
  | path => "path".toList
  | verbose => "verbose".toList
  | noColor => "no-color".toList
  | help => "help".toList
  | version => "version".toList
  | maxRuns => "max-runs".toList
  | markers => "markers".toList
  | format => "format".toList
  | recursive => "recursive".toList
  | out => "out".toList

/-- The letter behind one hyphen. -/
def short? : Switch -> Option Char
  | path => some 'p'
  | verbose => some 'v'
  | help => some 'h'
  | version => some 'V'
  | _ => none

/-- Whether a value follows. -/
def takesValue : Switch -> Bool
  | path | maxRuns | format | out => true
  | _ => false

end Switch

/-- A number of at most 64 bits; a plus sign may stand in front. -/
def readLimit? (text : Text) : Option Nat :=
  let digits := (Text.dropStart? ['+'] text).getD text
  if digits.isEmpty || !digits.all Char.isDigit then none
  else
    let number := digits.foldl (fun number digit => 10 * number + (digit.toNat - 48)) 0
    if number < UInt64.size then some number else none

/-- The format with this name. -/
def readFormat? (text : Text) : Option Format :=
  if text = "text".toList then some .text
  else if text = "json".toList then some .json
  else none

/-- Whether a switch may have a value. -/
def isValueOf (switch : Switch) (value : Text) : Bool :=
  match switch with
  | .path | .out => !value.isEmpty
  | .maxRuns => (readLimit? value).isSome
  | .format => (readFormat? value).isSome
  | _ => true

/-- The arguments that may stand at one level. -/
structure Level where
  switches : List Switch
  /-- How many words that are no switches may stand here. -/
  words : Nat
  /-- The names that end the level. -/
  commands : List Text := []

/-- Arguments read so far. -/
structure Given where
  /-- Switches with their values. -/
  switches : List (Switch × Text) := []
  /-- Words, the last one first. -/
  words : List Text := []
  /-- A switch whose value is the next argument. -/
  waiting? : Option Switch := none
  /-- Whether every further argument is a word. -/
  wordsOnly : Bool := false

namespace Given

/-- The value of a switch. -/
def value? (given : Given) (switch : Switch) : Option Text :=
  given.switches.lookup switch

/-- Whether a switch is given. -/
def has (given : Given) (switch : Switch) : Bool :=
  (given.value? switch).isSome

/-- Take note of a switch, which may be given once. -/
def note (given : Given) (switch : Switch) (value : Text) : Except Stop Given :=
  match switch with
  | .help => .error .helpWanted
  | .version => .error .versionWanted
  | _ =>
      if given.has switch || !isValueOf switch value then .error .usageError
      else .ok { given with switches := (switch, value) :: given.switches, waiting? := none }

/-- Take note of a word. -/
def noteWord (given : Given) (level : Level) (word : Text) : Except Stop Given :=
  if given.words.length < level.words && !word.isEmpty then
    .ok { given with words := word :: given.words }
  else .error .usageError

end Given

/-- Read a switch by its name, with the value behind an equals sign. -/
def readLong (level : Level) (given : Given) (text : Text) : Except Stop Given :=
  let (name, value?) :=
    match Text.cutAtChar? '=' text with
    | some (name, value) => (name, some value)
    | none => (text, none)
  match level.switches.find? (fun switch => switch.long == name), value? with
  | none, _ => .error .usageError
  | some switch, some value =>
      if switch.takesValue then given.note switch value else .error .usageError
  | some switch, none =>
      if switch.takesValue then .ok { given with waiting? := some switch }
      else given.note switch []

/-- Read switches by their letters.  What follows the letter of a switch with
a value is that value. -/
def readShort (level : Level) (given : Given) : Text -> Except Stop Given
  | [] => .ok given
  | letter :: rest =>
      match level.switches.find? fun switch => switch.short? == some letter with
      | none => .error .usageError
      | some switch =>
          if switch.takesValue then
            if rest.isEmpty then .ok { given with waiting? := some switch }
            else given.note switch ((Text.dropStart? ['='] rest).getD rest)
          else do
            let given <- given.note switch []
            readShort level given rest

/-- Read one argument. -/
def readArgument (level : Level) (given : Given) (argument : Text) : Except Stop Given :=
  if given.wordsOnly then given.noteWord level argument
  else
    match argument, given.waiting? with
    | '-' :: _ :: _, some _ => .error .usageError
    | ['-', '-'], none => .ok { given with wordsOnly := true }
    | '-' :: '-' :: rest, none => readLong level given rest
    | '-' :: letter :: rest, none => readShort level given (letter :: rest)
    | _, some switch => given.note switch argument
    | _, none => given.noteWord level argument

/-- Read the arguments of a level, up to the name of a command and the
arguments behind it. -/
def readLevel (level : Level) (given : Given) :
    List Text -> Except Stop (Given × Option (Text × List Text))
  | [] => if given.waiting?.isSome then .error .usageError else .ok (given, none)
  | argument :: rest =>
      if given.waiting?.isNone && !given.wordsOnly && level.commands.contains argument then
        .ok (given, some (argument, rest))
      else do
        let given <- readArgument level given argument
        readLevel level given rest

/-- The switches that may stand at every level. -/
def commonSwitches : List Switch :=
  [.path, .verbose, .noColor, .help]

/-- The commands, each with its own switches and its number of words. -/
def commands : List (Text × List Switch × Nat) :=
  [("init".toList, [], 0),
    ("compose".toList, [.maxRuns, .markers, .format], 1),
    ("decompile".toList, [.recursive, .format], 1),
    ("scan".toList, [.format], 1),
    ("check".toList, [.format], 0),
    ("build".toList, [.out], 0)]

/-- The name of the command that explains the others. -/
def helpCommand : Text := "help".toList

/-- The level in front of a command. -/
def topLevel : Level where
  switches := .version :: commonSwitches
  words := 0
  commands := helpCommand :: commands.map Prod.fst

/-- The request for help on a command. -/
def readHelp : List Text -> Stop
  | [] => .helpWanted
  | [name] => if topLevel.commands.contains name then .helpWanted else .usageError
  | _ => .usageError

/-- The command with this name and these arguments. -/
def commandOf (name : Text) (given : Given) : Except Stop Command :=
  let format := ((given.value? .format).bind readFormat?).getD .text
  match String.ofList name, given.words with
  | "init", _ => .ok .init
  | "compose", [file] =>
      .ok (.compose ⟨file⟩ ((given.value? .maxRuns).bind readLimit?) (given.has .markers) format)
  | "decompile", [file] => .ok (.decompile ⟨file⟩ (given.has .recursive) format)
  | "scan", [file] => .ok (.scan ⟨file⟩ format)
  | "check", _ => .ok (.check format)
  | "build", _ => .ok (.build ((given.value? .out).map Path.mk))
  | _, _ => .error .usageError

/-- Read the arguments of an invocation.  A common switch behind the command
takes precedence over the same switch in front of it. -/
def Invocation.read (arguments : List Text) : Except Stop Invocation := do
  let (front, command?) <- readLevel topLevel {} arguments
  match command? with
  | none => return ⟨(front.value? .path).map Path.mk, front.has .noColor, none⟩
  | some (name, rest) =>
      if name = helpCommand then throw (readHelp rest)
      let (switches, words) := (commands.lookup name).getD ([], 0)
      let (own, _) <- readLevel { switches := switches ++ commonSwitches, words := words } {} rest
      let command <- commandOf name own
      return {
        root? := ((own.value? .path).or (front.value? .path)).map Path.mk
        plain := front.has .noColor || own.has .noColor
        command? := some command }

end CommandLine
end PageComposer
