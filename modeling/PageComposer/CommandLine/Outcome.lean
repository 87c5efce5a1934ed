import PageComposer.Failure
import PageComposer.FileTree.Basic

namespace PageComposer
namespace CommandLine

/-!
# What an invocation results in
-/

/-- What an invocation prints, its exit code, and the file tree it leaves. -/
structure Outcome where
  tree : FileTree
  code : Nat := 0
  output : Text := []
  errors : Text := []
  /-- The diagnostic code of a reported failure. -/
  diagnostic? : Option Text := none

/-- The ways in which a text can be emphasized. -/
inductive Emphasis
  | red
  | green
  | yellow
  | bold

/-- The terminal codes that begin and end an emphasis. -/
def Emphasis.codes : Emphasis -> Text × Text
  | red => ("31".toList, "39".toList)
  | green => ("32".toList, "39".toList)
  | yellow => ("33".toList, "39".toList)
  | bold => ("1".toList, "0".toList)

/-- A text with emphasis, unless printing is plain. -/
def emphasize (plain : Bool) (emphasis : Emphasis) (text : Text) : Text :=
  if plain then text
  else
    let mark (code : Text) : Text := ['\x1B', '['] ++ code ++ ['m']
    mark emphasis.codes.1 ++ text ++ mark emphasis.codes.2

/-- A text with a line end. -/
def line (text : Text) : Text :=
  text ++ ['\n']

/-- A failure of the invocation as a whole. -/
def Outcome.ofFailure (tree : FileTree) (plain : Bool) (failure : Failure) : Outcome where
  tree := tree
  code := 2
  errors :=
    let message := failure.message?.getD "failed to parse config file".toList
    let help :=
      match failure.help? with
      | some help => line ("  help: ".toList ++ help)
      | none => []
    line (emphasize plain .red failure.code ++ ": ".toList ++ message) ++ help
  diagnostic? := some failure.code

end CommandLine
end PageComposer
