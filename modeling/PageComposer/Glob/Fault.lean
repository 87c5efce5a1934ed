import PageComposer.Text.Basic

namespace PageComposer
namespace Glob

/-!
# What can be wrong with globs
-/

/-- The reason why a text is no glob. -/
inductive Fault
  /-- A class that is never closed. -/
  | unclosedClass
  /-- A range of characters whose ends are in the wrong order. -/
  | invalidRange (first last : Char)
  /-- A closing brace without an opening one. -/
  | unopenedGroup
  /-- An opening brace without a closing one. -/
  | unclosedGroup
  /-- A backslash with nothing behind it. -/
  | danglingEscape
deriving DecidableEq

/-- The wording of a fault. -/
def Fault.message : Fault -> Text
  | unclosedClass => "unclosed character class; missing ']'".toList
  | invalidRange first last =>
      "invalid range; '".toList ++ first :: "' > '".toList ++ last :: ['\'']
  | unopenedGroup =>
      ("unopened alternate group; missing '\x7b' " ++
        "(maybe escape '\x7d' with '[\x7d]'?)").toList
  | unclosedGroup =>
      ("unclosed alternate group; missing '\x7d' " ++
        "(maybe escape '\x7b' with '[\x7b]'?)").toList
  | danglingEscape => "dangling '\\'".toList

/-- Why globs cannot be searched for: the expression of one is nested too
deeply. -/
inductive SearchFault
  /-- A glob that is searched for by itself, by its expression. -/
  | alone (expression : Text)
  /-- A glob that is searched for together with others, by its position. -/
  | together (position : Nat)
deriving DecidableEq

/-- The wording of a fault of a search. -/
def SearchFault.message : SearchFault -> Text
  | alone expression =>
      "error parsing glob '".toList ++ expression ++ "': error parsing pattern 0".toList
  | together position => "error parsing pattern ".toList ++ Text.ofNat position

end Glob
end PageComposer
