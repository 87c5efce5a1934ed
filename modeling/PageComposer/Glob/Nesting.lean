import PageComposer.Glob.Pattern

namespace PageComposer
namespace Glob

/-!
# How deep the expression of a glob is nested

The expression is counted as it is spelled: a group, a choice between branches,
a sequence of several parts, a repetition and a class each add a level around
what they hold.
-/

/-- How many parts of a sequence a token is. -/
def Token.parts : Token -> Nat
  | .literal character => (String.utf8EncodeChar character).length
  | .trailingPath => 2
  | .alternatives branches => if allVoid branches then 0 else 1
  | _ => 1

/-- The level that a sequence adds, which it does with two parts or more. -/
def sequenceLevel (tokens : List Token) : Nat :=
  if 2 ≤ tokens.foldl (fun count token => count + token.parts) 0 then 1 else 0

/-- The levels of a group without what it holds. -/
def groupLevels (branches : List (List Token)) : Nat :=
  match (branches.filter fun branch => !branchIsVoid branch).length with
  | 0 => 0
  | 1 => 1
  | _ => 2

mutual

/-- The levels of a token. -/
def Token.nesting (rules : Rules) : Token -> Nat
  | .literal _ => 0
  | .any => if rules.slashesCount then 1 else 0
  | .star => if rules.slashesCount then 2 else 1
  | .leadingFolders => 4
  | .trailingPath => 1
  | .innerFolders => 4
  | .characterClass _ ranges => if (ranges.flatMap byteRanges).length < 2 then 1 else 2
  | .alternatives branches => groupLevels branches + branchesNesting rules branches

/-- The levels of the deepest token. -/
def tokensNesting (rules : Rules) : List Token -> Nat
  | [] => 0
  | token :: tokens => max (token.nesting rules) (tokensNesting rules tokens)

/-- The levels of the deepest branch. -/
def branchesNesting (rules : Rules) : List (List Token) -> Nat
  | [] => 0
  | branch :: branches =>
      max (sequenceLevel branch + tokensNesting rules branch) (branchesNesting rules branches)

end

/-- The levels of a glob, which is a sequence between its two ends. -/
def Pattern.nesting (pattern : Pattern) : Nat :=
  1 + tokensNesting pattern.rules pattern.tokens

/-- The most levels of a glob that can be searched for. -/
def maxNesting : Nat := 250

/-- Whether a glob can be searched for. -/
def Pattern.isSearchable (pattern : Pattern) : Bool :=
  pattern.nesting ≤ maxNesting

end Glob
end PageComposer
