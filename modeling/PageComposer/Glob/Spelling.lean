import PageComposer.Glob.Pattern

namespace PageComposer
namespace Glob

/-!
# The expression of a glob as text

The expression is spelled in the usual syntax of regular expressions over
bytes.  Only reports on expressions need it.
-/

/-- The characters that mean something else in an expression. -/
def operators : Text :=
  "\\.+*?()|[]\x7b\x7d^$#&-~".toList

/-- A byte as it is spelled.  Bytes beyond ASCII are numeric. -/
def spellByte (byte : UInt8) : Text :=
  if byte < 128 then
    let character := Char.ofNat byte.toNat
    if operators.any (· == character) then ['\\', character] else [character]
  else
    let digit (value : Nat) : Char := if value < 10 then Char.ofNat (48 + value)
      else Char.ofNat (87 + value)
    ['\\', 'x', digit (byte.toNat / 16), digit (byte.toNat % 16)]

/-- A character as it is spelled. -/
def spellCharacter (character : Char) : Text :=
  (String.utf8EncodeChar character).flatMap spellByte

/-- A range of a class as it is spelled. -/
def spellRange (range : Char × Char) : Text :=
  if range.1 = range.2 then spellCharacter range.1
  else spellCharacter range.1 ++ '-' :: spellCharacter range.2

/-- What a question mark is spelled as. -/
def Rules.spellAny (rules : Rules) : Text :=
  if rules.slashesCount then "[^/]".toList else ['.']

mutual

/-- A token as it is spelled. -/
def Token.spell (rules : Rules) : Token -> Text
  | .literal character => spellCharacter character
  | .any => rules.spellAny
  | .star => rules.spellAny ++ ['*']
  | .leadingFolders => "(?:/?|.*/)".toList
  | .trailingPath => "/.*".toList
  | .innerFolders => "(?:/|/.*/)".toList
  | .characterClass negated ranges =>
      '[' :: (if negated then ['^'] else []) ++ ranges.flatMap spellRange ++ [']']
  | .alternatives branches =>
      if allVoid branches then []
      else "(?:".toList ++ Text.joinWith ['|'] (spellBranches rules branches) ++ [')']

/-- Tokens as they are spelled one after the other. -/
def spellTokens (rules : Rules) : List Token -> Text
  | [] => []
  | token :: tokens => token.spell rules ++ spellTokens rules tokens

/-- The branches of a group as they are spelled, without the empty ones. -/
def spellBranches (rules : Rules) : List (List Token) -> List Text
  | [] => []
  | branch :: branches =>
      if branchIsVoid branch then spellBranches rules branches
      else spellTokens rules branch :: spellBranches rules branches

end

/-- The expression of a glob as it is spelled. -/
def Pattern.spelling (pattern : Pattern) : Text :=
  let inside :=
    match pattern.tokens with
    | [.leadingFolders] => ['.', '*']
    | tokens => spellTokens pattern.rules tokens
  "(?-u)^".toList ++ inside ++ ['$']

end Glob
end PageComposer
