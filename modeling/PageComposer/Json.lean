import PageComposer.Text.Basic

namespace PageComposer

/-!
# JSON texts

Reports are printed as JSON, either on one line or with every item on a line
of its own.  Numbers are whole.
-/

/-- A JSON value.  Objects keep the order of their members. -/
inductive Json
  | null
  | boolean (truth : Bool)
  | number (value : Nat)
  | string (text : Text)
  | array (items : List Json)
  | object (members : List (Text × Json))
deriving Inhabited

namespace Json

/-- A digit of a numeric escape. -/
def hexDigit (value : Nat) : Char :=
  (Nat.toDigits 16 value).headD '0'

/-- A character inside a string.  Quotes, backslashes and control characters
are escaped, and everything else stands for itself. -/
def escape (character : Char) : Text :=
  if character = '"' then ['\\', '"']
  else if character = '\\' then ['\\', '\\']
  else if character = '\x08' then ['\\', 'b']
  else if character = '\t' then ['\\', 't']
  else if character = '\n' then ['\\', 'n']
  else if character = '\x0C' then ['\\', 'f']
  else if character = '\r' then ['\\', 'r']
  else if character.toNat < 0x20 then
    ['\\', 'u', '0', '0', hexDigit (character.toNat / 16), hexDigit (character.toNat % 16)]
  else [character]

/-- A string between quotes. -/
def quote (text : Text) : Text :=
  '"' :: text.flatMap escape ++ ['"']

/-- A value that is neither an array nor an object. -/
def scalar : Json -> Text
  | boolean truth => if truth then "true".toList else "false".toList
  | number value => Text.ofNat value
  | string text => quote text
  | _ => "null".toList

mutual

/-- A value on one line. -/
def compact : Json -> Text
  | array items => '[' :: compactItems items ++ [']']
  | object members => '\x7b' :: compactMembers members ++ ['\x7d']
  | value => scalar value

/-- Items between commas. -/
def compactItems : List Json -> Text
  | [] => []
  | [item] => compact item
  | item :: items => compact item ++ ',' :: compactItems items

/-- Members between commas. -/
def compactMembers : List (Text × Json) -> Text
  | [] => []
  | [(key, value)] => quote key ++ ':' :: compact value
  | (key, value) :: members => quote key ++ ':' :: compact value ++ ',' :: compactMembers members

end

/-- A line end, and the indentation of a level. -/
def lineStart (level : Nat) : Text :=
  '\n' :: List.replicate (2 * level) ' '

mutual

/-- A value whose first line is at an indentation level. -/
def prettyAt (level : Nat) : Json -> Text
  | array (item :: items) =>
      '[' :: prettyItems (level + 1) (item :: items) ++ lineStart level ++ [']']
  | array [] => ['[', ']']
  | object (member :: members) =>
      '\x7b' :: prettyMembers (level + 1) (member :: members) ++ lineStart level ++ ['\x7d']
  | object [] => ['\x7b', '\x7d']
  | value => scalar value

/-- Items, each on a line of its own. -/
def prettyItems (level : Nat) : List Json -> Text
  | [] => []
  | [item] => lineStart level ++ prettyAt level item
  | item :: items => lineStart level ++ prettyAt level item ++ ',' :: prettyItems level items

/-- Members, each on a line of its own. -/
def prettyMembers (level : Nat) : List (Text × Json) -> Text
  | [] => []
  | [(key, value)] => lineStart level ++ quote key ++ ':' :: ' ' :: prettyAt level value
  | (key, value) :: members =>
      lineStart level ++ quote key ++ ':' :: ' ' :: prettyAt level value ++
        ',' :: prettyMembers level members

end

/-- A value with every item on a line of its own. -/
def pretty (value : Json) : Text :=
  prettyAt 0 value

/-- An array of strings. -/
def strings (texts : List Text) : Json :=
  array (texts.map string)

/-- An object with the given members. -/
def record (members : List (String × Json)) : Json :=
  object (members.map fun member => (member.1.toList, member.2))

end Json
end PageComposer
