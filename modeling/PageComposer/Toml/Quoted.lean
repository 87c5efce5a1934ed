import PageComposer.Toml.Digits

namespace PageComposer
namespace Toml

/-!
# Quoted strings

A string is basic, with escapes, or literal, without.  Either kind stands on
one line between single quotes, or on several lines between triple quotes, in
which case a line end right after the opening is dropped, the other line ends
are kept as they are, and up to two quotes may stand right before the closing.

Readers take the text behind the opening quotes and return the string with the
text behind the closing quotes.
-/

/-- Characters that stand for themselves: no control character but the tab. -/
def isPrintable (character : Char) : Bool :=
  character == '\t' || (0x20 ≤ character.toNat && character.toNat != 0x7F)

/-- The character for a one-letter escape. -/
def simpleEscape? : Char -> Option Char
  | 'b' => some '\x08'
  | 't' => some '\t'
  | 'n' => some '\n'
  | 'f' => some '\x0C'
  | 'r' => some '\r'
  | 'e' => some '\x1B'
  | '"' => some '"'
  | '\\' => some '\\'
  | _ => none

/-- The number of hexadecimal digits of a numeric escape. -/
def hexEscape? : Char -> Option Nat
  | 'x' => some 2
  | 'u' => some 4
  | 'U' => some 8
  | _ => none

/-- What a reader of a basic string is in the middle of. -/
inductive BasicState
  | plain
  /-- Behind a backslash. -/
  | escape
  /-- In a numeric escape with some digits left. -/
  | digits (left value : Nat)
  /-- Behind a backslash and blanks, before the end of the line. -/
  | lineEnd
  /-- Behind a backslash at the end of a line. -/
  | fold

/-- Take one more digit of a numeric escape. -/
def takeDigit (left value : Nat) (character : Char) (seen : Text) :
    Option (BasicState × Text) := do
  let digit <- hexDigit? character
  let value := 16 * value + digit
  if 1 < left then pure (.digits (left - 1) value, seen)
  else if value.isValidChar then pure (.plain, Char.ofNat value :: seen)
  else none

/-- Read the rest of a basic string on one line. -/
def readBasic (seen : Text) : BasicState -> Text -> Option (Text × Text)
  | _, [] => none
  | .plain, '"' :: rest => some (seen.reverse, rest)
  | .plain, '\\' :: rest => readBasic seen .escape rest
  | .plain, character :: rest =>
      if isPrintable character then readBasic (character :: seen) .plain rest else none
  | .escape, character :: rest =>
      match simpleEscape? character, hexEscape? character with
      | some meant, _ => readBasic (meant :: seen) .plain rest
      | none, some left => readBasic seen (.digits left 0) rest
      | none, none => none
  | .digits left value, character :: rest =>
      match takeDigit left value character seen with
      | some (state, seen) => readBasic seen state rest
      | none => none
  | .lineEnd, _ => none
  | .fold, _ => none

/-- Up to two quotes before a closing of three, given what follows the three
that were met first. -/
def closeTriple (quote : Char) (seen rest : Text) : Text × Text :=
  match rest with
  | first :: second :: others =>
      if first = quote ∧ second = quote then ((quote :: quote :: seen).reverse, others)
      else if first = quote then ((quote :: seen).reverse, second :: others)
      else (seen.reverse, rest)
  | [first] => if first = quote then ((quote :: seen).reverse, []) else (seen.reverse, rest)
  | [] => (seen.reverse, [])

/-- Read the rest of a basic string on several lines.  A backslash at the end
of a line drops the line end and all blanks and line ends behind it. -/
def readBasicLines (seen : Text) : BasicState -> Text -> Option (Text × Text)
  | _, [] => none
  | .plain, '"' :: '"' :: '"' :: rest => some (closeTriple '"' seen rest)
  | .plain, '\\' :: rest => readBasicLines seen .escape rest
  | .plain, '\n' :: rest => readBasicLines ('\n' :: seen) .plain rest
  | .plain, '\r' :: '\n' :: rest => readBasicLines ('\n' :: '\r' :: seen) .plain rest
  | .plain, character :: rest =>
      if isPrintable character then readBasicLines (character :: seen) .plain rest else none
  | .escape, '\n' :: rest => readBasicLines seen .fold rest
  | .escape, '\r' :: '\n' :: rest => readBasicLines seen .fold rest
  | .escape, ' ' :: rest => readBasicLines seen .lineEnd rest
  | .escape, '\t' :: rest => readBasicLines seen .lineEnd rest
  | .escape, character :: rest =>
      match simpleEscape? character, hexEscape? character with
      | some meant, _ => readBasicLines (meant :: seen) .plain rest
      | none, some left => readBasicLines seen (.digits left 0) rest
      | none, none => none
  | .digits left value, character :: rest =>
      match takeDigit left value character seen with
      | some (state, seen) => readBasicLines seen state rest
      | none => none
  | .lineEnd, '\n' :: rest => readBasicLines seen .fold rest
  | .lineEnd, '\r' :: '\n' :: rest => readBasicLines seen .fold rest
  | .lineEnd, ' ' :: rest => readBasicLines seen .lineEnd rest
  | .lineEnd, '\t' :: rest => readBasicLines seen .lineEnd rest
  | .lineEnd, _ => none
  | .fold, '\n' :: rest => readBasicLines seen .fold rest
  | .fold, '\r' :: '\n' :: rest => readBasicLines seen .fold rest
  | .fold, ' ' :: rest => readBasicLines seen .fold rest
  | .fold, '\t' :: rest => readBasicLines seen .fold rest
  | .fold, '"' :: '"' :: '"' :: rest => some (closeTriple '"' seen rest)
  | .fold, '\\' :: rest => readBasicLines seen .escape rest
  | .fold, character :: rest =>
      if isPrintable character then readBasicLines (character :: seen) .plain rest else none

/-- Read the rest of a literal string on one line. -/
def readLiteral (seen : Text) : Text -> Option (Text × Text)
  | [] => none
  | '\'' :: rest => some (seen.reverse, rest)
  | character :: rest =>
      if isPrintable character then readLiteral (character :: seen) rest else none

/-- Read the rest of a literal string on several lines. -/
def readLiteralLines (seen : Text) : Text -> Option (Text × Text)
  | [] => none
  | '\'' :: '\'' :: '\'' :: rest => some (closeTriple '\'' seen rest)
  | '\n' :: rest => readLiteralLines ('\n' :: seen) rest
  | '\r' :: '\n' :: rest => readLiteralLines ('\n' :: '\r' :: seen) rest
  | character :: rest =>
      if isPrintable character then readLiteralLines (character :: seen) rest else none

/-- Drop a line end at the front. -/
def dropLineEnd : Text -> Text
  | '\n' :: rest => rest
  | '\r' :: '\n' :: rest => rest
  | text => text

/-- A string on one line. -/
def quotedLine? : Text -> Option (Text × Text)
  | '"' :: rest => readBasic [] .plain rest
  | '\'' :: rest => readLiteral [] rest
  | _ => none

/-- A string of any kind. -/
def quoted? : Text -> Option (Text × Text)
  | '"' :: '"' :: '"' :: rest => readBasicLines [] .plain (dropLineEnd rest)
  | '\'' :: '\'' :: '\'' :: rest => readLiteralLines [] (dropLineEnd rest)
  | text => quotedLine? text

end Toml
end PageComposer
