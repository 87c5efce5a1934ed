import PageComposer.Toml.Number

namespace PageComposer
namespace Toml

/-!
# Unquoted values

Truth values, numbers and points in time are written without quotes.  Such a
value is first cut off the text as a whole and then recognized: it is a value
only if one of the forms accounts for every character of it.
-/

/-- The value that a whole text is, if it is an unquoted value. -/
def scalarOf? (text : Text) : Option Value :=
  if text = ['t', 'r', 'u', 'e'] then some (.boolean true)
  else if text = ['f', 'a', 'l', 's', 'e'] then some (.boolean false)
  else
    match moment? text with
    | some moment => some (.moment moment)
    | none =>
        match wholeNumber? text with
        | some value => some value
        | none => float? text

/-- The characters that end an unquoted value. -/
def endsScalar (character : Char) : Bool :=
  [' ', '\t', '\n', '\r', '=', ',', '[', ']', '\x7b', '\x7d', '#', '"', '\''].contains character

/-- An unquoted value at the front of a text.  A space belongs to it between a
day and a time of day. -/
def scalar? (text : Text) : Option (Value × Text) :=
  let cut (text : Text) : Text × Text :=
    (text.takeWhile fun character => !endsScalar character,
      text.dropWhile fun character => !endsScalar character)
  let (first, rest) := cut text
  let (written, rest) :=
    match day? first, rest with
    | some (_, []), ' ' :: next :: others =>
        if isDigit next then
          let (second, rest) := cut (next :: others)
          (first ++ ' ' :: second, rest)
        else (first, rest)
    | _, _ => (first, rest)
  (scalarOf? written).map fun value => (value, rest)

end Toml
end PageComposer
