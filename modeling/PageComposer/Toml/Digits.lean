import PageComposer.Text.Basic

namespace PageComposer
namespace Toml

/-!
# Digits
-/

/-- A decimal digit. -/
def isDigit (character : Char) : Bool :=
  '0' ≤ character && character ≤ '9'

/-- The value of a hexadecimal digit. -/
def hexDigit? (character : Char) : Option Nat :=
  let code := character.toNat
  if 0x30 ≤ code ∧ code ≤ 0x39 then some (code - 0x30)
  else if 0x41 ≤ code ∧ code ≤ 0x46 then some (code - 0x41 + 10)
  else if 0x61 ≤ code ∧ code ≤ 0x66 then some (code - 0x61 + 10)
  else none

/-- A hexadecimal digit. -/
def isHexDigit (character : Char) : Bool :=
  (hexDigit? character).isSome

/-- The number that digits spell in a base. -/
def numberOf (base : Nat) (digits : Text) : Nat :=
  digits.foldl (fun number digit => number * base + (hexDigit? digit).getD 0) 0

/-- The digits of a number, in which an underscore may stand between any two
of them. -/
def groupedDigits? (isDigit : Char -> Bool) : Text -> Option Text
  | [] => none
  | [character] => if isDigit character then some [character] else none
  | character :: '_' :: rest =>
      if isDigit character then (groupedDigits? isDigit rest).map (character :: ·) else none
  | character :: next :: rest =>
      if isDigit character then (groupedDigits? isDigit (next :: rest)).map (character :: ·)
      else none

/-- A number of exactly so many decimal digits at the front of a text, and the
text behind it. -/
def fixedDigits? (count : Nat) (text : Text) : Option (Nat × Text) :=
  let digits := text.take count
  if digits.length = count ∧ digits.all isDigit then
    some (numberOf 10 digits, text.drop count)
  else none

/-- A number with zeros in front, up to a number of digits. -/
def padded (count number : Nat) : Text :=
  let digits := Text.ofNat number
  List.replicate (count - digits.length) '0' ++ digits

end Toml
end PageComposer
