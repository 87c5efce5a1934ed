import PageComposer.Text.Search
import PageComposer.Toml.Value

namespace PageComposer
namespace Toml

/-!
# Numbers

A whole number is decimal with an optional sign, or hexadecimal, octal or
binary behind a prefix of two characters.  A floating-point number has a
fraction, an exponent or both, or is infinite or no number.

Some forms are numbers without a value: a prefix with nothing behind it, groups
of characters that are not all digits, and numbers that are too large.
-/

/-- A sign, and what it is in front of. -/
def cutSign : Text -> Bool × Text
  | '-' :: rest => (true, rest)
  | '+' :: rest => (false, rest)
  | text => (false, text)

/-- The digits of a decimal number: no zero before other digits. -/
def decimalDigits? (text : Text) : Option Text := do
  let digits <- groupedDigits? isDigit text
  match digits with
  | '0' :: _ :: _ => none
  | _ => pure digits

/-! ## Whole numbers -/

/-- Two to the power 128. -/
def wordBound : Int := ↑(UInt64.size * UInt64.size)

/-- A whole number of at most 128 bits, with or without a sign. -/
def Value.ofInteger (number : Int) : Value :=
  if -wordBound ≤ 2 * number ∧ number < wordBound then .integer number else .badNumber

/-- The whole number behind a prefix for its base. -/
def prefixed? (base : Nat) (isDigit : Char -> Bool) (text : Text) : Option Value :=
  if text.isEmpty then some .badNumber
  else (groupedDigits? isDigit text).map fun digits => .ofInteger (numberOf base digits)

/-- A decimal number with an optional sign. -/
def decimal? (text : Text) : Option Value := do
  let (negative, unsigned) := cutSign text
  let number : Int := numberOf 10 (<- decimalDigits? unsigned)
  pure (.ofInteger (if negative then -number else number))

/-- Whether a text is digits, no zero in front, and groups of characters with
an underscore before each.  A group begins with a hexadecimal digit, and all
but the last end with one; what else is in it does not matter, unless it makes
the number a floating-point number. -/
def isLooselyGrouped (text : Text) : Bool :=
  let unsigned := (cutSign text).2
  let behind := unsigned.dropWhile isDigit
  let groups := unsigned.splitOn '_'
  unsigned.head?.any (fun first => isDigit first && first != '0') &&
    behind.head? == some '_' &&
    !behind.any (fun character => character == '.' || character == 'e' || character == 'E') &&
    groups.tail.all (fun group => group.head?.any isHexDigit) &&
    groups.dropLast.all (fun group => group.getLast?.any isHexDigit)

/-- A whole number in one of its forms. -/
def wholeNumber? (text : Text) : Option Value :=
  match text with
  | '0' :: 'x' :: rest => prefixed? 16 isHexDigit rest
  | '0' :: 'o' :: rest => prefixed? 8 (fun character => '0' ≤ character && character ≤ '7') rest
  | '0' :: 'b' :: rest => prefixed? 2 (fun character => character == '0' || character == '1') rest
  | _ =>
      match decimal? text with
      | some value => some value
      | none => if isLooselyGrouped text then some .badNumber else none

/-! ## Floating-point numbers -/

/-- The digits of a whole number, to be multiplied by a power of ten. -/
structure Scaled where
  digits : Text
  power : Int

/-- The power of ten that an exponent stands for, given with its letter. -/
def exponent? : Text -> Option Int
  | [] => some 0
  | _ :: written => do
      let (negative, unsigned) := cutSign written
      let power : Int := numberOf 10 (<- groupedDigits? isDigit unsigned)
      pure (if negative then -power else power)

/-- A number with a fraction, an exponent or both. -/
def scaled? (unsigned : Text) : Option Scaled := do
  let isLetter (character : Char) : Bool := character == 'e' || character == 'E'
  let mantissa := unsigned.takeWhile fun character => !isLetter character
  let exponent := unsigned.dropWhile fun character => !isLetter character
  let power <- exponent? exponent
  match Text.cutAtChar? '.' mantissa with
  | some (whole, fraction) => do
      let whole <- decimalDigits? whole
      let fraction <- groupedDigits? isDigit fraction
      pure ⟨whole ++ fraction, power - fraction.length⟩
  | none => if exponent.isEmpty then none else pure ⟨<- decimalDigits? mantissa, power⟩

/-- The least number that double precision rounds to infinity: halfway between
the greatest finite number and the next power of two. -/
def overflowThreshold : Nat := (Nat.pow 2 54 - 1) * Nat.pow 2 970

/-- Whether double precision rounds a number to infinity.  The threshold has
309 digits before the point, which settles all numbers that are not about as
long. -/
def Scaled.overflows (number : Scaled) : Bool :=
  let digits := number.digits.dropWhile (· == '0')
  let length : Int := digits.length + number.power
  if digits.isEmpty ∨ length < 309 then false
  else if 309 < length then true
  else
    match number.power with
    | .ofNat power => overflowThreshold ≤ numberOf 10 digits * Nat.pow 10 power
    | .negSucc power => overflowThreshold * Nat.pow 10 (power + 1) ≤ numberOf 10 digits

/-- A floating-point number. -/
def float? (text : Text) : Option Value :=
  let unsigned := (cutSign text).2
  if unsigned = ['i', 'n', 'f'] ∨ unsigned = ['n', 'a', 'n'] then some (.float text)
  else (scaled? unsigned).map fun number =>
    if number.overflows then .badNumber else .float text

end Toml
end PageComposer
