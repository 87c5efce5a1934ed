import PageComposer.Text.Utf8

namespace PageComposer
namespace Glob

/-!
# Regular expressions over bytes

A glob matches the bytes of a path.  Matching follows a byte string through a
set of expressions: each byte takes an expression to the expressions that the
rest may still match.  Equal expressions are kept once, so the set never grows
beyond the size of the pattern.
-/

/-- A set of bytes, as ranges of which a byte has to be in one, or in none. -/
structure ByteClass where
  negated : Bool
  ranges : List (UInt8 × UInt8)
deriving DecidableEq

/-- Whether a byte is in a class. -/
def ByteClass.has (byteClass : ByteClass) (byte : UInt8) : Bool :=
  byteClass.ranges.any (fun range => range.1 ≤ byte && byte ≤ range.2) != byteClass.negated

/-- A regular expression. -/
inductive Regular
  /-- The empty string. -/
  | empty
  /-- One byte of a class. -/
  | byte (byteClass : ByteClass)
  | sequence (first second : Regular)
  | either (left right : Regular)
  /-- Any number of repetitions. -/
  | many (repeated : Regular)
deriving DecidableEq

namespace Regular

/-- Exactly this byte. -/
def exactly (value : UInt8) : Regular :=
  byte ⟨false, [(value, value)]⟩

/-- Any byte. -/
def anyByte : Regular :=
  byte ⟨true, []⟩

/-- Expressions one after the other. -/
def sequenceOf (expressions : List Regular) : Regular :=
  expressions.foldr sequence empty

/-- Whether the empty string matches. -/
def nullable : Regular -> Bool
  | empty => true
  | byte _ => false
  | sequence first second => first.nullable && second.nullable
  | either left right => left.nullable || right.nullable
  | many _ => true

/-- A sequence, written without an empty first part. -/
def followedBy (first second : Regular) : Regular :=
  if first = empty then second else sequence first second

/-- What may follow a first byte. -/
def after (value : UInt8) : Regular -> List Regular
  | empty => []
  | byte byteClass => if byteClass.has value then [empty] else []
  | sequence first second =>
      let inFirst := (after value first).map (·.followedBy second)
      if first.nullable then inFirst ++ after value second else inFirst
  | either left right => after value left ++ after value right
  | many repeated => (after value repeated).map (·.followedBy (many repeated))

/-- Whether all of a byte string matches. -/
def accepts (expression : Regular) (bytes : Text.Bytes) : Bool :=
  let states := bytes.foldl
    (fun states value => (states.flatMap (after value)).eraseDups) [expression]
  states.any nullable

end Regular
end Glob
end PageComposer
