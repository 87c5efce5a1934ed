import PageComposer.Toml.Moment

namespace PageComposer
namespace Toml

/-!
# Values of a configuration text

A number is looked at twice: when the text is cut into values, only its form
matters, and whether there is a value behind the form matters when the number
is read.  A number without a value therefore does no harm in a place that
nobody reads.
-/

/-- A value. -/
inductive Value
  | string (text : Text)
  | integer (number : Int)
  /-- A floating-point number, as it is written. -/
  | float (written : Text)
  /-- A number that has the form of one but no value, such as one that is too
  large. -/
  | badNumber
  | boolean (truth : Bool)
  | moment (moment : Moment)
  | array (items : List Value)
  | table (entries : List (Text × Value))
deriving Inhabited

/-- The entries of a table, in the order in which they were first written. -/
abbrev Table := List (Text × Value)

mutual

/-- Whether all numbers in a value have a value. -/
def Value.isReadable : Value -> Bool
  | .badNumber => false
  | .array items => areReadable items
  | .table entries => entriesAreReadable entries
  | _ => true

/-- Whether all numbers in a list have a value. -/
def areReadable : List Value -> Bool
  | [] => true
  | item :: items => item.isReadable && areReadable items

/-- Whether all numbers in the entries of a table have a value. -/
def entriesAreReadable : List (Text × Value) -> Bool
  | [] => true
  | (_, value) :: entries => value.isReadable && entriesAreReadable entries

end

end Toml
end PageComposer
