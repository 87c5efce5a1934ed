import PageComposer.Failure
import PageComposer.Region

namespace PageComposer

/-!
# Markers

A marker is a region of a composed page that goes back to a placeholder.  Its
definition `kind-name` with raw arguments stands in both of its comments, and
it collapses into the tag that the definition spells.
-/

/-- A marked region. -/
structure Marker where
  name : Text
  kind : Kind
  /-- The arguments as they were written after the name. -/
  args : Text
  /-- Offset of the begin comment in the text that the marker was taken from. -/
  start : Nat
  /-- Offset one past the end comment. -/
  stop : Nat
  /-- What stands between the comments. -/
  content : Text
  /-- The indices of the markers that were found in the content. -/
  nested : List Nat := []
deriving DecidableEq, Inhabited

/-- What a definition says. -/
structure MarkerDefinition where
  kind : Kind
  name : Text
  args : Text
deriving DecidableEq

namespace MarkerDefinition

/-- Take a definition apart.  The name ends at the first colon or parenthesis. -/
def read (definition : Text) : Except Failure MarkerDefinition :=
  match Text.cutAtChar? '-' definition with
  | none => .error (.unknownKind definition)
  | some (kindName, rest) =>
      match Kind.ofName? kindName with
      | none => .error (.unknownKind kindName)
      | some kind =>
          let inName (character : Char) : Bool := character != ':' && character != '('
          .ok ⟨kind, rest.takeWhile inName, rest.dropWhile inName⟩

/-- The tag that a region with this definition collapses into. -/
def tag (definition : MarkerDefinition) : Text :=
  definition.kind.opening ++ definition.name ++ definition.args ++ tagClose

/-- A definition is as long as what it says, with one separator. -/
theorem length_of_read {text : Text} {definition : MarkerDefinition}
    (accepted : read text = .ok definition) :
    definition.kind.name.length + 1 + definition.name.length + definition.args.length =
      text.length := by
  unfold read at accepted
  split at accepted
  · cases accepted
  · rename_i kindName rest cut
    split at accepted
    · cases accepted
    · rename_i kind named
      cases accepted
      have lengths := Text.cut?_length cut
      have kindNamed : kind.name = kindName := by
        have found := List.find?_some named
        simpa using found
      have parts := congrArg List.length
        (List.takeWhile_append_dropWhile
          (p := fun character => character != ':' && character != '(') (l := rest))
      simp only [List.length_append] at parts
      simp only [List.length_cons, List.length_nil] at lengths
      simp only [kindNamed]
      omega

end MarkerDefinition

namespace Marker

/-- The tag that the region collapses into. -/
def tag (marker : Marker) : Text :=
  MarkerDefinition.tag ⟨marker.kind, marker.name, marker.args⟩

end Marker
end PageComposer
