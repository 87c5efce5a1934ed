import PageComposer.Path.Basic

namespace PageComposer
namespace Path

/-!
# Normal form of a path

The normal form is lexical: it is computed from the parts alone, by a stack
that drops `.`, lets `..` take back the part below it, and keeps `..` only
where there is no part to take back.
-/

/-- Put one part on a stack of parts whose top comes first. -/
def pushPart (stack : List Part) : Part -> List Part
  | .here => stack
  | .up =>
      match stack with
      | [] => [.up]
      | [.root] => [.up, .root]
      | _ :: below => below
  | part => part :: stack

/-- The parts of the normal form. -/
def normalParts (parts : List Part) : List Part :=
  (parts.foldl pushPart []).reverse

/-- The text of a list of parts: a root, then the others between slashes. -/
def ofParts : List Part -> Path
  | .root :: parts => ⟨'/' :: Text.joinWith ['/'] (parts.map Part.text)⟩
  | parts => ⟨Text.joinWith ['/'] (parts.map Part.text)⟩

/-- The normal form. -/
def normalize (path : Path) : Path :=
  ofParts (normalParts path.parts)

end Path
end PageComposer
