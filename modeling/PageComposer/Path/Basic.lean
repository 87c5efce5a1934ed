import PageComposer.Text.Search

namespace PageComposer

/-!
# Paths

A path keeps its text as it was written.  What it denotes is its list of
parts: empty segments and `.` segments vanish, except for a `.` that the path
starts with.  Two paths name the same thing when their parts are equal
(`Path.same`), and paths are ordered part by part (`Path.precedes`).

A text is taken apart into its start and its raw segments.  The operations
that return part of a path (`parent?`, `relativeTo?`, `replaceExtension`)
select among the raw segments, so that everything between the selected ends
stays as written.

A path is spelled in characters, whether it is a text or not.  What is no text
in it is spelled in characters that are set aside for that (`Stray`).
-/

/-- A path, as written. -/
structure Path where
  text : Text
deriving DecidableEq, Inhabited

/-- One part of a path. -/
inductive Part
  | root
  | here
  | up
  | name (segment : Text)
deriving DecidableEq

namespace Part

/-- The text of a part. -/
def text : Part -> Text
  | root => ['/']
  | here => ['.']
  | up => ['.', '.']
  | name segment => segment

/-- The part that a segment between two slashes stands for. -/
def ofSegment (segment : Text) : Part :=
  if segment = ['.', '.'] then up else name segment

/-- The position of a part among the kinds of parts. -/
def rank : Part -> Nat
  | root => 0
  | here => 1
  | up => 2
  | name _ => 3

/-- Order of parts: by kind, and names by their text. -/
def precedes (left right : Part) : Bool :=
  match left, right with
  | name segment, name other => Text.precedes segment other
  | _, _ => left.rank < right.rank

end Part

namespace Path

/-- What a path text begins with, before its first segment. -/
inductive Start
  | nothing
  | root
  | here
deriving DecidableEq

namespace Start

/-- The text of the beginning. -/
def text : Start -> Text
  | nothing => []
  | root => ['/']
  | here => ['.']

/-- The part that the beginning contributes. -/
def parts : Start -> List Part
  | nothing => []
  | root => [.root]
  | here => [.here]

end Start

/-- A slash makes a path absolute; a first segment `.` is kept as a part. -/
def start (path : Path) : Start :=
  match path.text with
  | '/' :: _ => .root
  | ['.'] => .here
  | '.' :: '/' :: _ => .here
  | _ => .nothing

/-- The raw segments after the start. -/
def segments (path : Path) : List Text :=
  (path.text.drop path.start.text.length).splitOn '/'

/-- A path from a start and raw segments. -/
def ofSegments (start : Start) (segments : List Text) : Path :=
  ⟨start.text ++ Text.joinWith ['/'] segments⟩

/-- Segments that denote nothing. -/
def isFiller (segment : Text) : Bool :=
  segment == [] || segment == ['.']

/-- The parts of a path. -/
def parts (path : Path) : List Part :=
  path.start.parts ++ (path.segments.filter fun segment => !isFiller segment).map Part.ofSegment

/-- Two paths with the same parts. -/
def same (left right : Path) : Bool :=
  left.parts == right.parts

theorem same_iff {left right : Path} : left.same right = true ↔ left.parts = right.parts := by
  unfold same
  exact beq_iff_eq

theorem same_self (path : Path) : path.same path = true :=
  same_iff.mpr rfl

/-- Order of lists of parts, the first difference deciding. -/
def partsPrecede : List Part -> List Part -> Bool
  | [], [] => false
  | [], _ :: _ => true
  | _ :: _, [] => false
  | left :: lefts, right :: rights =>
      left.precedes right || (left == right && partsPrecede lefts rights)

/-- Order of paths, part by part. -/
def precedes (left right : Path) : Bool :=
  partsPrecede left.parts right.parts

/-- Whether the path starts at the root. -/
def isAbsolute (path : Path) : Bool :=
  path.start == .root

/-- The path without its last part.  The root and the empty path have none. -/
def parent? (path : Path) : Option Path :=
  match path.segments.reverse.dropWhile isFiller with
  | _ :: before => some (ofSegments path.start (before.dropWhile isFiller).reverse)
  | [] => if path.start = .here then some ⟨[]⟩ else none

/-- The directory a path lies in; the empty path where there is none. -/
def folder (path : Path) : Path :=
  path.parent?.getD ⟨[]⟩

/-- The last part, if it is a name. -/
def fileName? (path : Path) : Option Text :=
  match path.parts.getLast? with
  | some (.name segment) => some segment
  | _ => none

/-- A file name around its last dot.  A dot at the front separates nothing. -/
def cutExtension? (fileName : Text) : Option (Text × Text) :=
  match Text.cutAtLastChar? '.' fileName with
  | some (stem, extension) => if stem.isEmpty then none else some (stem, extension)
  | none => none

/-- The extension of the file name. -/
def extension? (path : Path) : Option Text := do
  let fileName <- path.fileName?
  let pieces <- cutExtension? fileName
  pure pieces.2

/-- The path with the extension of its file name replaced or added.  A path
without a file name stays as it is, and so does one that is left as `..` when
its extension is taken away. -/
def replaceExtension (path : Path) (extension : Text) : Path :=
  match path.fileName? with
  | none => path
  | some fileName =>
      match path.segments.reverse with
      | [] => path
      | last :: before =>
          let stem := ((cutExtension? fileName).map Prod.fst).getD fileName
          if stem = ['.'] ∧ last = fileName then
            ofSegments path.start ((['.', '.'] :: before).reverse)
          else
            let kept := (last :: before).dropWhile isFiller
            ofSegments path.start ((stem ++ '.' :: extension) :: kept.drop 1).reverse

/-- `path` taken from inside `base`.  An absolute path replaces the base. -/
def join (base path : Path) : Path :=
  if path.isAbsolute then path
  else if base.text = [] ∨ base.text.getLast? = some '/' then ⟨base.text ++ path.text⟩
  else ⟨base.text ++ '/' :: path.text⟩

/-- Drop a number of segments that denote something, with the fillers before
them. -/
def dropParts : Nat -> List Text -> List Text
  | 0, segments => segments
  | _, [] => []
  | count + 1, segment :: segments =>
      if isFiller segment then dropParts (count + 1) segments else dropParts count segments

/-- Drop fillers from the back. -/
def dropFillerEnd (segments : List Text) : List Text :=
  (segments.reverse.dropWhile isFiller).reverse

/-- The rest of a path below `base`, if the parts of `base` lead the path. -/
def relativeTo? (path base : Path) : Option Path :=
  if base.parts.isPrefixOf path.parts then
    if base.parts = [] then
      some (ofSegments path.start (dropFillerEnd path.segments))
    else
      let inside := dropParts (base.parts.length - path.start.parts.length) path.segments
      some ⟨Text.joinWith ['/'] (dropFillerEnd (inside.dropWhile isFiller))⟩
  else none

end Path
end PageComposer
