import PageComposer.Path.Normal
import PageComposer.Path.Stray
import PageComposer.Placeholder

namespace PageComposer

/-!
# Names, files and addresses

A site lies in one root directory.  A named directory is reached by its name
as the first segment of a reference; it may lie anywhere.  `candidate` takes a
reference to the file it means, and `address` takes a file to the address it
is served under.  References and addresses are texts.  A path need not be one, so
the address of a file shows what is no text in its path by a replacement.
-/

/-- The root of a site and its named directories, sorted by name. -/
structure Addressing where
  root : Path
  named : List (Text × Path)
  /-- What is no text in the paths of the site. -/
  stray : Stray := .none
deriving DecidableEq, Inhabited

namespace Addressing

/-- A site without named directories. -/
def atRoot (root : Path) (stray : Stray := .none) : Addressing :=
  { root := root.normalize, named := [], stray := stray }

/-- Put a name into a list sorted by name, in place of an equal one. -/
def insertSorted (name : Text) (directory : Path) :
    List (Text × Path) -> List (Text × Path)
  | [] => [(name, directory)]
  | (other, otherDirectory) :: rest =>
      if name = other then (name, directory) :: rest
      else if Text.precedes name other then
        (name, directory) :: (other, otherDirectory) :: rest
      else (other, otherDirectory) :: insertSorted name directory rest

theorem lookup_cons_self (name : Text) (directory : Path) (entries : List (Text × Path)) :
    ((name, directory) :: entries).lookup name = some directory := by
  simp

theorem lookup_cons_other {name other : Text} (different : other ≠ name) (directory : Path)
    (entries : List (Text × Path)) :
    ((name, directory) :: entries).lookup other = entries.lookup other := by
  rw [List.lookup_cons, beq_eq_false_iff_ne.mpr different]

/-- A registered name leads to its directory. -/
theorem lookup_insertSorted_self (name : Text) (directory : Path)
    (entries : List (Text × Path)) :
    (insertSorted name directory entries).lookup name = some directory := by
  induction entries with
  | nil => exact lookup_cons_self name directory []
  | cons entry rest inductionHypothesis =>
      unfold insertSorted
      by_cases here : name = entry.1
      · rw [if_pos here]
        exact lookup_cons_self name directory rest
      · rw [if_neg here]
        split
        · exact lookup_cons_self name directory _
        · rw [lookup_cons_other here]
          exact inductionHypothesis

/-- Every other name leads to where it led before. -/
theorem lookup_insertSorted_other {name other : Text} (different : other ≠ name)
    (directory : Path) (entries : List (Text × Path)) :
    (insertSorted name directory entries).lookup other = entries.lookup other := by
  induction entries with
  | nil => exact lookup_cons_other different directory []
  | cons entry rest inductionHypothesis =>
      unfold insertSorted
      by_cases here : name = entry.1
      · rw [if_pos here, lookup_cons_other different]
        exact (lookup_cons_other (here ▸ different) entry.2 rest).symm
      · rw [if_neg here]
        split
        · exact lookup_cons_other different directory _
        · rw [List.lookup_cons, List.lookup_cons, inductionHypothesis]

/-- Register a named directory, taken from the root unless it is absolute.  A
name that is registered already is registered anew. -/
def withNamed (addressing : Addressing) (name : Text) (directory : Path) : Addressing :=
  { addressing with
    named := insertSorted name (addressing.root.join directory).normalize addressing.named }

/-- Register several named directories, in order. -/
def withAllNamed (addressing : Addressing) (named : List (Text × Path)) : Addressing :=
  named.foldl (fun soFar entry => soFar.withNamed entry.1 entry.2) addressing

/-- The file name that a reference of a kind asks for: without leading
slashes, and with the extension of the kind. -/
def fileNameOf (kind : Kind) (name : Text) : Text :=
  let trimmed := name.dropWhile (· == '/')
  if Text.endsWith ('.' :: kind.extension) trimmed then trimmed
  else trimmed ++ '.' :: kind.extension

/-- The file that a reference means, whether or not it is there. -/
def candidate (addressing : Addressing) (kind : Kind) (name : Text) : Path :=
  let fileName := fileNameOf kind name
  let named? := do
    let (head, rest) <- Text.cutAtChar? '/' fileName
    let directory <- addressing.named.lookup head
    pure (directory.join ⟨rest⟩).normalize
  named?.getD (addressing.root.join ⟨fileName⟩).normalize

/-- A path as it is shown, with slashes for backslashes. -/
def slashed (stray : Stray) (path : Path) : Text :=
  (stray.shown path.text).map fun character => if character = '\\' then '/' else character

/-- Put a named directory before the first one that is less deep. -/
def insertByDepth (entry : Text × Path) : List (Text × Path) -> List (Text × Path)
  | [] => [entry]
  | other :: rest =>
      if other.2.parts.length < entry.2.parts.length then entry :: other :: rest
      else other :: insertByDepth entry rest

/-- The named directories, the deepest first, and by name where they are
equally deep. -/
def deepestFirst (addressing : Addressing) : List (Text × Path) :=
  addressing.named.foldl (fun sorted entry => insertByDepth entry sorted) []

/-- The address that a file is served under: below the deepest named directory
that holds it, else below the root.  A file outside keeps its path. -/
def address (addressing : Addressing) (path : Path) : Text :=
  let normal := path.normalize
  let below := addressing.deepestFirst.findSome? fun entry =>
    (normal.relativeTo? entry.2).map fun rest =>
      '/' :: entry.1 ++ '/' :: slashed addressing.stray rest
  match below with
  | some found => found
  | none =>
      match normal.relativeTo? addressing.root with
      | some rest => '/' :: slashed addressing.stray rest
      | none => slashed addressing.stray normal

end Addressing
end PageComposer
