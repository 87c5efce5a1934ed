import PageComposer.Failure
import PageComposer.Site
import PageComposer.Text.Utf8

namespace PageComposer

/-!
# File trees

A file tree is a finite set of files, folders and symbolic links, together
with the folder that relative paths start from.  A path leads to a place by
being followed segment by segment, through at most forty links.
-/

/-- The names that lead from the root to a file or folder. -/
abbrev Place := List Text

/-- What stands at a place. -/
inductive Item
  | file (bytes : Text.Bytes)
  | folder
  | link (target : Text)
deriving DecidableEq, Inhabited

/-- Files, folders and links by place.  The root is a folder and not listed. -/
structure FileTree where
  items : List (Place × Item)
  /-- The folder that relative paths start from. -/
  workingFolder : Place
deriving DecidableEq, Inhabited

namespace FileTree

/-- A tree that holds nothing but the folders down to the working folder. -/
def emptyAt (workingFolder : Place) : FileTree where
  items := (List.range workingFolder.length).map fun depth =>
    (workingFolder.take (depth + 1), .folder)
  workingFolder := workingFolder

/-- What stands at a place. -/
def itemAt? (tree : FileTree) (place : Place) : Option Item :=
  if place = [] then some .folder else tree.items.lookup place

/-- The tree with something put at a place. -/
def put (tree : FileTree) (place : Place) (item : Item) : FileTree :=
  { tree with items := (place, item) :: tree.items.filter fun entry => entry.1 != place }

/-- Putting something at a place changes what stands there. -/
theorem itemAt?_put_self (tree : FileTree) {place : Place} (item : Item) (listed : place ≠ []) :
    (tree.put place item).itemAt? place = some item := by
  unfold itemAt? put
  rw [if_neg listed]
  simp

theorem lookup_filter_other {place other : Place} (different : other ≠ place)
    (items : List (Place × Item)) :
    (items.filter fun entry => entry.1 != place).lookup other = items.lookup other := by
  induction items with
  | nil => rfl
  | cons entry rest inductionHypothesis =>
      obtain ⟨first, item⟩ := entry
      by_cases replaced : first = place
      · rw [List.filter_cons_of_neg (by simp [replaced]), inductionHypothesis, List.lookup_cons,
          beq_eq_false_iff_ne.mpr (replaced ▸ different)]
      · rw [List.filter_cons_of_pos (by simp [replaced]), List.lookup_cons, List.lookup_cons,
          inductionHypothesis]

/-- Putting something at a place changes nothing elsewhere. -/
theorem itemAt?_put_other (tree : FileTree) {place other : Place} (item : Item)
    (different : other ≠ place) : (tree.put place item).itemAt? other = tree.itemAt? other := by
  unfold itemAt? put
  by_cases root : other = []
  · rw [if_pos root, if_pos root]
  · rw [if_neg root, if_neg root, List.lookup_cons, beq_eq_false_iff_ne.mpr different]
    exact lookup_filter_other different tree.items

/-- Where a path leads. -/
inductive Found
  /-- A file or a folder, or a link that was not to be followed. -/
  | present (place : Place)
  /-- Nothing, in a folder that is there. -/
  | absent (place : Place)
deriving DecidableEq

/-- What a path is followed for, which matters at its end only. -/
inductive Purpose
  /-- To look at what is there. -/
  | look
  /-- To write a file.  The name of a file is not followed by a slash. -/
  | write
  /-- To make something that is not there.  A link at the end is not
  followed. -/
  | make
deriving DecidableEq

/-- How many links a path may pass through. -/
def maxLinks : Nat := 40

/-- The most bytes of a name. -/
def maxNameSize : Nat := 255

/-- The most bytes of a path. -/
def maxPathSize : Nat := 4095

/-- Follow segments from a folder.  Slashes behind the last name are empty
segments.  `passLink` goes on behind a link, given the folder and the segments
that are to be followed there. -/
def followWith (tree : FileTree) (purpose : Purpose)
    (passLink : Place -> List Text -> Except StorageFault Found) :
    Place -> List Text -> Except StorageFault Found
  | place, [] => .ok (.present place)
  | place, segment :: rest =>
      let isLast := rest.all (· == [])
      if segment = [] ∨ segment = ['.'] then followWith tree purpose passLink place rest
      else if segment = ['.', '.'] then followWith tree purpose passLink place.dropLast rest
      else if purpose = .write ∧ isLast ∧ !rest.isEmpty then .error .isDirectory
      else if maxNameSize < Text.byteSize segment then .error .nameTooLong
      else
        let next := place ++ [segment]
        match tree.itemAt? next with
        | none => if isLast then .ok (.absent next) else .error .notFound
        | some .folder => followWith tree purpose passLink next rest
        | some (.file _) =>
            if rest.isEmpty || (isLast && purpose == .make) then .ok (.present next)
            else .error .notDirectory
        | some (.link target) =>
            if isLast && purpose == .make then .ok (.present next)
            else
              let start := if Text.startsWith ['/'] target then [] else place
              passLink start (target.splitOn '/' ++ rest)

/-- Follow segments from a folder, through a number of links at most. -/
def follow (tree : FileTree) (purpose : Purpose) :
    Nat -> Place -> List Text -> Except StorageFault Found
  | 0 => followWith tree purpose fun _ _ => .error .tooManyLinks
  | links + 1 => followWith tree purpose (follow tree purpose links)

/-- Where a path leads from the working folder. -/
def find (tree : FileTree) (purpose : Purpose) (path : Path) : Except StorageFault Found :=
  if path.text.any (· == '\x00') then .error .zeroInPath
  else if path.text.isEmpty then .error .notFound
  else if maxPathSize < Text.byteSize path.text then .error .nameTooLong
  else
    let start := if path.isAbsolute then [] else tree.workingFolder
    tree.follow purpose maxLinks start (path.text.splitOn '/')

/-- The place of the file or folder that a path leads to. -/
def placeOf (tree : FileTree) (path : Path) : Except StorageFault Place := do
  match <- tree.find .look path with
  | .present place => return place
  | .absent _ => throw .notFound

/-- What a path leads to. -/
def itemOf? (tree : FileTree) (path : Path) : Option Item :=
  match tree.placeOf path with
  | .ok place => tree.itemAt? place
  | .error _ => none

/-- Whether a path leads to a file. -/
def isFile (tree : FileTree) (path : Path) : Bool :=
  match tree.itemOf? path with
  | some (.file _) => true
  | _ => false

/-- Whether a path leads to a folder. -/
def isFolder (tree : FileTree) (path : Path) : Bool :=
  tree.itemOf? path == some .folder

/-- Whether a path leads to anything. -/
def isPresent (tree : FileTree) (path : Path) : Bool :=
  (tree.itemOf? path).isSome

/-- The bytes of a file. -/
def readBytes (tree : FileTree) (path : Path) : Except StorageFault Text.Bytes := do
  let place <- tree.placeOf path
  match tree.itemAt? place with
  | some (.file bytes) => return bytes
  | some .folder => throw .isDirectory
  | _ => throw .notFound

/-- The text of a file. -/
def readText (tree : FileTree) (path : Path) : Except StorageFault Text := do
  let bytes <- tree.readBytes path
  match Text.ofBytes? bytes with
  | some text => return text
  | none => throw .notText

/-- Order of the names in a folder. -/
def insertName (name : Text) : List Text -> List Text
  | [] => [name]
  | other :: rest =>
      if Text.precedes name other then name :: other :: rest else other :: insertName name rest

/-- The names in the folder at a place, sorted. -/
def namesIn (tree : FileTree) (place : Place) : List Text :=
  let names := tree.items.filterMap fun entry =>
    match place.isPrefixOf? entry.1 with
    | some [name] => some name
    | _ => none
  names.foldl (fun sorted name => insertName name sorted) []

/-- The tree as a site.  A path passes through at most forty links, which
bounds the number of files that can be located one after the other. -/
def toSite (tree : FileTree) (addressing : Addressing) : Site where
  locate := Site.locateIn addressing tree.isFile
  read path := (tree.readText path).mapError .storage
  holds := tree.isFile
  address := addressing.address
  fileCount := tree.items.length * (maxLinks + 1)

end FileTree
end PageComposer
