import PageComposer.Toml.Quoted
import PageComposer.Toml.Scalar

namespace PageComposer
namespace Toml

/-!
# Configuration texts

A text is a sequence of lines, each of them empty, a table header or an entry.
Reading keeps track of how every table came about, because a table is opened
by one header only, and a dotted key adds to no table that a header has opened.
-/

/-! ## Tables under construction -/

/-- How a table came about. -/
inductive Origin
  /-- Named in front of another header. -/
  | passedThrough
  /-- Opened by a header. -/
  | header
  /-- Named in front of another part of a dotted key. -/
  | dotted
deriving DecidableEq

/-- A value, a table or a list of tables under construction. -/
inductive Node
  | value (value : Value)
  | table (origin : Origin) (entries : List (Text × Node))
  /-- The tables of a list of tables, the last one first. -/
  | tables (last : List (Text × Node)) (before : List (List (Text × Node)))

/-- The entries of a table under construction. -/
abbrev Entries := List (Text × Node)

/-- Change the entry with a key, or add one at the end. -/
def changeEntry (key : Text) (change : Option Node -> Option Node) : Entries -> Option Entries
  | [] => (change none).map fun node => [(key, node)]
  | (other, node) :: rest =>
      if other = key then (change (some node)).map fun node => (key, node) :: rest
      else (changeEntry key change rest).map ((other, node) :: ·)

/-- Change the table at the end of a path of table names, which may pass
through tables of every origin and through the last table of a list. -/
def changeTable (change : Entries -> Option Entries) : List Text -> Entries -> Option Entries
  | [], entries => change entries
  | key :: path, entries =>
      changeEntry key (fun node? =>
        match node? with
        | none => (changeTable change path []).map (.table .passedThrough)
        | some (.table origin inner) => (changeTable change path inner).map (.table origin)
        | some (.tables last before) =>
            (changeTable change path last).map fun last => .tables last before
        | some (.value _) => none) entries

/-- Add an entry under the last part of a dotted key whose first parts are
`path`.  A table that the parts pass through or end in has not been opened by a
header, except that the last table of a list may be passed through. -/
def addEntry (key : Text) (value : Value) : List Text -> Entries -> Option Entries
  | [], entries =>
      changeEntry key (fun node? =>
        match node? with
        | none => some (.value value)
        | some _ => none) entries
  | name :: path, entries =>
      changeEntry name (fun node? =>
        match node? with
        | none => (addEntry key value path []).map (.table .dotted)
        | some (.table .header _) => none
        | some (.table origin inner) => (addEntry key value path inner).map (.table origin)
        | some (.tables last before) =>
            if path.isEmpty then none
            else (addEntry key value path last).map fun last => .tables last before
        | some (.value _) => none) entries

/-- Open a table by its header. -/
def openTable (path : List Text) (key : Text) : Entries -> Option Entries :=
  changeTable (changeEntry key fun node? =>
    match node? with
    | none => some (.table .header [])
    | some (.table .passedThrough inner) => some (.table .header inner)
    | some _ => none) path

/-- Open the next table of a list of tables by its header. -/
def openListed (path : List Text) (key : Text) : Entries -> Option Entries :=
  changeTable (changeEntry key fun node? =>
    match node? with
    | none => some (.tables [] [])
    | some (.tables last before) => some (.tables [] (last :: before))
    | some _ => none) path

mutual

/-- A finished value. -/
def finishNode : Node -> Value
  | .value value => value
  | .table _ entries => .table (finishEntries entries)
  | .tables last before => .array ((finishAll before).reverse ++ [.table (finishEntries last)])

/-- The finished entries of a table. -/
def finishEntries : List (Text × Node) -> Table
  | [] => []
  | (key, node) :: rest => (key, finishNode node) :: finishEntries rest

/-- Finished tables, in the order given. -/
def finishAll : List (List (Text × Node)) -> List Value
  | [] => []
  | entries :: rest => .table (finishEntries entries) :: finishAll rest

end

/-! ## Blanks and keys -/

/-- Drop blanks on a line. -/
def dropBlanks (text : Text) : Text :=
  text.dropWhile fun character => character == ' ' || character == '\t'

/-- Drop blanks, line ends and comments.  There is no result where a comment
or a line end is malformed. -/
def dropLines (inComment : Bool) : Text -> Option Text
  | [] => some []
  | '\n' :: rest => dropLines false rest
  | '\r' :: '\n' :: rest => dropLines false rest
  | character :: rest =>
      if inComment then if isPrintable character then dropLines true rest else none
      else if character = '#' then dropLines true rest
      else if character = ' ' ∨ character = '\t' then dropLines false rest
      else if character = '\r' then none
      else some (character :: rest)

/-- Drop the rest of a line, which holds blanks and a comment only. -/
def endLine (inComment : Bool) : Text -> Option Text
  | [] => some []
  | '\n' :: rest => some rest
  | '\r' :: '\n' :: rest => some rest
  | character :: rest =>
      if inComment then if isPrintable character then endLine true rest else none
      else if character = '#' then endLine true rest
      else if character = ' ' ∨ character = '\t' then endLine false rest
      else none

/-- The characters of unquoted keys. -/
def isKeyCharacter (character : Char) : Bool :=
  character.isAlphanum || character == '_' || character == '-'

/-- One part of a key. -/
def simpleKey? (text : Text) : Option (Text × Text) :=
  match quotedLine? text with
  | some found => some found
  | none =>
      let key := text.takeWhile isKeyCharacter
      if key.isEmpty then none else some (key, text.dropWhile isKeyCharacter)

/-- How deep values may nest, and how many parts a key may have. -/
def maxDepth : Nat := 80

/-- A key of at most so many parts: the parts but the last, the last one, and
the text behind them. -/
def keyOf? : Nat -> Text -> Option (List Text × Text × Text)
  | 0, _ => none
  | parts + 1, text => do
      let (first, rest) <- simpleKey? text
      match dropBlanks rest with
      | '.' :: more => do
          let (path, last, rest) <- keyOf? parts (dropBlanks more)
          pure (first :: path, last, rest)
      | _ => pure ([], first, rest)

/-- The parts of a key but the last, the last one, and the text behind them. -/
def key? (text : Text) : Option (List Text × Text × Text) :=
  keyOf? maxDepth text

/-! ## Values -/

/-- The items up to a closing character, between commas, with blanks, line
ends and comments around them.  `fuel` is at least the number of items. -/
def items? {Item : Type} (item? : Text -> Option (Item × Text)) (closing : Char) :
    Nat -> Text -> Option (List Item × Text)
  | 0, _ => none
  | fuel + 1, text => do
      let text <- dropLines false text
      match text with
      | [] => none
      | first :: others =>
          if first = closing then pure ([], others)
          else do
            let (item, rest) <- item? text
            let rest <- dropLines false rest
            match rest with
            | ',' :: rest => do
                let (items, rest) <- items? item? closing fuel rest
                pure (item :: items, rest)
            | next :: rest => if next = closing then pure ([item], rest) else none
            | [] => none

/-- An entry: a key, an equals sign and a value, with what `drop?` drops around
the equals sign. -/
def keyValue? (drop? : Text -> Option Text) (value? : Text -> Option (Value × Text))
    (text : Text) : Option ((List Text × Text × Value) × Text) := do
  let (path, key, rest) <- key? text
  match <- drop? rest with
  | '=' :: rest => do
      let (value, rest) <- value? (<- drop? rest)
      pure ((path, key, value), rest)
  | _ => none

/-- A value that nests at most `depth` levels of arrays and tables. -/
def value? : Nat -> Text -> Option (Value × Text)
  | depth, '[' :: rest =>
      match depth with
      | 0 => none
      | depth + 1 => do
          let (items, rest) <- items? (value? depth) ']' (rest.length + 1) rest
          pure (.array items, rest)
  | depth, '\x7b' :: rest =>
      match depth with
      | 0 => none
      | depth + 1 => do
          let entry? := keyValue? (dropLines false) (value? depth)
          let (entries, rest) <- items? entry? '\x7d' (rest.length + 1) rest
          let table <- entries.foldlM (fun soFar entry =>
            addEntry entry.2.1 entry.2.2 entry.1 soFar) []
          pure (.table (finishEntries table), rest)
  | _, text =>
      match quoted? text with
      | some (string, rest) => some (.string string, rest)
      | none => scalar? text

/-! ## Lines -/

/-- A reading in progress: the root table, and where entries go. -/
structure Reading where
  root : Entries
  current : List Text

/-- Read the header of a table or of a list of tables, behind its first
bracket. -/
def readHeader (reading : Reading) (text : Text) : Option (Reading × Text) :=
  match text with
  | '[' :: text => do
      let (path, key, rest) <- key? (dropBlanks text)
      match dropBlanks rest with
      | ']' :: ']' :: rest => do
          let root <- openListed path key reading.root
          pure (⟨root, path ++ [key]⟩, rest)
      | _ => none
  | _ => do
      let (path, key, rest) <- key? (dropBlanks text)
      match dropBlanks rest with
      | ']' :: rest => do
          let root <- openTable path key reading.root
          pure (⟨root, path ++ [key]⟩, rest)
      | _ => none

/-- Read an entry of the current table. -/
def readEntry (reading : Reading) (text : Text) : Option (Reading × Text) := do
  let ((path, key, value), rest) <-
    keyValue? (fun rest => some (dropBlanks rest)) (value? maxDepth) text
  let root <- changeTable (addEntry key value path) reading.current reading.root
  pure ({ reading with root := root }, rest)

/-- Read lines to the end of the text.  `fuel` is at least their number. -/
def readLines : Nat -> Reading -> Text -> Option Entries
  | 0, _, _ => none
  | fuel + 1, reading, text => do
      let text <- dropLines false text
      match text with
      | [] => pure reading.root
      | first :: others => do
          let (reading, rest) <-
            if first = '[' then readHeader reading others else readEntry reading text
          let rest <- endLine false rest
          readLines fuel reading rest

/-- The table that a text describes.  A byte order mark at the front is
dropped. -/
def parse? (text : Text) : Option Table :=
  let text :=
    match text with
    | '\uFEFF' :: rest => rest
    | _ => text
  (readLines (text.length + 1) ⟨[], []⟩ text).map finishEntries

end Toml
end PageComposer
