import PageComposer.Glob.Nesting
import PageComposer.Glob.Spelling
import PageComposer.Path.Basic
import PageComposer.Text.Blank
import PageComposer.Text.Search

namespace PageComposer

/-!
# Ignore rules

A line of an ignore file is a glob with decorations: an exclamation mark keeps
what an earlier line ignores, a slash at the front or inside ties the glob to
the base directory, and a slash at the end restricts it to directories.  The
last rule that matches decides.  Rules are used together: if one of them cannot
be searched for, none of them can.
-/

namespace Ignore

/-- A rule. -/
structure Rule where
  pattern : Glob.Pattern
  foldersOnly : Bool
  /-- Whether the rule keeps what it matches. -/
  keeps : Bool

/-- Globs of ignore files. -/
def globRules : Glob.Rules where
  slashesCount := true
  openClassIsLiteral := true

/-- A line that is no rule: the line as it was read, and what is wrong. -/
structure BadLine where
  line : Text
  fault : Glob.Fault

/-- A line without blanks at its end, unless the last one is escaped. -/
def trimLine (line : Text) : Text :=
  if Text.endsWith ['\\', ' '] line then line else Text.trimEnd line

/-- The decorations of a line taken off. -/
structure Undecorated where
  glob : Text
  keeps : Bool
  foldersOnly : Bool
  /-- Whether a slash at the front ties the glob to the base. -/
  anchored : Bool

/-- Take off the decorations at the front.  A backslash keeps a first
exclamation mark or hash from being one. -/
def dropFront (line : Text) : Undecorated :=
  match line with
  | '\\' :: '!' :: rest => ⟨'!' :: rest, false, false, false⟩
  | '\\' :: '#' :: rest => ⟨'#' :: rest, false, false, false⟩
  | '!' :: '/' :: rest => ⟨rest, true, false, true⟩
  | '!' :: rest => ⟨rest, true, false, false⟩
  | '/' :: rest => ⟨rest, false, false, true⟩
  | _ => ⟨line, false, false, false⟩

/-- Take off a slash at the end, and a backslash before it. -/
def dropBack (line : Undecorated) : Undecorated :=
  match Text.dropEnd? ['/'] line.glob with
  | some glob =>
      { line with glob := (Text.dropEnd? ['\\'] glob).getD glob, foldersOnly := true }
  | none => line

/-- The glob that a path below the base has to match.  Without a slash it may
match at any depth, and with two stars at the end it matches inside a directory
but not the directory. -/
def widen (line : Undecorated) : Text :=
  let glob := line.glob
  let tied := line.anchored || glob.any (· == '/') || glob == ['*', '*']
  let glob := if tied then glob else ['*', '*', '/'] ++ glob
  if Text.endsWith ['/', '*', '*'] glob then glob ++ ['/', '*'] else glob

/-- The rule of a line.  Blank lines and comments have none. -/
def readLine (line : Text) : Except BadLine (Option Rule) :=
  if Text.startsWith ['#'] line then .ok none
  else
    let trimmed := trimLine line
    if trimmed.isEmpty then .ok none
    else
      let plain := dropBack (dropFront trimmed)
      match Glob.Pattern.ofText globRules (widen plain) with
      | .ok pattern => .ok (some ⟨pattern, plain.foldersOnly, plain.keeps⟩)
      | .error fault => .error ⟨trimmed, fault⟩

/-- Whether the rules, in the order of their lines, ignore a path below the
base. -/
def ignores (rules : List Rule) (path : Text) (isFolder : Bool) : Bool :=
  let bytes := Text.toBytes path
  let deciding := rules.reverse.find? fun rule =>
    (isFolder || !rule.foldersOnly) && rule.pattern.regular.accepts bytes
  deciding.any fun rule => !rule.keeps

/-- The lines of a file.  A line that ends in a line feed loses it, with one
carriage return before it.  Reading stops at a line that is no text. -/
def linesOf (bytes : Text.Bytes) : List Text :=
  let pieces := bytes.splitOn 10
  let ended := pieces.dropLast.map fun piece =>
    if piece.getLast? = some 13 then piece.dropLast else piece
  let unended := pieces.getLast?.toList.filter fun piece => !piece.isEmpty
  (((ended ++ unended).map Text.ofBytes?).takeWhile Option.isSome).filterMap id

/-- The rules of a file.  Byte order marks at its front and bad lines are
skipped. -/
def ofFile (bytes : Text.Bytes) : List Rule :=
  let lines :=
    match linesOf bytes with
    | first :: rest => first.dropWhile (· == '\uFEFF') :: rest
    | [] => []
  let rules := lines.filterMap fun line =>
    match readLine line with
    | .ok rule => rule
    | .error _ => none
  if rules.all fun rule => rule.pattern.isSearchable then rules else []

/-- The rules of patterns, the first bad one being an error. -/
def ofPatterns (patterns : List Text) : Except (Text × BadLine) (List Rule) := do
  let rules <- patterns.mapM fun pattern =>
    match readLine pattern with
    | .ok rule => Except.ok rule
    | .error bad => .error (pattern, bad)
  return rules.filterMap id

/-! ## Searching -/

/-- The character that a token stands for. -/
def literal? : Glob.Token -> Option Char
  | .literal character => some character
  | _ => none

/-- Whether tokens are plain text. -/
def isPlain (tokens : List Glob.Token) : Bool :=
  !tokens.isEmpty && tokens.all fun token => (literal? token).isSome

/-- Whether a pattern is matched by comparing texts: it is plain, at any depth
or not, or it is everything below a plain folder, or every name with a plain
extension. -/
def isCompared (pattern : Glob.Pattern) : Bool :=
  let isExtension (tokens : List Glob.Token) : Bool :=
    tokens.all fun token =>
      (literal? token).any fun character => character != '.' && character != '/'
  match pattern.tokens with
  | .leadingFolders :: .star :: .literal '.' :: tokens => isExtension tokens
  | .leadingFolders :: tokens => isPlain tokens
  | tokens =>
      match tokens.getLast? with
      | some .trailingPath => tokens.dropLast.all fun token => (literal? token).isSome
      | _ => isPlain tokens

/-- Whether a pattern ends in a plain extension, in which case it is searched
for by itself in the names with that extension. -/
def endsInExtension (pattern : Glob.Pattern) : Bool :=
  let behindName := pattern.tokens.reverse.dropWhile fun token =>
    (literal? token).any fun character => character != '.' && character != '/'
  (behindName.head?.bind literal?) == some '.'

/-- Why rules cannot be searched for.  Patterns that are searched for by
themselves come first. -/
def searchFault? (rules : List Rule) : Option Glob.SearchFault :=
  let patterns := (rules.map Rule.pattern).filter fun pattern => !isCompared pattern
  let (alone, together) := patterns.partition endsInExtension
  match alone.find? fun pattern => !pattern.isSearchable with
  | some pattern => some (.alone pattern.spelling)
  | none => (together.findIdx? fun pattern => !pattern.isSearchable).map .together

/-! ## Paths -/

/-- The base directory as rules see it. -/
def baseText (root : Text) : Text :=
  (Text.dropStart? ['.', '/'] root).getD root

/-- The part of a path that rules are matched against: the path below the
base.  The base `.` and paths without a slash have nothing to take off. -/
def belowBase (root : Path) (path : Text) : Text :=
  let base : Path := ⟨baseText root.text⟩
  let path := (Text.dropStart? ['.', '/'] path).getD path
  if base.same ⟨['.']⟩ ∨ !path.any (· == '/') then path
  else
    match Text.dropStart? base.text path with
    | some rest => (Text.dropStart? ['/'] rest).getD rest
    | none => path

end Ignore
end PageComposer
