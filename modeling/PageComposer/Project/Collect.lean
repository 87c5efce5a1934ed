import PageComposer.Config.Discovery
import PageComposer.Glob.Ignore
import PageComposer.Project.Template

namespace PageComposer

/-!
# Collecting the templates of a project

The folders of a project are walked from its root.  Folders of tools, the
target folder, ignored folders and nested projects are passed by.  A folder
that is reached a second time, which takes a symbolic link, is an error; since
every folder is entered once at most, the walk ends.

A `Walk` is told what is ignored, and in which order the names of a folder are
met, as functions, and a `Selection` tells what is included besides.  What an
ignore file and patterns say is settled in `CollectRules.selection`, and how a
folder is listed in `collectTemplates`.
-/

/-- What a walk passes by and what it keeps. -/
structure CollectRules where
  /-- Lines of an ignore file. -/
  excludePatterns : List Text := []
  /-- Globs of which a template has to match one, if any of them is a glob. -/
  includePatterns : List Text := []
  ignoreFileDisabled : Bool := false
  /-- Folders that are passed by. -/
  skippedFolders : List Path := []

/-- The rules of a configured project. -/
def CollectRules.ofConfig (root : Path) (config : Config) : CollectRules where
  excludePatterns := config.excludePatterns
  includePatterns := config.includePatterns
  ignoreFileDisabled := config.ignoreFileDisabled
  skippedFolders := [root.join config.targetFolder]

/-- Names of entries that are never looked at.  A name that is no text is none of
them. -/
def isPassedName (stray : Stray) (name : Text) : Bool :=
  stray.isText name &&
    (Text.startsWith ['.'] name || name == "node_modules".toList ||
      name == "bower_components".toList || name == "target".toList)

/-- The path below the root, with slashes. -/
def relativeText (stray : Stray) (root path : Path) : Text :=
  Addressing.slashed stray ((path.relativeTo? root).getD path)

/-- What a walk decides by. -/
structure Walk where
  tree : FileTree
  /-- The names in the folder at a place, in the order in which they are met. -/
  namesIn : Place -> List Text
  /-- Whether an ignore rule applies to a path, which may be a folder. -/
  ignores : Path -> Bool -> Bool
  skippedFolders : List Path
  /-- What is no text in the names of the tree. -/
  stray : Stray := .none

namespace Walk

/-- Whether a folder is a project of its own. -/
def isNestedProject (walk : Walk) (folder : Path) : Bool :=
  (Config.findFile? walk.tree folder).isSome

/-- Whether the walk looks at an entry of a folder. -/
def looksAt (walk : Walk) (name : Text) (path : Path) : Bool :=
  !isPassedName walk.stray name && !walk.ignores path (walk.tree.isFolder path)

/-- Whether the walk enters a folder that it looks at. -/
def enters (walk : Walk) (folder : Path) : Bool :=
  !walk.skippedFolders.any folder.same && !walk.isNestedProject folder

/-- Templates found so far, and the places of the folders entered. -/
structure Progress where
  found : List Path := []
  entered : List Place := []

/-- Look at one entry.  `visit` walks a folder. -/
def lookAt (walk : Walk) (visit : Path -> Progress -> Except Failure Progress) (folder : Path)
    (progress : Progress) (name : Text) : Except Failure Progress :=
  let path := folder.join ⟨name⟩
  if !walk.looksAt name path then .ok progress
  else if walk.tree.isFolder path then
    if walk.enters path then visit path progress else .ok progress
  else if isTemplate path walk.stray then .ok { progress with found := path :: progress.found }
  else .ok progress

/-- Walk a folder.  `depth` is at least the number of folders not entered yet. -/
def visit (walk : Walk) : Nat -> Path -> Progress -> Except Failure Progress
  | 0, folder, _ => .error (.symlinkCycle folder)
  | depth + 1, folder, progress =>
      match walk.tree.placeOf folder with
      | .error fault => .error (.storage fault)
      | .ok place =>
          if progress.entered.contains place then .error (.symlinkCycle folder)
          else
            let progress := { progress with entered := place :: progress.entered }
            (walk.namesIn place).foldlM (walk.lookAt (walk.visit depth) folder) progress

/-- The templates below a root, unsorted.  A root that is no folder has none. -/
def templates (walk : Walk) (root : Path) : Except Failure (List Path) :=
  if walk.tree.isFolder root then do
    let progress <- walk.visit (walk.tree.items.length + 2) root {}
    return progress.found
  else .ok []

/-- The templates below a root that are included, sorted by path. -/
def collect (walk : Walk) (isIncluded : Path -> Bool) (root : Path) :
    Except Failure (List TemplateEntry) := do
  let found <- walk.templates root
  let sorted := found.mergeSort fun left right => !right.precedes left
  return (sorted.filter isIncluded).map fun path => ⟨path, relativeText walk.stray root path⟩

end Walk

/-- What a project leaves out and what it is confined to.  Rules are asked with a
path and with whether that is a folder. -/
structure Selection where
  gitignored : Path -> Bool -> Bool
  excluded : Path -> Bool -> Bool
  skippedFolders : List Path
  /-- Which paths below the root are included, unless all of them are. -/
  includes? : Option (Path -> Bool)

namespace Selection

/-- Whether one of the rules leaves something out. -/
def ignores (selection : Selection) (path : Path) (isFolder : Bool) : Bool :=
  selection.gitignored path isFolder || selection.excluded path isFolder

/-- Whether a path is included. -/
def isIncluded (selection : Selection) (root path : Path) : Bool :=
  selection.includes?.all fun includes => (path.relativeTo? root).any includes

/-- The walk that is confined to the selection. -/
def walk (selection : Selection) (tree : FileTree) (namesIn : Place -> List Text)
    (stray : Stray) : Walk where
  tree := tree
  namesIn := namesIn
  ignores := selection.ignores
  skippedFolders := selection.skippedFolders
  stray := stray

/-- The selected templates below a root, sorted by path. -/
def collect (selection : Selection) (tree : FileTree) (namesIn : Place -> List Text)
    (stray : Stray) (root : Path) : Except Failure (List TemplateEntry) :=
  (selection.walk tree namesIn stray).collect (selection.isIncluded root) root

end Selection

/-- The ignore file of a project. -/
def ignoreFile (root : Path) : Path :=
  root.join ⟨".gitignore".toList⟩

/-- The rules of an ignore file, if it can be read. -/
def ignoreFileRules : Option Text.Bytes -> List Ignore.Rule
  | some bytes => Ignore.ofFile bytes
  | none => []

/-- The rules of exclude patterns. -/
def excludeRules (patterns : List Text) : Except Failure (List Ignore.Rule) :=
  match Ignore.ofPatterns patterns with
  | .error (pattern, bad) => .error (.badExclude pattern bad.line bad.fault)
  | .ok rules =>
      match Ignore.searchFault? rules with
      | some fault => .error (.unsearchableExcludes fault)
      | none => .ok rules

/-- The globs among patterns.  The others are disregarded, and all of them are
if one of the globs cannot be searched for. -/
def includeGlobs (patterns : List Text) : List Glob.Regular :=
  let globs := patterns.filterMap fun pattern => (Glob.Pattern.ofText {} pattern).toOption
  if globs.all Glob.Pattern.isSearchable then globs.map Glob.Pattern.regular else []

/-- What the rules of a project select, given what they exclude and what the
ignore file holds, if it can be read. -/
def CollectRules.selection (rules : CollectRules) (root : Path) (excluded : List Ignore.Rule)
    (contents : Option Text.Bytes) : Selection :=
  let fileRules := if rules.ignoreFileDisabled then [] else ignoreFileRules contents
  let globs := includeGlobs rules.includePatterns
  { gitignored := fun path => Ignore.ignores fileRules (Ignore.belowBase root path.text)
    excluded := fun path => Ignore.ignores excluded (Ignore.belowBase root path.text)
    skippedFolders := rules.skippedFolders
    includes? := if globs.isEmpty then none else some fun relative =>
      globs.any fun glob => glob.accepts (Text.toBytes relative.text) }

/-- The templates of a project, sorted by path. -/
def collectTemplates (tree : FileTree) (root : Path) (rules : CollectRules) :
    Except Failure (List TemplateEntry) := do
  let excluded <- excludeRules rules.excludePatterns
  let selection := rules.selection root excluded (tree.readBytes (ignoreFile root)).toOption
  selection.collect tree tree.namesIn .none root

end PageComposer
