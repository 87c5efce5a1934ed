import PageComposer.CommandLine.Run

namespace PageComposer
namespace Main

/-!
# The command

An invocation is carried out on a copy of the part of the file system that it
can reach: the project root, the named directories and the target folder.  What
the invocation changes in the copy is then written.  Files that no command
reads are listed in the copy without their bytes.
-/

/-- Folders of tools that are not copied. -/
def isUncopied (name : Text) : Bool :=
  name == ".git".toList || name == "node_modules".toList || name == "bower_components".toList

/-- The place that an absolute path text leads to. -/
def placeOfText (path : String) : Place :=
  (path.toList.splitOn '/').filter fun name => !name.isEmpty

/-- The absolute path text of a place. -/
def textOfPlace (place : Place) : String :=
  String.ofList ('/' :: Text.joinWith ['/'] place)

/-- Whether the bytes of a file are read by some command. -/
def isRead (named : List Text) (name : Text) : Bool :=
  Text.endsWith ".html".toList name || Text.endsWith ".toml".toList name ||
    name == ".gitignore".toList || named.contains name

/-- Where a path really leads, if it leads anywhere. -/
def realPlace? (place : Place) : IO (Option Place) := do
  try
    let real <- IO.FS.realPath (textOfPlace place)
    return some (placeOfText real.toString)
  catch _ => return none

/-- The tree with every folder above a place. -/
def withParents (tree : FileTree) (place : Place) : FileTree :=
  (List.range (place.length - 1)).foldl (fun tree depth =>
    let parent := place.take (depth + 1)
    if (tree.itemAt? parent).isSome then tree else tree.put parent .folder) tree

/-- Copy what stands at a place, and what links below it lead to. -/
partial def copy (named : List Text) (tree : FileTree) (place : Place) : IO FileTree := do
  if place != [] && (tree.items.lookup place).isSome then return tree
  match <- realPlace? place with
  | none => return tree
  | some real =>
      let tree := withParents tree place
      if real != place then
        copy named (tree.put place (.link (textOfPlace real).toList)) real
      else
        let path := textOfPlace place
        let names? : Option (List Text) <-
          try
            let folder <- IO.FS.realPath path
            let entries <- folder.readDir
            pure (some (entries.toList.map fun entry => entry.fileName.toList))
          catch _ => pure none
        match names? with
        | some names =>
            let mut tree := tree.put place .folder
            for name in names do
              if !isUncopied name then
                tree <- copy named tree (place ++ [name])
            return tree
        | none =>
            let bytes <-
              if isRead named (place.getLastD []) then
                try pure (<- IO.FS.readBinFile path).toList catch _ => pure []
              else pure []
            return tree.put place (.file bytes)

/-- Write what is new or different in a tree. -/
def writeChanges (before after : FileTree) : IO Unit := do
  for (place, item) in after.items.reverse do
    if before.items.lookup place != some item then
      match item with
      | .folder => IO.FS.createDirAll (textOfPlace place)
      | .file bytes =>
          IO.FS.createDirAll (textOfPlace place.dropLast)
          IO.FS.writeBinFile (textOfPlace place) ⟨bytes.toArray⟩
      | .link _ => pure ()

/-- The place of a path, from the working folder. -/
def placeFrom (here : Place) (path : Path) : Place :=
  (Path.join ⟨(textOfPlace here).toList⟩ path).normalize.segments.filter fun name =>
    !name.isEmpty

/-- Copy what an invocation can reach. -/
def reachable (here : Place) (invocation : CommandLine.Invocation) : IO FileTree := do
  let rootPath := invocation.root?.getD ⟨(textOfPlace here).toList⟩
  let (named, target) :=
    match invocation.command? with
    | some (.compose file _ _ _) => (file.fileName?.toList, none)
    | some (.decompile file _ _) => (file.fileName?.toList, none)
    | some (.scan file _) => (file.fileName?.toList, none)
    | some (.build target?) => ([], target?)
    | _ => ([], none)
  let fileFolder :=
    match invocation.command? with
    | some (.compose file _ _ _) => [file.folder]
    | some (.decompile file _ _) => [file.folder]
    | some (.scan file _) => [file.folder]
    | _ => []
  let mut tree <- copy named ⟨[], here⟩ (placeFrom here rootPath)
  let config := (Config.loadOrDefault tree rootPath).toOption.getD {}
  let further := config.named.map Prod.snd ++ [target.getD config.targetFolder] ++ fileFolder
  for folder in further do
    tree <- copy named tree (placeFrom here (rootPath.join folder))
  return tree

end Main
end PageComposer

/-- Carry out an invocation on the file system. -/
def main (arguments : List String) : IO UInt32 := do
  let arguments := arguments.map String.toList
  let here := PageComposer.Main.placeOfText (<- IO.currentDir).toString
  let before <-
    match PageComposer.CommandLine.Invocation.read arguments with
    | .ok invocation => PageComposer.Main.reachable here invocation
    | .error _ => pure (PageComposer.FileTree.emptyAt here)
  let colorDisabled := (<- IO.getEnv "NO_COLOR").isSome
  let outcome := PageComposer.CommandLine.run before colorDisabled arguments
  PageComposer.Main.writeChanges before outcome.tree
  (<- IO.getStdout).putStr (String.ofList outcome.output)
  (<- IO.getStderr).putStr (String.ofList outcome.errors)
  return outcome.code.toUInt32
