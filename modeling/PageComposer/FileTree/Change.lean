import PageComposer.FileTree.Basic

namespace PageComposer
namespace FileTree

/-!
# Changing a file tree

A change that fails leaves the tree as it was, except that the folders which
were made on the way stay.
-/

/-- Make one folder, in a folder that is there. -/
def makeFolder (tree : FileTree) (path : Path) : Except StorageFault FileTree := do
  match <- tree.find .make path with
  | .present _ => throw .alreadyExists
  | .absent place => return tree.put place .folder

/-- The paths of a path and its parents, the path itself first, down to the
one that has no part to take away. -/
def ancestors (path : Path) : Nat -> List Path
  | 0 => [path]
  | count + 1 =>
      match path.parent? with
      | some parent => path :: ancestors parent count
      | none => [path]

/-- Make a folder and the missing folders above it, given the path and its
parents. -/
def makeFoldersFrom (tree : FileTree) : List Path -> FileTree × Except StorageFault Unit
  | [] => (tree, .ok ())
  | path :: parents =>
      if path.text.isEmpty then (tree, .ok ())
      else
        match tree.makeFolder path with
        | .ok tree => (tree, .ok ())
        | .error .notFound =>
            match makeFoldersFrom tree parents with
            | (tree, .error fault) => (tree, .error fault)
            | (tree, .ok ()) =>
                match tree.makeFolder path with
                | .ok tree => (tree, .ok ())
                | .error fault =>
                    (tree, if tree.isFolder path then .ok () else .error fault)
        | .error fault => (tree, if tree.isFolder path then .ok () else .error fault)

/-- Make a folder and the missing folders above it. -/
def makeFolders (tree : FileTree) (path : Path) : FileTree × Except StorageFault Unit :=
  tree.makeFoldersFrom (ancestors path path.text.length)

/-- Write a file, which replaces the file that the path leads to. -/
def writeBytes (tree : FileTree) (path : Path) (bytes : Text.Bytes) :
    Except StorageFault FileTree := do
  match <- tree.find .write path with
  | .absent place => return tree.put place (.file bytes)
  | .present place =>
      match tree.itemAt? place with
      | some (.file _) => return tree.put place (.file bytes)
      | _ => throw .isDirectory

/-- Write a text file. -/
def writeText (tree : FileTree) (path : Path) (text : Text) : Except StorageFault FileTree :=
  tree.writeBytes path (Text.toBytes text)

/-- Make a symbolic link in a folder that is there. -/
def makeLink (tree : FileTree) (path : Path) (target : Text) :
    Except StorageFault FileTree := do
  match <- tree.find .make path with
  | .present _ => throw .alreadyExists
  | .absent place => return tree.put place (.link target)

end FileTree
end PageComposer
