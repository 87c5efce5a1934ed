import PageComposer.Config.Read
import PageComposer.FileTree.Basic

namespace PageComposer
namespace Config

/-!
# Finding the configuration of a project
-/

/-- The places of a configuration below a project root, the first one that is
there being used. -/
def candidates : List Path :=
  ["protostar.toml", ".protostar.toml", ".config/protostar.toml"].map fun name =>
    ⟨name.toList⟩

/-- The configuration file of a project. -/
def findFile? (tree : FileTree) (root : Path) : Option Path :=
  (candidates.map root.join).find? tree.isFile

/-- The configuration of a project, if it has one. -/
def load (tree : FileTree) (root : Path) : Except Failure (Option Config) := do
  match findFile? tree root with
  | none => return none
  | some path =>
      let text <- (tree.readText path).mapError .storage
      return some (<- parse text)

/-- The configuration of a project, or the defaults. -/
def loadOrDefault (tree : FileTree) (root : Path) : Except Failure Config := do
  return (<- load tree root).getD {}

end Config
end PageComposer
