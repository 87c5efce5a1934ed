import PageComposer.Compose.Composer

namespace PageComposer

/-!
# Configuration of a project
-/

/-- The settings of a project.  A project without a configuration has the
defaults. -/
structure Config where
  /-- The limit on the runs for a template. -/
  maxRuns : Nat := 100
  /-- The kinds of placeholders that are resolved, in scan order. -/
  kinds : List Kind := Kind.all
  markRegions : Bool := false
  /-- Named directories. -/
  named : List (Text × Path) := []
  /-- Lines of an ignore file for templates that are not composed. -/
  excludePatterns : List Text := []
  /-- Globs of which a template has to match one, if there are any. -/
  includePatterns : List Text := []
  /-- The directory that pages are written to, from the project root. -/
  targetFolder : Path := ⟨['b', 'u', 'i', 'l', 'd']⟩
  /-- Whether the ignore file of the project is disregarded. -/
  ignoreFileDisabled : Bool := false
deriving DecidableEq, Inhabited

namespace Config

/-- The options for composing a template. -/
def options (config : Config) : Options where
  maxRuns := config.maxRuns
  markRegions := config.markRegions

/-- The names and directories of a project. -/
def addressing (config : Config) (root : Path) : Addressing :=
  (Addressing.atRoot root).withAllNamed config.named

/-- A composer for a site with the settings of a project. -/
def composer (config : Config) (site : Site) : Composer where
  site := site
  kinds := config.kinds
  options := config.options

end Config
end PageComposer
