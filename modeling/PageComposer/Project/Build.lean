import PageComposer.Compose.Run
import PageComposer.FileTree.Change
import PageComposer.Project.Collect
import PageComposer.Report

namespace PageComposer

/-!
# Composing and writing a project

Every template of a project is composed for itself.  A template that fails is
reported and does not keep the others from being composed.
-/

/-- A template with the page it became. -/
structure TemplateResult where
  template : TemplateEntry
  outcome : Except Failure Composition

/-- Every template of a project, composed. -/
structure ProjectComposition where
  root : Path
  results : List TemplateResult

namespace ProjectComposition

/-- The templates that failed, with what went wrong. -/
def failures (project : ProjectComposition) : List (TemplateEntry × Failure) :=
  project.results.filterMap fun result =>
    match result.outcome with
    | .error failure => some (result.template, failure)
    | .ok _ => none

/-- The pages that were composed. -/
def pages (project : ProjectComposition) : List (TemplateEntry × Composition) :=
  project.results.filterMap fun result =>
    match result.outcome with
    | .ok composition => some (result.template, composition)
    | .error _ => none

/-- The templates that still hold placeholders after the last run. -/
def unconverged (project : ProjectComposition) : List TemplateEntry :=
  (project.pages.filter fun page => !page.2.converged).map Prod.fst

/-- Whether every template was composed to the end. -/
def isOk (project : ProjectComposition) : Bool :=
  project.failures.isEmpty && project.unconverged.isEmpty

end ProjectComposition

/-- Compose every template below a root. -/
def composeProject (tree : FileTree) (root : Path) (config : Config) :
    Except Failure ProjectComposition := do
  let composer := config.composer (tree.toSite (config.addressing root))
  let templates <- collectTemplates tree root (.ofConfig root config)
  let results := templates.map fun template => {
    template := template
    outcome := do
      let text <- (tree.readText template.path).mapError .storage
      composer.compose template.path text : TemplateResult }
  return ⟨root, results⟩

/-- A page as it is written: its path below the target folder, and two texts. -/
structure Output where
  relative : Text
  content : Text
  metadata : Text
deriving DecidableEq, Inhabited

/-- The composed pages as they are written. -/
def ProjectComposition.outputs (project : ProjectComposition) : List Output :=
  project.pages.map fun page => ⟨page.1.relative, page.2.content, page.2.metadata.pretty⟩

/-- Write one page and its metadata below a target folder. -/
def writePage (tree : FileTree) (target : Path) (page : Output) :
    FileTree × Except StorageFault Path :=
  let output := target.join ⟨page.relative⟩
  match tree.makeFolders output.folder with
  | (tree, .error fault) => (tree, .error fault)
  | (tree, .ok ()) =>
      match tree.writeText output page.content with
      | .error fault => (tree, .error fault)
      | .ok tree =>
          let metadataFile := output.replaceExtension "meta.json".toList
          match tree.writeText metadataFile page.metadata with
          | .error fault => (tree, .error fault)
          | .ok tree => (tree, .ok output)

/-- Write pages until one cannot be written. -/
def writePages (tree : FileTree) (target : Path) :
    List Output -> FileTree × Except Failure (List Path)
  | [] => (tree, .ok [])
  | page :: pages =>
      match writePage tree target page with
      | (tree, .error fault) => (tree, .error (.storage fault))
      | (tree, .ok output) =>
          let (tree, written) := writePages tree target pages
          (tree, written.map (output :: ·))

/-- Write every composed page below a target folder, at its path in the
project.  The paths of the pages come second. -/
def writeOutputs (tree : FileTree) (project : ProjectComposition) (target : Path) :
    FileTree × Except Failure (List Path) :=
  writePages tree target project.outputs

end PageComposer
