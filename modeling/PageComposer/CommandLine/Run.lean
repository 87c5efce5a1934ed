import PageComposer.CommandLine.Invocation
import PageComposer.CommandLine.Outcome
import PageComposer.Decompile.Nested
import PageComposer.Project.Build

namespace PageComposer
namespace CommandLine

/-!
# Carrying out an invocation

A command reads a file tree and results in an outcome.  The exit code is zero
on success, one when a project does not pass, and two when the command could
not be carried out.
-/

/-- Where and how a command is carried out. -/
structure Setting where
  tree : FileTree
  root : Path
  plain : Bool

namespace Setting

/-- An outcome that prints something and changes nothing. -/
def prints (setting : Setting) (output : Text) : Outcome where
  tree := setting.tree
  output := output

/-- The outcome of a command that changes nothing. -/
def outcome (setting : Setting) (result : Except Failure Outcome) : Outcome :=
  match result with
  | .ok outcome => outcome
  | .error failure => .ofFailure setting.tree setting.plain failure

/-- A text with emphasis, as the setting has it. -/
def emphasize (setting : Setting) (emphasis : Emphasis) (text : Text) : Text :=
  CommandLine.emphasize setting.plain emphasis text

/-- A path below the root, where it is below the root. -/
def relative (setting : Setting) (path : Path) : Text :=
  ((path.relativeTo? setting.root).getD path).text

/-- The text of a file that an argument names. -/
def readText (setting : Setting) (path : Path) : Except Failure Text :=
  (setting.tree.readText path).mapError .storage

/-- The composer of the project at the root. -/
def composer (setting : Setting) : Except Failure Composer := do
  let config <- Config.loadOrDefault setting.tree setting.root
  return config.composer (setting.tree.toSite (config.addressing setting.root))

end Setting

/-! ## A sample project -/

/-- The configuration of a sample project. -/
def sampleConfig : Text :=
  ("# protostar configuration\n\n" ++
    "# Upper bound on composition runs per template.\n" ++
    "max_compilation_runs = 100\n\n" ++
    "# Surround resolved regions with begin_/end_ markers.\n" ++
    "mark_regions = false\n\n" ++
    "# Named paths resolve `<!-- file:/ps/... -->` inside another directory.\n" ++
    "# [paths]\n# ps = \"vendor/protostar\"\n\n" ++
    "# [exclude]\n# patterns = [\"drafts/\"]\n\n" ++
    "[build]\ntarget_dir = \"build\"\n").toList

/-- The template of a sample project. -/
def sampleTemplate : Text :=
  ("<!DOCTYPE html>\n<html>\n<body>\n<!-- file:/_header -->\n" ++
    "<main data-editable>Hello from protostar!</main>\n</body>\n</html>\n").toList

/-- The fragment of a sample project. -/
def sampleHeader : Text :=
  "<header><h1>protostar</h1></header>\n".toList

/-- What to do with a sample project. -/
def nextSteps : Text :=
  ("\nNext steps:\n" ++
    "  1. Add fragments and reference them with <!-- file:/name -->\n" ++
    "  2. Run `protostar compose index.html` to preview the result\n" ++
    "  3. Run `protostar build` to write every page\n").toList

/-- A sample file, with what is printed when it is created and when something
is there already. -/
structure SampleFile where
  path : Path
  text : Text
  created : Text
  kept : Text

/-- Create sample files where there is nothing, until one cannot be written. -/
def createSamples (plain : Bool) : List SampleFile -> Outcome -> Outcome
  | [], outcome => outcome
  | sample :: samples, outcome =>
      if outcome.tree.isPresent sample.path then
        createSamples plain samples { outcome with output := outcome.output ++ sample.kept }
      else
        match outcome.tree.writeText sample.path sample.text with
        | .ok tree =>
            createSamples plain samples
              { outcome with tree := tree, output := outcome.output ++ sample.created }
        | .error fault =>
            { outcome with
              code := 2
              errors := line (emphasize plain .red "error:".toList ++ ' ' :: fault.message) }

/-- Create a sample project. -/
def runInit (setting : Setting) : Outcome :=
  let config := setting.root.join ⟨"protostar.toml".toList⟩
  let template := setting.root.join ⟨"index.html".toList⟩
  let header := setting.root.join ⟨"_header.html".toList⟩
  let outcome := createSamples setting.plain [
    ⟨config, sampleConfig, line "Created protostar.toml".toList,
      line ("Config file already exists: ".toList ++ config.text)⟩,
    ⟨template, sampleTemplate, line ("Created template: ".toList ++ template.text),
      line ("Template already exists: ".toList ++ template.text)⟩,
    ⟨header, sampleHeader, line ("Created fragment: ".toList ++ header.text), []⟩]
    (setting.prints [])
  if outcome.code = 0 ∧ !setting.tree.isPresent template then
    { outcome with output := outcome.output ++ nextSteps }
  else outcome

/-! ## Single files -/

/-- The warning that a template did not converge. -/
def convergenceWarning (setting : Setting) (template middle : Text) (runs : Nat) : Text :=
  line (setting.emphasize .yellow "warning:".toList ++ ' ' :: template ++ middle ++
    Text.ofNat runs ++ " runs".toList)

/-- Compose a template and print it. -/
def runCompose (setting : Setting) (file : Path) (maxRuns? : Option Nat) (markRegions : Bool)
    (format : Format) : Except Failure Outcome := do
  let composer <- setting.composer
  let options : Options := {
    maxRuns := maxRuns?.getD composer.options.maxRuns
    markRegions := markRegions || composer.options.markRegions }
  let path := setting.root.join file
  let text <- setting.readText path
  let composition <- composer.composeWith path text options
  match format with
  | .json => return setting.prints (line composition.report.pretty)
  | .text =>
      let printed := setting.prints (line composition.content)
      if composition.converged then return printed
      else
        return { printed with
          errors := convergenceWarning setting (setting.relative path)
            " did not converge after ".toList composition.runs }

/-- Collapse the marked regions of a composed page and print it. -/
def runDecompile (setting : Setting) (file : Path) (nested : Bool) (format : Format) :
    Except Failure Outcome := do
  let text <- setting.readText (setting.root.join file)
  let decompiled <- if nested then decompileNested text else decompile text
  match format with
  | .json => return setting.prints (line decompiled.report.pretty)
  | .text => return setting.prints (line decompiled.content)

/-- A placeholder in a printed list. -/
def listedPlaceholder (setting : Setting) (placeholder : Placeholder) : Text :=
  let args :=
    if placeholder.args.isEmpty then []
    else " [".toList ++ Text.joinWith [',', ' '] placeholder.args ++ [']']
  line ("  ".toList ++ setting.emphasize .green placeholder.label ++ args ++ "  ".toList ++
    Text.ofNat placeholder.start ++ "..".toList ++ Text.ofNat placeholder.stop)

/-- List the placeholders of a template. -/
def runScan (setting : Setting) (file : Path) (format : Format) : Except Failure Outcome := do
  let composer <- setting.composer
  let path := setting.root.join file
  let text <- setting.readText path
  let placeholders <- composer.scan path text
  match format with
  | .json =>
      let report := Json.array (placeholders.map Placeholder.report)
      return setting.prints (line report.pretty)
  | .text =>
      if placeholders.isEmpty then
        return setting.prints
          (line ("No placeholders found in ".toList ++ setting.relative path))
      else
        let heading := setting.emphasize .bold (Text.ofNat placeholders.length ++
          " placeholder(s) in ".toList ++ setting.relative path)
        return setting.prints
          (line heading ++ placeholders.flatMap (listedPlaceholder setting))

/-! ## Projects -/

/-- The message of a failure in a list of failures. -/
def failureLine (setting : Setting) (entry : TemplateEntry × Failure) : Text :=
  line (setting.emphasize .red "error:".toList ++ ' ' :: entry.1.relative ++ ": ".toList ++
    entry.2.message?.getD [])

/-- The report of a checked project, its members sorted. -/
def checkReport (project : ProjectComposition) : Json :=
  .record [
    ("errors", .array (project.failures.map fun entry => .record [
      ("file", .string entry.1.relative),
      ("message", .string (entry.2.message?.getD []))])),
    ("ok", .boolean project.isOk),
    ("templates", .number project.results.length),
    ("unconverged", .array (project.unconverged.map fun entry => .record [
      ("file", .string entry.relative)]))]

/-- Compose every template without writing anything. -/
def runCheck (setting : Setting) (format : Format) : Except Failure Outcome := do
  let config <- Config.loadOrDefault setting.tree setting.root
  let project <- composeProject setting.tree setting.root config
  let code := if project.isOk then 0 else 1
  match format with
  | .json => return { setting.prints (line (checkReport project).compact) with code := code }
  | .text =>
      if project.isOk then
        return setting.prints (line ("Check passed: ".toList ++
          Text.ofNat project.results.length ++ " template(s) composed.".toList))
      else
        let failures := project.failures.flatMap (failureLine setting)
        let warnings := project.unconverged.flatMap fun entry =>
          convergenceWarning setting entry.relative " did not converge within ".toList
            config.maxRuns
        let summary := line ("Check failed: ".toList ++ Text.ofNat project.failures.length ++
          " error(s), ".toList ++ Text.ofNat project.unconverged.length ++
          " unconverged template(s).".toList)
        return { setting.prints [] with
          code := code
          errors := failures ++ warnings ++ line [] ++ summary }

/-- Compose every template and write the pages. -/
def runBuild (setting : Setting) (target? : Option Path) : Except Failure Outcome := do
  let loaded <- Config.loadOrDefault setting.tree setting.root
  let config := { loaded with targetFolder := target?.getD loaded.targetFolder }
  let target := setting.root.join config.targetFolder
  let project <- composeProject setting.tree setting.root config
  match writeOutputs setting.tree project target with
  | (tree, .error failure) => return .ofFailure tree setting.plain failure
  | (tree, .ok written) =>
      return {
        tree := tree
        code := if project.failures.isEmpty then 0 else 1
        output := line (setting.emphasize .green "Wrote".toList ++ ' ' ::
          Text.ofNat written.length ++ " template(s) to ".toList ++ target.text)
        errors := project.failures.flatMap (failureLine setting) }

/-! ## Invocations -/

/-- Carry out a command. -/
def runCommand (setting : Setting) (command : Command) : Outcome :=
  match command with
  | .init => runInit setting
  | .compose file maxRuns? markRegions format =>
      setting.outcome (runCompose setting file maxRuns? markRegions format)
  | .decompile file nested format => setting.outcome (runDecompile setting file nested format)
  | .scan file format => setting.outcome (runScan setting file format)
  | .check format => setting.outcome (runCheck setting format)
  | .build target? => setting.outcome (runBuild setting target?)

/-- The name and the number of this version. -/
def versionLine : Text :=
  line "protostar_cli 0.3.0".toList

/-- What the commands do. -/
def helpText : Text :=
  ("Compose static HTML prototypes from nested template fragments.\n\n" ++
    "Usage: protostar [OPTIONS] [COMMAND]\n\n" ++
    "Commands:\n" ++
    "  init       Initialize protostar in a project\n" ++
    "  compose    Compose a single template and print the result\n" ++
    "  decompile  Collapse marked regions of a composed file back into placeholders\n" ++
    "  scan       List the placeholders found in a template\n" ++
    "  check      Compose every template of the project without writing anything\n" ++
    "  build      Compose every template and write the results to the build directory\n" ++
    "  help       Print this message or the help of the given subcommand(s)\n\n" ++
    "Options:\n" ++
    "  -p, --path <PATH>  Path to the project root directory\n" ++
    "  -v, --verbose      Enable verbose output\n" ++
    "      --no-color     Disable colored output\n" ++
    "  -h, --help         Print help\n" ++
    "  -V, --version      Print version\n").toList

/-- Carry out an invocation in the working folder of a tree. -/
def run (tree : FileTree) (colorDisabled : Bool) (arguments : List Text) : Outcome :=
  match Invocation.read arguments with
  | .error .helpWanted => { tree := tree, output := helpText }
  | .error .versionWanted => { tree := tree, output := versionLine }
  | .error .usageError =>
      { tree := tree, code := 2,
        errors := line "error: invalid arguments; try '--help'".toList }
  | .ok invocation =>
      match invocation.command? with
      | none =>
          { tree := tree, code := 1,
            errors := line
              "No subcommand specified. Run `protostar --help` for usage.".toList }
      | some command =>
          let here : Path := ⟨'/' :: Text.joinWith ['/'] tree.workingFolder⟩
          runCommand ⟨tree, invocation.root?.getD here, invocation.plain || colorDisabled⟩ command

end CommandLine
end PageComposer
