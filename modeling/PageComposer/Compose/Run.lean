import PageComposer.Compose.Binding

namespace PageComposer

/-!
# Composition runs

A run resolves every placeholder of a document once, from the end of the
document backwards, so that the spans of the placeholders still to come stay
valid.  The last wrap of the document surrounds all of it and is applied when
everything else is done; its span moves along with what is put in before it.
Runs are repeated until no placeholder is left or the limit is reached.
-/

/-- The markup file that a resource is named after, and for an index page the
directory it lies in. -/
def defaultResource (template : Path) (extension : Text) : Path :=
  let folderName := do
    let folder <- template.parent?
    let name <- folder.fileName?
    pure (folder, name)
  match template.fileName? == some "index.html".toList, folderName with
  | true, some (folder, name) => folder.join ⟨name ++ '.' :: extension⟩
  | _, _ => template.replaceExtension extension

/-- Placeholders in descending order of their starts share no byte.  Only
neighbours are compared. -/
def ensureDisjoint (template : Path) : List Placeholder -> Except Failure Unit
  | later :: earlier :: others =>
      if later.start < earlier.stop then
        .error (.overlapping earlier.tag later.tag template)
      else ensureDisjoint template (earlier :: others)
  | _ => .ok ()

/-- A run in progress. -/
structure RunState where
  /-- The document so far. -/
  text : Text
  /-- The styles registered in this run, in document order. -/
  styles : List Text := []
  /-- The scripts registered in this run, in document order. -/
  scripts : List Text := []
  /-- The wrap to be applied at the end, with its present span. -/
  wrap? : Option Placeholder := none
deriving DecidableEq

namespace RunState

/-- Put a text in place of a placeholder that lies before everything done so
far. -/
def put (state : RunState) (placeholder : Placeholder) (replacement : Text) : RunState :=
  let text := placeholder.replaceIn state.text replacement
  let moved (offset : Nat) : Nat := offset + Text.byteSize text - Text.byteSize state.text
  { state with
    text := text
    wrap? := state.wrap?.map fun wrap =>
      { wrap with start := moved wrap.start, stop := moved wrap.stop } }

end RunState

namespace Composer

/-- What a file placeholder is replaced by. -/
def fileText (composer : Composer) (placeholder : Placeholder) : Except Failure Text :=
  match composer.site.locate placeholder >>= readFragment composer.site with
  | .ok contents => .ok (Text.trim contents)
  | .error failure =>
      if failure.isResolution then .ok (unprocessedBlock placeholder) else .error failure

/-- The notice for a slot that no layout fills. -/
def slotNotice (placeholder : Placeholder) : Text :=
  "<!-- content placeholder not called as layout - content:".toList ++ placeholder.name ++
    tagClose

/-- The address of the resource that a link registers. -/
def linkedAddress (composer : Composer) (template : Path) (placeholder : Placeholder) :
    Except Failure Text := do
  let missing := Failure.missingResource placeholder.kind template
  let resource <-
    if placeholder.name = "default".toList then
      pure (defaultResource template placeholder.kind.extension)
    else
      match composer.site.locate placeholder with
      | .ok path => pure path
      | .error failure =>
          if failure.isResolution then throw (missing placeholder.name) else throw failure
  if composer.site.holds resource then
    return composer.site.address resource
  else
    throw (missing resource.text)

/-- Resolve one placeholder. -/
def step (composer : Composer) (template : Path) (options : Options) (state : RunState)
    (placeholder : Placeholder) : Except Failure RunState :=
  match placeholder.kind with
  | .wrap => .ok { state with wrap? := state.wrap?.or (some placeholder) }
  | .file => do
      let replacement <- composer.fileText placeholder
      return state.put placeholder (placeholder.region options.markRegions replacement)
  | .layout => do
      let replacement <- composer.layoutText placeholder
      return state.put placeholder (placeholder.region options.markRegions replacement)
  | .content => .ok (state.put placeholder (slotNotice placeholder))
  | .linkCss => do
      let address <- composer.linkedAddress template placeholder
      return { state.put placeholder [] with styles := address :: state.styles }
  | .linkScript => do
      let address <- composer.linkedAddress template placeholder
      return { state.put placeholder [] with scripts := address :: state.scripts }

/-- Resolve the given placeholders of a document once each. -/
def run (composer : Composer) (template : Path) (options : Options) (document : Text)
    (placeholders : List Placeholder) (includes : Includes) :
    Except Failure (Text × Includes) := do
  let backwards := placeholders.mergeSort fun left right => right.start ≤ left.start
  ensureDisjoint template backwards
  let state <- backwards.foldlM (composer.step template options) { text := document }
  let text <-
    match state.wrap? with
    | some wrap => applyWrap composer.site wrap state.text
    | none => pure state.text
  return (text, { includes with
    styles := includes.styles ++ state.styles
    scripts := includes.scripts ++ state.scripts })

/-- Find the placeholders of the kinds that are resolved. -/
def scan (composer : Composer) (document : Path) (text : Text) :
    Except Failure (List Placeholder) :=
  PageComposer.scan composer.site document composer.kinds text

/-- Run on a document with `remaining` runs left and `runs` made. -/
def runWithin (composer : Composer) (template : Path) (options : Options) :
    Nat -> Nat -> Text -> Includes -> Except Failure Composition
  | remaining, runs, document, includes => do
      let placeholders <- composer.scan template document
      match placeholders with
      | [] => return ⟨document, template, includes, runs, true⟩
      | first :: others =>
          match remaining with
          | 0 => return ⟨document, template, includes, runs, false⟩
          | remaining + 1 => do
              let (document, includes) <-
                composer.run template options document (first :: others) includes
              runWithin composer template options remaining (runs + 1) document includes

/-- Compose a template with other options than the composer's own. -/
def composeWith (composer : Composer) (template : Path) (text : Text) (options : Options) :
    Except Failure Composition :=
  if template.extension? = some "html".toList then
    let prepared := prepareEditable composer.site template text
    let document := resolveLinks composer.site template prepared
    composer.runWithin template options options.maxRuns 0 document {}
  else .error (.notMarkup template)

/-- Compose a template. -/
def compose (composer : Composer) (template : Path) (text : Text) :
    Except Failure Composition :=
  composer.composeWith template text composer.options

end Composer
end PageComposer
