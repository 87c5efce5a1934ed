import PageComposer.Scan.Body
import PageComposer.Site

namespace PageComposer

/-!
# Scanning a document for tags

A scan for one kind goes from left to right.  A tag begins at the next opening
of the kind and ends at the first closing after it; the scan goes on behind
that closing.  The result of a scan for several kinds is ordered by where the
tags start.
-/

/-- Whether a name is written relative to its document. -/
def isRelativeName (name : Text) : Bool :=
  Text.startsWith ['.', '/'] name || Text.startsWith ['.', '.', '/'] name

/-- The extension of a markup file, with its dot. -/
def markupSuffix : Text := ['.', 'h', 't', 'm', 'l']

/-- A relative name as a name from the root of the site.  Other names stay as
they are. -/
def absoluteName (site : Site) (document : Path) (name : Text) : Text :=
  if isRelativeName name then
    let target := (document.folder.join ⟨name ++ markupSuffix⟩).normalize
    let address := site.address target
    let address := (Text.dropEnd? markupSuffix address).getD address
    if Text.startsWith ['/'] address then address else '/' :: address
  else name

/-- The placeholder of a tag whose body is `raw`, at byte `start`. -/
def readTag (site : Site) (document : Path) (kind : Kind) (start : Nat) (raw : Text) :
    Except Failure Placeholder :=
  let tag := kind.opening ++ raw ++ tagClose
  match Body.ofRaw kind raw tag with
  | .error failure => .error failure
  | .ok body =>
      if body.name.isEmpty then .error (.emptyName kind document)
      else .ok {
        name := absoluteName site document body.name
        kind := kind
        start := start
        stop := start + Text.byteSize tag
        tag := tag
        args := body.args
        style := body.style
        document := document }

/-- The span of a placeholder is that of its tag. -/
theorem readTag_span {site : Site} {document : Path} {kind : Kind} {start : Nat} {raw : Text}
    {placeholder : Placeholder}
    (accepted : readTag site document kind start raw = .ok placeholder) :
    placeholder.start = start ∧ placeholder.stop = start + Text.byteSize placeholder.tag ∧
      placeholder.tag = kind.opening ++ raw ++ tagClose := by
  unfold readTag at accepted
  dsimp only at accepted
  split at accepted
  · cases accepted
  · split at accepted
    · cases accepted
    · cases accepted
      exact ⟨rfl, rfl, rfl⟩

/-- Scan a text that begins at byte `offset` of its document. -/
def scanKindFrom (site : Site) (document : Path) (kind : Kind) (offset : Nat) (text : Text) :
    Except Failure (List Placeholder) :=
  match _opened : Text.cut? kind.opening text with
  | none => .ok []
  | some (before, inside) =>
      match _closed : Text.cut? tagClose inside with
      | none => .error (.unterminated (Text.firstLine (kind.opening ++ inside)) document)
      | some (raw, rest) => do
          let placeholder <-
            readTag site document kind (offset + Text.byteSize before) raw
          let others <- scanKindFrom site document kind placeholder.stop rest
          return placeholder :: others
termination_by text.length
decreasing_by
  have outer := Text.cut?_length _opened
  have inner := Text.cut?_length _closed
  have closing : 0 < tagClose.length := by decide
  omega

/-- The placeholders of one kind, ordered by their start. -/
def scanKind (site : Site) (document : Path) (kind : Kind) (text : Text) :
    Except Failure (List Placeholder) :=
  scanKindFrom site document kind 0 text

/-- The placeholders of several kinds, ordered by their start. -/
def scan (site : Site) (document : Path) (kinds : List Kind) (text : Text) :
    Except Failure (List Placeholder) := do
  let found <- kinds.mapM fun kind => scanKind site document kind text
  return found.flatten.mergeSort fun left right => left.start ≤ right.start

end PageComposer
