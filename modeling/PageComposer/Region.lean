import PageComposer.Placeholder

namespace PageComposer

/-!
# Regions of a page

A placeholder is resolved by putting a text into its span.  A composition can
mark what it put in: the replacement then stands between a begin and an end
comment that carry the definition of the placeholder, from which the
placeholder can be written again.
-/

/-- The opening of a begin comment. -/
def beginMarker : Text := tagOpen ++ ['b', 'e', 'g', 'i', 'n', '_']

/-- The opening of an end comment. -/
def endMarker : Text := tagOpen ++ ['e', 'n', 'd', '_']

/-- A begin comment. -/
def beginTag (definition : Text) : Text :=
  beginMarker ++ definition ++ tagClose

/-- An end comment. -/
def endTag (definition : Text) : Text :=
  endMarker ++ definition ++ tagClose

namespace Placeholder

/-- Put a text into the span of a placeholder. -/
def replaceIn (placeholder : Placeholder) (document replacement : Text) : Text :=
  Text.replaceBytes placeholder.start placeholder.stop replacement document

/-- A placeholder whose span is that of a part of the document is replaced in
place of that part. -/
theorem replaceIn_append {placeholder : Placeholder} {before middle after : Text}
    (starts : placeholder.start = Text.byteSize before)
    (stops : placeholder.stop = Text.byteSize before + Text.byteSize middle)
    (replacement : Text) :
    placeholder.replaceIn (before ++ middle ++ after) replacement =
      before ++ replacement ++ after := by
  unfold replaceIn
  rw [starts, stops]
  exact Text.replaceBytes_append before middle after replacement

/-- What the comments around a region say. -/
def definition (placeholder : Placeholder) : Text :=
  placeholder.kind.name ++ '-' :: placeholder.name ++ placeholder.argsSuffix

/-- A replacement between its comments, if regions are marked. -/
def region (placeholder : Placeholder) (marked : Bool) (replacement : Text) : Text :=
  if marked then
    beginTag placeholder.definition ++ replacement ++ endTag placeholder.definition
  else replacement

end Placeholder

/-- The visible block that stands in for a reference that cannot be resolved. -/
def errorBlock (message : Text) : Text :=
  "<div style=\"background-color: #f08080\">".toList ++ message ++ "</div>".toList

/-- The block for a placeholder that cannot be resolved. -/
def unprocessedBlock (placeholder : Placeholder) : Text :=
  errorBlock ("Could not process ".toList ++ placeholder.label)

end PageComposer
