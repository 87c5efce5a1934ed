import PageComposer.Compose.Composer
import PageComposer.Decompile.Collapse
import PageComposer.Json

namespace PageComposer

/-!
# Reports

The JSON form of results, with the members in the order in which readers of
the reports meet them.
-/

/-- What was linked while a template was composed. -/
def Composition.metadata (composition : Composition) : Json :=
  .record [
    ("templatePath", .string composition.template.text),
    ("include", .record [
      ("script", .strings composition.includes.scripts),
      ("headScript", .strings composition.includes.headScripts),
      ("style", .strings composition.includes.styles)])]

/-- A composed page. -/
def Composition.report (composition : Composition) : Json :=
  .record [
    ("content", .string composition.content),
    ("metadata", composition.metadata),
    ("runs", .number composition.runs),
    ("converged", .boolean composition.converged)]

/-- A marked region. -/
def Marker.report (marker : Marker) : Json :=
  .record [
    ("name", .string marker.name),
    ("type", .string marker.kind.name),
    ("args", .string marker.args),
    ("start", .number marker.start),
    ("end", .number marker.stop),
    ("content", .string marker.content),
    ("nestedMarkers", .array (marker.nested.map .number))]

/-- A text without marked regions. -/
def Decompiled.report (decompiled : Decompiled) : Json :=
  .record [
    ("content", .string decompiled.content),
    ("markers", .array (decompiled.markers.map Marker.report))]

/-- A placeholder in a list of placeholders, its members sorted. -/
def Placeholder.report (placeholder : Placeholder) : Json :=
  .record [
    ("args", .strings placeholder.args),
    ("end", .number placeholder.stop),
    ("name", .string placeholder.name),
    ("start", .number placeholder.start),
    ("type", .string placeholder.kind.name)]

end PageComposer
