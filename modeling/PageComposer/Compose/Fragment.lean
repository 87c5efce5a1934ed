import PageComposer.Attributes.Editable
import PageComposer.Attributes.Links
import PageComposer.Region
import PageComposer.Scan.Tags

namespace PageComposer

/-!
# Fragments and their wrappers

A fragment is read as placeholders see it: its editable attributes completed,
its first wrap applied, and its marked links resolved.  A wrapper is itself a
fragment, so reading follows a chain of wrappers; a wrapper that is reached
while it is being read closes a cycle, which is an error.

The chain is followed by recursion on the number of wrappers that may still be
entered.  Since the wrappers being read are all different, the number of files
of the site is enough.
-/

/-- The name of the slot that a wrapper fills. -/
def mainSlotName : Text := ['m', 'a', 'i', 'n']

/-- The single main slot of a wrapper. -/
def findMainSlot (site : Site) (wrapper : Path) (text : Text) : Except Failure Placeholder := do
  let slots <- scanKind site wrapper .content text
  match slots.filter fun slot => slot.name == mainSlotName with
  | [main] => return main
  | [] => throw (.missingMainSlot wrapper)
  | _ :: _ :: _ => throw (.overlappingMainSlot wrapper)

/-- The document with the block of a wrap that cannot be resolved. -/
def unresolvedWrap (wrap : Placeholder) (document : Text) : Text :=
  wrap.replaceIn document (unprocessedBlock wrap)

/-- Take the wrap tag out of a document and put what is left into the main
slot of its wrapper.  `enter` reads a wrapper that is not being read yet. -/
def applyWrapWith (site : Site) (enter : Path -> Except Failure Text) (wrapping : List Path)
    (wrap : Placeholder) (document : Text) : Except Failure Text :=
  match site.locate wrap with
  | .error failure =>
      if failure.isResolution then .ok (unresolvedWrap wrap document) else .error failure
  | .ok wrapper =>
      if wrapping.any wrapper.same then .error (.wrapCycle wrapper)
      else
        match enter wrapper with
        | .error failure =>
            if failure.isResolution then .ok (unresolvedWrap wrap document) else .error failure
        | .ok contents => do
            let text := Text.trim contents
            let main <- findMainSlot site wrapper text
            return main.replaceIn text (wrap.replaceIn document [])

/-- Read a fragment while `wrapping` are being read. -/
def readFragmentWith (site : Site) (enter : Path -> Except Failure Text) (wrapping : List Path)
    (path : Path) : Except Failure Text := do
  let raw <- site.read path
  let prepared := prepareEditable site path raw
  let wraps <- scanKind site path .wrap prepared
  let wrapped <-
    match wraps with
    | [] => pure prepared
    | wrap :: _ => applyWrapWith site enter wrapping wrap prepared
  return resolveLinks site path wrapped

/-- Read a fragment with at most `depth` wrappers still to be entered. -/
def readFragmentWithin (site : Site) : Nat -> List Path -> Path -> Except Failure Text
  | 0, wrapping, path =>
      readFragmentWith site (fun wrapper => .error (.wrapCycle wrapper)) wrapping path
  | depth + 1, wrapping, path =>
      readFragmentWith site
        (fun wrapper => readFragmentWithin site depth (wrapper :: wrapping) wrapper)
        wrapping path

/-- Read a fragment. -/
def readFragment (site : Site) (path : Path) : Except Failure Text :=
  readFragmentWithin site site.fileCount [] path

/-- Apply the wrap of a document that is not being read itself. -/
def applyWrap (site : Site) (wrap : Placeholder) (document : Text) : Except Failure Text :=
  applyWrapWith site (fun wrapper => readFragmentWithin site site.fileCount [wrapper] wrapper)
    [] wrap document

end PageComposer
