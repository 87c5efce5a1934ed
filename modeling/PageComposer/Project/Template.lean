import PageComposer.Path.Stray

namespace PageComposer

/-!
# Templates of a project

A template is a markup file that becomes a page of its own.  A markup file
whose name starts with an underscore is only ever included by others.  A name
that is no text is not looked at, so it starts with nothing.
-/

/-- A template, by its path and by its path below the project root. -/
structure TemplateEntry where
  path : Path
  relative : Text
deriving DecidableEq, Inhabited

/-- Whether a path names a markup file that is composed on its own. -/
def isTemplate (path : Path) (stray : Stray := .none) : Bool :=
  let isPartial := path.fileName?.any fun name =>
    stray.isText name && Text.startsWith ['_'] name
  path.extension? == some "html".toList && !isPartial

end PageComposer
