import PageComposer.Site

namespace PageComposer

/-!
# Compositions

What a composition starts from and what it results in.
-/

/-- How far a composition goes and whether it marks what it puts in. -/
structure Options where
  /-- Stop after this many runs even when placeholders remain. -/
  maxRuns : Nat := 100
  /-- Put resolved regions between begin and end comments. -/
  markRegions : Bool := false
deriving DecidableEq, Inhabited

/-- A site together with the kinds of placeholders that are resolved. -/
structure Composer where
  site : Site
  kinds : List Kind := Kind.all
  options : Options := {}

/-- The addresses of linked resources, in document order run by run. -/
structure Includes where
  scripts : List Text := []
  /-- Scripts for the head of a page.  No placeholder registers one. -/
  headScripts : List Text := []
  styles : List Text := []
deriving DecidableEq, Inhabited

/-- A composed page. -/
structure Composition where
  content : Text
  template : Path
  includes : Includes
  /-- The number of runs that were made. -/
  runs : Nat
  /-- Whether no placeholder is left. -/
  converged : Bool
deriving DecidableEq, Inhabited

end PageComposer
