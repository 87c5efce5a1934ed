import PageComposer.Decompile.Collapse

namespace PageComposer

/-!
# Regions inside regions

The content of a region may hold regions of its own.  They are collapsed level
by level: each level holds the markers that were found in the contents of the
level before it, and all levels follow each other in one list.  A marker names
the markers of its content by their indices in that list.
-/

/-- How many levels below the first one are collapsed. -/
def maxNestedLevels : Nat := 1000

/-- Collapse the contents of one level.  The markers that are found, which come
second, are numbered from `next` on. -/
def collapseLevel : Nat -> List Marker -> Except Failure (List Marker × List Marker)
  | _, [] => .ok ([], [])
  | next, marker :: others =>
      if Text.contains beginMarker marker.content then do
        let inner <- decompile marker.content
        let count := inner.markers.length
        let (level, below) <- collapseLevel (next + count) others
        let collapsed : Marker :=
          { marker with content := inner.content, nested := List.range' next count }
        return (collapsed :: level, inner.markers ++ below)
      else do
        let (level, below) <- collapseLevel next others
        return (marker :: level, below)

/-- Collapse a level and those below it, after the markers `above`. -/
def collapseLevels : Nat -> List Marker -> List Marker -> Except Failure (List Marker)
  | _, above, [] => .ok above
  | 0, above, level => .ok (above ++ level)
  | levels + 1, above, level => do
      let (collapsed, below) <- collapseLevel (above.length + level.length) level
      collapseLevels levels (above ++ collapsed) below

/-- Collapse every marked region, and the regions in their contents. -/
def decompileNested (text : Text) : Except Failure Decompiled := do
  let top <- decompile text
  let markers <- collapseLevels maxNestedLevels [] top.markers
  return ⟨top.content, markers⟩

end PageComposer
