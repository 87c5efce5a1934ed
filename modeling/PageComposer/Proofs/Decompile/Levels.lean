import PageComposer.Proofs.Decompile.Descent
import PageComposer.Proofs.Decompile.Forest

namespace PageComposer

/-!
# The levels of a forest

The markers of all levels stand in one list, and a marker names those of its
content by their places in it.  The list is that of the forest in level order:
behind the roots it holds the children of each region in turn
(`Forest.levelOrder_eq`), so the children of a region take consecutive places,
from the one behind the children of all regions before it (`Numbered`).

The list grows while it is gone through.  The invariant of the passes is that the
markers which a pass goes through are those of one level, as they were found, and
that all levels above are numbered already.
-/

open List (Forall₂)

/-- What the marker of a region says of it in the end, when its children are
numbered from `first` on. -/
structure RegionTree.Described (region : RegionTree) (first : Nat) (marker : Marker) : Prop where
  kind : marker.kind = region.origin.kind
  name : marker.name = region.origin.name
  args : marker.args = region.origin.args
  content : marker.content = region.inside.collapsed
  nested : marker.nested = List.range' first region.children.length

/-- Markers of regions, whose children are numbered one region after the other. -/
inductive Numbered : Nat -> List RegionTree -> List Marker -> Prop
  | nil {next : Nat} : Numbered next [] []
  | cons {next : Nat} {region : RegionTree} {marker : Marker} {regions : List RegionTree}
      {markers : List Marker} (described : region.Described next marker)
      (behind : Numbered (next + region.children.length) regions markers) :
      Numbered next (region :: regions) (marker :: markers)

namespace Numbered

variable {next : Nat} {regions : List RegionTree} {markers : List Marker}

theorem length (numbered : Numbered next regions markers) : markers.length = regions.length := by
  induction numbered with
  | nil => rfl
  | cons _ _ inductionHypothesis => rw [List.length_cons, List.length_cons, inductionHypothesis]

theorem append {moreRegions : List RegionTree} {moreMarkers : List Marker}
    (first : Numbered next regions markers)
    (second : Numbered (next + (regions.flatMap RegionTree.children).length) moreRegions
      moreMarkers) : Numbered next (regions ++ moreRegions) (markers ++ moreMarkers) := by
  induction first with
  | nil => simpa using second
  | cons described _ inductionHypothesis =>
      refine .cons described (inductionHypothesis ?_)
      rwa [List.flatMap_cons, List.length_append, ← Nat.add_assoc] at second

theorem exists_marker (numbered : Numbered next regions markers) {index : Nat}
    {region : RegionTree} (here : regions[index]? = some region) :
    ∃ marker, markers[index]? = some marker ∧
      region.Described (next + ((regions.take index).flatMap RegionTree.children).length)
        marker := by
  induction numbered generalizing index with
  | nil => simp at here
  | @cons next first marker regions markers described _ inductionHypothesis =>
      cases index with
      | zero =>
          cases here
          exact ⟨marker, rfl, described⟩
      | succ before =>
          rcases inductionHypothesis here with ⟨found, place, later⟩
          refine ⟨found, place, ?_⟩
          rwa [List.take_succ_cons, List.flatMap_cons, List.length_append, ← Nat.add_assoc]

end Numbered

/-! ## One pass -/

theorem Forest.of_depth_zero {forest : Forest} (flat : forest.depth = 0) :
    forest.roots = [] ∧ forest.render = forest.collapsed := by
  cases forest with
  | text gap => exact ⟨rfl, rfl⟩
  | region gap origin inside behind =>
      rw [depth] at flat
      omega

/-- A region without regions in it is described as it is found. -/
theorem RegionTree.Found.described {region : RegionTree} {marker : Marker}
    (found : region.Found marker) (childless : region.children = [])
    (unchanged : region.inside.render = region.inside.collapsed) (first : Nat) :
    region.Described first marker := by
  refine ⟨found.kind, found.name, found.args, found.content.trans unchanged, ?_⟩
  rw [childless]
  exact found.nested

/-- A pass describes the regions of its level and finds those of the next one. -/
theorem collapseLevel_found {regions : List RegionTree} {level : List Marker}
    (found : Forall₂ RegionTree.Found regions level) (next : Nat) :
    ∃ collapsed below, collapseLevel next level = .ok (collapsed, below) ∧
      Numbered next regions collapsed ∧
      Forall₂ RegionTree.Found (regions.flatMap RegionTree.children) below := by
  induction found generalizing next with
  | nil => exact ⟨[], [], rfl, .nil, .nil⟩
  | @cons region marker regions level here _ inductionHypothesis =>
      rcases decompile_render region.inside unopened_nil with ⟨inner, decompiled, foundInner⟩
      rw [List.nil_append, List.nil_append] at decompiled
      rcases inductionHypothesis (next + inner.length) with
        ⟨collapsed, below, passed, numbered, foundBelow⟩
      have count : inner.length = region.children.length := foundInner.length_eq.symm
      rw [collapseLevel_cons here.nested, here.content, decompiled]
      dsimp only [bind, Except.bind]
      rw [passed]
      rw [count] at numbered
      refine ⟨_, _, rfl, .cons ⟨here.kind, here.name, here.args, rfl, ?_⟩ numbered, ?_⟩
      · rw [← count]
        rfl
      · rw [List.flatMap_cons]
        exact List.rel_append foundInner foundBelow

/-! ## All levels -/

theorem Forest.depth_of_mem_roots {forest : Forest} {region : RegionTree}
    (member : region ∈ forest.roots) : region.inside.depth < forest.depth := by
  induction forest with
  | text gap => cases member
  | region gap origin inside behind _ behindHypothesis =>
      rw [depth]
      rcases List.mem_cons.mp member with equal | later
      · rw [equal]
        exact Nat.lt_of_lt_of_le (Nat.lt_succ_self _) (Nat.le_max_left _ _)
      · exact Nat.lt_of_lt_of_le (behindHypothesis later) (Nat.le_max_right _ _)

namespace RegionTree

/-- All regions below a level have less depth than its own. -/
def Within (bound : Nat) (level : List RegionTree) : Prop :=
  ∀ region ∈ level, region.inside.depth < bound

theorem Within.children {bound : Nat} {level : List RegionTree} (within : Within bound level) :
    Within (bound - 1) (level.flatMap RegionTree.children) := by
  intro child member
  rcases List.mem_flatMap.mp member with ⟨region, inLevel, isChild⟩
  have lower := Forest.depth_of_mem_roots isChild
  have bounded := within region inLevel
  omega

theorem Within.eq_nil {level : List RegionTree} (within : Within 0 level) : level = [] := by
  apply List.eq_nil_iff_forall_not_mem.mpr
  intro region member
  exact absurd (within region member) (Nat.not_lt_zero _)

theorem below_flatMap (level : List RegionTree) (levels : Nat) :
    (below level levels).flatMap children = below (level.flatMap children) levels := by
  induction levels generalizing level with
  | zero => rfl
  | succ fewer inductionHypothesis => exact inductionHypothesis _

theorem below_of_within {bound levels : Nat} (enough : bound ≤ levels) {level : List RegionTree}
    (within : Within bound level) : below level levels = [] := by
  induction levels generalizing bound level with
  | zero => exact (Nat.le_zero.mp enough ▸ within).eq_nil
  | succ fewer inductionHypothesis =>
      exact inductionHypothesis (Nat.sub_le_of_le_add enough) within.children

/-- The regions of so many levels from one on. -/
def levelsFrom (level : List RegionTree) (levels : Nat) : List RegionTree :=
  (List.range levels).flatMap (below level)

theorem levelsFrom_succ (level : List RegionTree) (levels : Nat) :
    levelsFrom level (levels + 1) = level ++ levelsFrom (level.flatMap children) levels := by
  rw [levelsFrom, List.range_succ_eq_map, List.flatMap_cons, List.flatMap_map]
  rfl

/-- From some level on there are no regions. -/
theorem levelsFrom_of_within {bound : Nat} {level : List RegionTree} (within : Within bound level)
    (extra : Nat) : levelsFrom level (bound + extra) = levelsFrom level bound := by
  induction extra with
  | zero => rfl
  | succ fewer inductionHypothesis =>
      rw [← Nat.add_assoc, levelsFrom, List.range_succ, List.flatMap_append, List.flatMap_cons,
        List.flatMap_nil, below_of_within (Nat.le_add_right _ _) within, List.append_nil,
        List.append_nil]
      exact inductionHypothesis

theorem levelsFrom_flatMap (level : List RegionTree) (levels : Nat) :
    (levelsFrom level levels).flatMap children = levelsFrom (level.flatMap children) levels := by
  rw [levelsFrom, List.flatMap_assoc, levelsFrom]
  simp only [below_flatMap]

end RegionTree

open RegionTree in
/-- Behind the roots come the children of each region in turn. -/
theorem Forest.levelOrder_eq (forest : Forest) :
    forest.levelOrder = forest.roots ++ forest.levelOrder.flatMap RegionTree.children := by
  have within : Within forest.depth forest.roots := fun _ => depth_of_mem_roots
  have complete := levelsFrom_of_within within 1
  change levelsFrom forest.roots forest.depth = _ ++ (levelsFrom _ _).flatMap _
  rw [levelsFrom_flatMap, ← levelsFrom_succ, complete]

/-- The places that the children of a region are numbered with are theirs. -/
theorem Forest.children_places {forest : Forest} {index : Nat} {region : RegionTree}
    (here : forest.levelOrder[index]? = some region) :
    (List.range'
        (forest.roots.length + ((forest.levelOrder.take index).flatMap RegionTree.children).length)
        region.children.length).map (forest.levelOrder[·]?) =
      region.children.map some := by
  have places (before inner after : List RegionTree) :
      (List.range' before.length inner.length).map ((before ++ inner ++ after)[·]?) =
        inner.map some := by
    apply List.ext_getElem
    · simp
    · intro place _ bounded
      rw [List.length_map] at bounded
      rw [List.getElem_map, List.getElem_range', List.getElem_map, Nat.one_mul, List.append_assoc,
        List.getElem?_append_right (Nat.le_add_right _ _), Nat.add_sub_cancel_left,
        List.getElem?_append_left bounded, List.getElem?_eq_getElem bounded]
  rcases List.getElem?_eq_some_iff.mp here with ⟨inside, equal⟩
  have split : forest.levelOrder.flatMap RegionTree.children =
      (forest.levelOrder.take index).flatMap RegionTree.children ++
        (region.children ++ (forest.levelOrder.drop (index + 1)).flatMap RegionTree.children) := by
    rw [← List.flatMap_cons, ← equal, ← List.drop_eq_getElem_cons inside, ← List.flatMap_append,
      List.take_append_drop]
  have whole := forest.levelOrder_eq
  rw [split, ← List.append_assoc, ← List.append_assoc] at whole
  have found := places (forest.roots ++ (forest.levelOrder.take index).flatMap RegionTree.children)
    region.children ((forest.levelOrder.drop (index + 1)).flatMap RegionTree.children)
  rw [← whole, List.length_append] at found
  exact found

theorem Numbered.of_flat {regions : List RegionTree} {level : List Marker}
    (found : Forall₂ RegionTree.Found regions level) (flat : RegionTree.Within 1 regions)
    (next : Nat) : Numbered next regions level := by
  induction found generalizing next with
  | nil => exact .nil
  | @cons region marker regions level here _ inductionHypothesis =>
      have lowest := Nat.lt_one_iff.mp (flat region List.mem_cons_self)
      rcases Forest.of_depth_zero lowest with ⟨childless, unchanged⟩
      exact .cons (here.described childless unchanged next)
        (inductionHypothesis (fun other later => flat other (List.mem_cons_of_mem _ later)) _)

open RegionTree in
/-- The passes describe all levels of a forest that is not deeper than they go. -/
theorem collapseLevels_found {levels : Nat} {regions : List RegionTree} {level : List Marker}
    (above : List Marker) (found : Forall₂ RegionTree.Found regions level)
    (shallow : Within (levels + 1) regions) :
    ∃ markers, collapseLevels levels above level = .ok (above ++ markers) ∧
      Numbered (above.length + level.length) (levelsFrom regions (levels + 1)) markers := by
  induction levels generalizing regions level above with
  | zero =>
      refine ⟨level, collapseLevels_zero above level, ?_⟩
      rw [levelsFrom_succ]
      have rest : levelsFrom (regions.flatMap children) 0 = [] := rfl
      rw [rest, List.append_nil]
      exact .of_flat found shallow _
  | succ fewer inductionHypothesis =>
      rcases collapseLevel_found found (above.length + level.length) with
        ⟨collapsed, below, passed, numbered, foundBelow⟩
      rcases inductionHypothesis (above ++ collapsed) foundBelow shallow.children with
        ⟨markers, later, numberedBelow⟩
      refine ⟨collapsed ++ markers, ?_, ?_⟩
      · rw [collapseLevels_succ passed, later, List.append_assoc]
      · rw [levelsFrom_succ]
        apply numbered.append
        rwa [List.length_append, numbered.length, found.length_eq, ← foundBelow.length_eq]
          at numberedBelow

/-- Collapsing a rendered forest level by level gives its top level, and the
markers of its regions in level order: the marker of a region says what its
comments say, holds the top level of what is inside of it, and names the places of
its children, which follow those of the children of all regions before it. -/
theorem decompileNested_render (forest : Forest) (shallow : forest.depth ≤ maxNestedLevels + 1) :
    ∃ markers, decompileNested forest.render = .ok ⟨forest.collapsed, markers⟩ ∧
      markers.length = forest.levelOrder.length ∧
      ∀ index region, forest.levelOrder[index]? = some region ->
        ∃ marker, markers[index]? = some marker ∧
          marker.kind = region.origin.kind ∧
          marker.name = region.origin.rest.takeWhile Origin.inName ∧
          marker.args = region.origin.rest.dropWhile Origin.inName ∧
          marker.content = region.inside.collapsed ∧
          marker.nested = List.range'
            (forest.roots.length +
              ((forest.levelOrder.take index).flatMap RegionTree.children).length)
            region.inside.roots.length ∧
          marker.nested.map (forest.levelOrder[·]?) = region.inside.roots.map some := by
  rcases decompile_render forest unopened_nil with ⟨top, decompiled, found⟩
  rw [List.nil_append, List.nil_append] at decompiled
  have within : RegionTree.Within forest.depth forest.roots := fun _ => Forest.depth_of_mem_roots
  have deepest : RegionTree.Within (maxNestedLevels + 1) forest.roots := fun region member =>
    Nat.lt_of_lt_of_le (within region member) shallow
  rcases collapseLevels_found [] found deepest with ⟨markers, passed, numbered⟩
  rw [List.nil_append] at passed
  rcases Nat.exists_eq_add_of_le shallow with ⟨extra, total⟩
  rw [List.length_nil, Nat.zero_add, ← found.length_eq, total,
    RegionTree.levelsFrom_of_within within] at numbered
  refine ⟨markers, ?_, numbered.length, ?_⟩
  · unfold decompileNested
    rw [decompiled]
    dsimp only [bind, Except.bind]
    rw [passed]
    rfl
  · intro index region here
    rcases numbered.exists_marker here with ⟨marker, place, described⟩
    refine ⟨marker, place, described.kind, described.name, described.args, described.content,
      described.nested, ?_⟩
    rw [described.nested]
    exact Forest.children_places here

/-- The definition of both regions of `recurringForest`. -/
def recurringOrigin : Origin where
  kind := .file
  rest := "/a(b:1)".toList
  unclosed := by decide +kernel
  unbegun := by decide +kernel
  unended := by decide +kernel

/-- A text of one character. -/
def Gap.ofChar (character : Char) (other : character ≠ '<') : Gap where
  text := [character]
  unbegun := by
    intro occurs
    exact other (List.mem_singleton.mp (occurs.subset List.mem_cons_self)).symm
  unended := by
    intro occurs
    exact other (List.mem_singleton.mp (occurs.subset List.mem_cons_self)).symm

/-- A region inside of one that says the same. -/
def recurringForest : Forest :=
  .region (Gap.ofChar '0' (by decide)) recurringOrigin
    (.region (Gap.ofChar '1' (by decide)) recurringOrigin
      (.text (Gap.ofChar '2' (by decide))) (.text (Gap.ofChar '3' (by decide))))
    (.text (Gap.ofChar '4' (by decide)))

/-- The end comment that comes first is the one of the inner region. -/
theorem decompileNested_render_recurring :
    recurringForest.render =
        "0<!-- begin_file-/a(b:1) -->1<!-- begin_file-/a(b:1) -->2".toList ++
          "<!-- end_file-/a(b:1) -->3<!-- end_file-/a(b:1) -->4".toList ∧
      recurringForest.depth ≤ maxNestedLevels + 1 ∧
      ∃ outer inner : Marker,
        decompileNested recurringForest.render = .ok ⟨recurringForest.collapsed, [outer, inner]⟩ ∧
        recurringForest.collapsed = "0<!-- file:/a(b:1) -->4".toList ∧
        outer.name = "/a".toList ∧ outer.args = "(b:1)".toList ∧
        outer.content = "1<!-- file:/a(b:1) -->3".toList ∧ outer.nested = [1] ∧
        inner.content = "2".toList ∧ inner.nested = [] := by
  have rendered : recurringForest.render =
      "0<!-- begin_file-/a(b:1) -->1<!-- begin_file-/a(b:1) -->2".toList ++
        "<!-- end_file-/a(b:1) -->3<!-- end_file-/a(b:1) -->4".toList := by decide +kernel
  have shallow : recurringForest.depth ≤ maxNestedLevels + 1 := by decide
  refine ⟨rendered, shallow, ?_⟩
  rcases decompileNested_render recurringForest shallow with ⟨markers, done, count, described⟩
  rcases described 0 _ rfl with ⟨outer, first, _, name, args, content, nested, _⟩
  rcases described 1 _ rfl with ⟨inner, second, _, _, _, innerContent, innerNested, _⟩
  have two : markers = [outer, inner] := by
    rcases List.length_eq_two.mp count with ⟨left, right, equal⟩
    rw [equal] at first second ⊢
    cases first
    cases second
    rfl
  rw [two] at done
  have collapsed : recurringForest.collapsed = "0<!-- file:/a(b:1) -->4".toList := by
    decide +kernel
  have named : recurringOrigin.rest.takeWhile Origin.inName = "/a".toList := by decide +kernel
  have given : recurringOrigin.rest.dropWhile Origin.inName = "(b:1)".toList := by decide +kernel
  have around : Forest.collapsed (.region (Gap.ofChar '1' (by decide)) recurringOrigin
      (.text (Gap.ofChar '2' (by decide))) (.text (Gap.ofChar '3' (by decide)))) =
      "1<!-- file:/a(b:1) -->3".toList := by decide +kernel
  exact ⟨outer, inner, done, collapsed, name.trans named, args.trans given, content.trans around,
    nested, innerContent, innerNested⟩

end PageComposer
