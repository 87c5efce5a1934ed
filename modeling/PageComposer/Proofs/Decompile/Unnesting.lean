import Mathlib.Data.List.Nodup
import PageComposer.Proofs.Decompile.Descent

namespace PageComposer

/-!
# The forest of all regions

Decompiling level by level builds a forest on every text that it accepts: its markers
stand level behind level, each marker below the first level is named once, by a marker in
front of it (`Decompiled.Nests`), and nothing of the text is lost.  Putting the regions
back, those of a content before the one around them, gives it again
(`decompileNested_nests`).
-/

open List (Forall₂)

/-! ## Putting all regions back -/

/-- The marker as it was found, if these are the markers that were found in its content. -/
def Marker.restored? (marker : Marker) (inner : List Marker) : Option Marker :=
  (Decompiled.reopened? ⟨marker.content, inner⟩).map fun content =>
    { marker with content := content, nested := [] }

theorem Marker.restored?_descend {marker : Marker} (raw : marker.Raw) {inner : Decompiled}
    (reopened : inner.reopened? = some marker.content) (next : Nat) :
    (marker.descend inner next).restored? inner.markers = some marker := by
  have whole : Decompiled.reopened? ⟨inner.content, inner.markers⟩ = some marker.content := reopened
  rw [restored?, descend, whole]
  rcases marker
  cases raw
  rfl

/-- The marker at an index as it was found, when the first marker of the list has the
index `place`.  The markers that it names have to come behind it, and are restored
first. -/
def unnest? : Nat -> List Marker -> Nat -> Option Marker
  | _, [], _ => none
  | place, marker :: behind, index =>
      if index = place then
        (marker.nested.mapM (unnest? (place + 1) behind)).bind marker.restored?
      else unnest? (place + 1) behind index

/-- The text with all regions put back, those of the top level behind those inside of
them.  The first `roots` markers are the ones of the top level. -/
def Decompiled.unnested? (decompiled : Decompiled) (roots : Nat) : Option Text := do
  let top <- (List.range roots).mapM (unnest? 0 decompiled.markers)
  Decompiled.reopened? ⟨decompiled.content, top⟩

theorem unnest?_append {place index : Nat} {front : List Marker} (back : List Marker)
    (behind : place + front.length ≤ index) :
    unnest? place (front ++ back) index = unnest? (place + front.length) back index := by
  induction front generalizing place with
  | nil => rfl
  | cons marker front inductionHypothesis =>
      rw [List.length_cons] at behind
      have later : index ≠ place := by omega
      rw [List.cons_append, unnest?, if_neg later, inductionHypothesis (by omega),
        List.length_cons, Nat.add_right_comm, Nat.add_assoc]

/-- Markers that are found at consecutive indices. -/
theorem mapM_range'_eq_some {look : Nat -> Option Marker} {first : Nat} {found : List Marker}
    (places : ∀ index marker, found[index]? = some marker -> look (first + index) = some marker) :
    (List.range' first found.length).mapM look = some found := by
  induction found generalizing first with
  | nil => rfl
  | cons marker found inductionHypothesis =>
      have here := places 0 marker rfl
      have rest := @inductionHypothesis (first + 1) fun index other place => by
        have later := places (index + 1) other place
        rwa [Nat.add_comm index, ← Nat.add_assoc] at later
      rw [Nat.add_zero] at here
      rw [List.length_cons, List.range'_succ, List.mapM_cons, here, rest]
      rfl

/-- If the markers that a pass found can be restored, so can those of its level. -/
theorem Descends.unnest? {next : Nat} {level collapsed below : List Marker}
    (descends : Descends next level collapsed below) (raw : ∀ marker ∈ level, marker.Raw)
    {place : Nat} {rest : List Marker} (behind : place + level.length ≤ next)
    (restored : ∀ index marker, below[index]? = some marker ->
      PageComposer.unnest? (place + level.length) rest (next + index) = some marker) :
    ∀ index marker, level[index]? = some marker ->
      PageComposer.unnest? place (collapsed ++ rest) (place + index) = some marker := by
  induction descends generalizing place with
  | nil => simp
  | @cons next first inner level collapsed below taken descends inductionHypothesis =>
      rw [List.forall_mem_cons] at raw
      rw [List.length_cons] at behind restored
      have shift : place + (level.length + 1) = place + 1 + level.length := by omega
      rw [shift] at behind restored
      intro index marker here
      rw [List.cons_append, PageComposer.unnest?]
      cases index with
      | zero =>
          cases here
          have children : (first.descend inner next).nested.mapM
              (PageComposer.unnest? (place + 1) (collapsed ++ rest)) = some inner.markers := by
            apply mapM_range'_eq_some
            intro child marker among
            have inside := (List.getElem?_eq_some_iff.mp among).1
            rw [← descends.length] at restored behind
            rw [unnest?_append rest (by omega)]
            apply restored
            rwa [List.getElem?_append_left inside]
          rw [if_pos (Nat.add_zero place), children, Option.bind_some]
          exact Marker.restored?_descend raw.1 (collapses_of_decompile taken).reopened next
      | succ index =>
          rw [if_neg (by omega), ← Nat.add_assoc, Nat.add_right_comm]
          apply inductionHypothesis raw.2 (Nat.le_add_right_of_le behind) _ _ _ here
          intro child marker among
          have lower := restored (inner.markers.length + child) marker
          rw [List.getElem?_append_right (Nat.le_add_right _ _), Nat.add_sub_cancel_left,
            ← Nat.add_assoc] at lower
          exact lower among

theorem unnest?_of_raw {place : Nat} {level : List Marker} (raw : ∀ marker ∈ level, marker.Raw) :
    ∀ index marker, level[index]? = some marker ->
      unnest? place level (place + index) = some marker := by
  induction level generalizing place with
  | nil => simp
  | cons first others inductionHypothesis =>
      rw [List.forall_mem_cons] at raw
      intro index marker here
      rw [unnest?]
      cases index with
      | zero =>
          cases here
          have restored := @Marker.restored?_descend first raw.1 ⟨first.content, []⟩ rfl 0
          rw [raw.1.descend_of_unbegun] at restored
          rw [if_pos (Nat.add_zero place), raw.1]
          exact restored
      | succ index =>
          rw [if_neg (by omega), ← Nat.add_assoc, Nat.add_right_comm]
          exact inductionHypothesis raw.2 index marker here

/-- Every marker of a level is restored to what it was when it was found. -/
theorem Unnests.unnest? {levels place : Nat} {level rest : List Marker}
    (unnests : Unnests levels place level rest) (raw : ∀ marker ∈ level, marker.Raw) :
    ∀ index marker, level[index]? = some marker ->
      PageComposer.unnest? place rest (place + index) = some marker := by
  induction unnests with
  | stopped => exact unnest?_of_raw raw
  | pass descends _ inductionHypothesis =>
      exact descends.unnest? raw (Nat.le_refl _) (inductionHypothesis descends.raw)

/-! ## The forest -/

theorem decompileNested_eq_ok_iff {text : Text} {result : Decompiled} :
    decompileNested text = .ok result ↔
      ∃ top, decompile text = .ok top ∧ result.content = top.content ∧
        collapseLevels maxNestedLevels [] top.markers = .ok result.markers := by
  constructor
  · intro finished
    rcases bind_eq_ok_iff.mp finished with ⟨top, taken, finished⟩
    rcases bind_eq_ok_iff.mp finished with ⟨markers, passed, equal⟩
    cases equal
    exact ⟨top, taken, rfl, passed⟩
  · rintro ⟨top, taken, content, passed⟩
    rw [decompileNested, taken]
    dsimp only [bind, Except.bind]
    rw [passed, ← content]
    rfl

theorem decompileNested_eq_error_iff {text : Text} {failure : Failure} :
    decompileNested text = .error failure ↔
      decompile text = .error failure ∨
        ∃ top, decompile text = .ok top ∧
          collapseLevels maxNestedLevels [] top.markers = .error failure := by
  rw [decompileNested, bind_eq_error_iff]
  refine or_congr_right (exists_congr fun top => and_congr_right fun _ => ?_)
  rw [bind_eq_error_iff]
  refine ⟨?_, Or.inl⟩
  rintro (failed | ⟨_, _, impossible⟩)
  · exact failed
  · cases impossible

/-- The markers of a result form a forest.  Its roots come first; they are the markers
`top` of the text itself, with their contents decompiled. -/
structure Decompiled.Nests (result : Decompiled) (top : List Marker) : Prop where
  roots : Forall₂ Marker.Descended top (result.markers.take top.length)
  /-- Only markers behind the roots are named. -/
  inner : ∀ outer index, Encloses result.markers outer index ->
    top.length ≤ index ∧ index < result.markers.length
  /-- Each of these is named once, by a marker in front of it. -/
  parent : ∀ index, top.length ≤ index -> index < result.markers.length ->
    ∃ outer < index, ∃ marker, result.markers[outer]? = some marker ∧
      marker.nested.count index = 1 ∧
      ∀ other, Encloses result.markers other index -> other = outer
  consecutive : ∀ marker ∈ result.markers, ∃ first count, marker.nested = List.range' first count
  /-- Above the lowest level no begin comment is left. -/
  unbegun : ∀ depth < maxNestedLevels, ∀ index,
    AtDepth (· < top.length) (Encloses result.markers) depth index ->
      ∀ marker, result.markers[index]? = some marker -> ¬ beginMarker <:+: marker.content
  depth : ∀ index < result.markers.length, ∃ depth ≤ maxNestedLevels,
    AtDepth (· < top.length) (Encloses result.markers) depth index

/-- Two markers do not name the same one. -/
theorem Encloses.unique {markers : List Marker} (distinct : (markers.flatMap Marker.nested).Nodup)
    {left right index : Nat} (first : Encloses markers left index)
    (second : Encloses markers right index) : left = right := by
  have disjoint := List.pairwise_iff_getElem.mp (List.nodup_flatMap.mp distinct).2
  have apart {former later : Nat} (before : former < later) (first : Encloses markers former index)
      (second : Encloses markers later index) : False := by
    rcases first with ⟨marker, here, member⟩
    rcases second with ⟨other, there, among⟩
    rcases List.getElem?_eq_some_iff.mp here with ⟨within, equal⟩
    rcases List.getElem?_eq_some_iff.mp there with ⟨inside, same⟩
    have separate : markers[former].nested.Disjoint markers[later].nested :=
      disjoint former later within inside before
    rw [equal, same] at separate
    exact separate member among
  rcases Nat.lt_trichotomy left right with less | equal | more
  · exact absurd (apart less first second) not_false
  · exact equal
  · exact absurd (apart more second first) not_false

theorem exists_encloses_iff {markers : List Marker} {index : Nat} :
    (∃ outer, Encloses markers outer index) ↔ index ∈ markers.flatMap Marker.nested := by
  rw [List.mem_flatMap]
  constructor
  · rintro ⟨_, marker, here, member⟩
    exact ⟨marker, List.mem_of_getElem? here, member⟩
  · rintro ⟨marker, among, member⟩
    rcases List.mem_iff_getElem?.mp among with ⟨outer, here⟩
    exact ⟨outer, marker, here, member⟩

theorem Unnests.nests {top : List Marker} {result : Decompiled}
    (unnests : Unnests maxNestedLevels 0 top result.markers) : result.Nests top := by
  have named := unnests.flatMap_nested
  have distinct : (result.markers.flatMap Marker.nested).Nodup := by
    rw [named]
    exact List.nodup_range'
  have enclosed {index : Nat} : (∃ outer, Encloses result.markers outer index) ↔
      top.length ≤ index ∧ index < result.markers.length := by
    have most := unnests.length_le
    rw [exists_encloses_iff, named, List.mem_range'_1]
    omega
  have start {index : Nat} : 0 ≤ index ∧ index < 0 + top.length ↔ index < top.length := by omega
  constructor
  · exact unnests.roots (by decide)
  · exact fun outer index encloses => enclosed.mp ⟨outer, encloses⟩
  · intro index least within
    rcases enclosed.mpr ⟨least, within⟩ with ⟨outer, encloses⟩
    rcases encloses with ⟨marker, here, member⟩
    have before := unnests.lt_of_mem_nested here index member
    rw [Nat.zero_add] at before
    have once := List.count_eq_one_of_mem
      ((List.nodup_flatMap.mp distinct).1 marker (List.mem_of_getElem? here)) member
    exact ⟨outer, before, marker, here, once,
      fun other again => again.unique distinct ⟨marker, here, member⟩⟩
  · exact unnests.consecutive
  · intro depth lower index deep marker here
    exact unnests.unbegun [] rfl (deep.mono fun _ => start.mpr) lower here
  · intro index within
    rw [← Nat.zero_add result.markers.length] at within
    rcases unnests.exists_depth [] rfl (Nat.zero_le _) within with
      ⟨depth, bounded, deep⟩
    exact ⟨depth, bounded, deep.mono fun _ => start.mp⟩

/-- What decompiling level by level results in is a forest of markers, below the markers
that are found in the text itself: each of the others is named by one marker in front of
it, those that a marker names are consecutive, and above the lowest level no begin comment
is left.  Putting all regions back, those of a content before the one around them, gives
the text again.  It fails exactly where decompiling fails on the text or on a content of
these levels. -/
theorem decompileNested_nests (text : Text) :
    (∀ result, decompileNested text = .ok result ->
      ∃ top, decompile text = .ok top ∧ result.content = top.content ∧
        result.Nests top.markers ∧ result.unnested? top.markers.length = some text) ∧
    ((∃ failure, decompileNested text = .error failure) ↔
      (∃ failure, decompile text = .error failure) ∨
        ∃ top, decompile text = .ok top ∧
          ∃ depth < maxNestedLevels, ∃ marker,
            AtDepth (· ∈ top.markers) Marker.Holds depth marker ∧
              ∃ failure, decompile marker.content = .error failure) := by
  constructor
  · intro result finished
    rcases decompileNested_eq_ok_iff.mp finished with ⟨top, taken, content, passed⟩
    have collapses := collapses_of_decompile taken
    rcases unnests_of_collapseLevels collapses.raw passed with ⟨rest, equal, unnests⟩
    rw [List.nil_append] at equal
    rw [← equal] at unnests
    refine ⟨top, taken, content, unnests.nests, ?_⟩
    have restored := mapM_range'_eq_some (unnests.unnest? collapses.raw)
    rw [List.length_nil, ← List.range_eq_range'] at restored
    rw [Decompiled.unnested?, restored, content]
    exact collapses.reopened
  · constructor
    · rintro ⟨failure, failed⟩
      rcases decompileNested_eq_error_iff.mp failed with outside | ⟨top, taken, inside⟩
      · exact Or.inl ⟨failure, outside⟩
      · rcases exists_error_of_collapseLevels (collapses_of_decompile taken).raw inside with
          ⟨depth, lower, marker, deep, fails⟩
        exact Or.inr ⟨top, taken, depth, lower, marker, deep, failure, fails⟩
    · intro fails
      cases finished : decompileNested text with
      | error failure => exact ⟨failure, rfl⟩
      | ok result =>
          rcases decompileNested_eq_ok_iff.mp finished with ⟨top, taken, _, passed⟩
          have raw := (collapses_of_decompile taken).raw
          rcases unnests_of_collapseLevels raw passed with ⟨rest, _, unnests⟩
          rcases fails with ⟨failure, outside⟩ |
            ⟨other, sameTaken, depth, lower, marker, deep, failure, inside⟩
          · rw [taken] at outside
            cases outside
          · rw [taken] at sameTaken
            cases sameTaken
            rcases unnests.exists_decompile deep lower with ⟨inner, decompiled⟩
            rw [decompiled] at inside
            cases inside

/-- A region around `openDefinition`. -/
def openNested : Text :=
  "<!-- begin_file-/a -->".toList ++ openDefinition ++ "<!-- end_file-/a -->".toList

/-- The markers inside of it stand behind its own. -/
def openNestedDecompiled : Decompiled where
  content := "<!-- file:/a -->".toList
  markers :=
    { kind := .file, name := "/a".toList, args := [], start := 0, stop := 134,
      content := openDecompiled.content, nested := [1, 2] } :: openDecompiled.markers

theorem decompileNested_nests_open_definition :
    decompileNested openNested = .ok openNestedDecompiled ∧
      ∃ top, decompile openNested = .ok top ∧ openNestedDecompiled.content = top.content ∧
        openNestedDecompiled.Nests top.markers ∧
        openNestedDecompiled.unnested? top.markers.length = some openNested := by
  have finished : decompileNested openNested = .ok openNestedDecompiled := by decide +kernel
  exact ⟨finished, (decompileNested_nests openNested).1 _ finished⟩

end PageComposer
