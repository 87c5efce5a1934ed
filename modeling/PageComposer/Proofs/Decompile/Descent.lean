import Mathlib.Data.List.Forall2
import PageComposer.Decompile.Nested
import PageComposer.Proofs.Decompile.Reopening

namespace PageComposer

/-!
# Going down into regions

A text need not be the rendering of a forest to be decompiled level by level: comments
may stand open in definitions, and regions may be cut out of what other tags became.
Each pass still takes the markers of one level, as they were found, and decompiles
the content of each of them (`Descends`), and the passes put the markers of all levels
one behind the other (`Unnests`).
-/

open List (Forall₂)

/-- What lies so many steps inside of something on top. -/
inductive AtDepth {α : Type} (top : α -> Prop) (inside : α -> α -> Prop) : Nat -> α -> Prop
  | top {item : α} (here : top item) : AtDepth top inside 0 item
  | inside {depth : Nat} {outer inner : α} (above : AtDepth top inside depth outer)
      (step : inside outer inner) : AtDepth top inside (depth + 1) inner

namespace AtDepth

variable {α : Type} {top lower : α -> Prop} {inside : α -> α -> Prop} {depth : Nat} {item : α}

theorem mono (sub : ∀ item, top item -> lower item) (deep : AtDepth top inside depth item) :
    AtDepth lower inside depth item := by
  induction deep with
  | top here => exact .top (sub _ here)
  | inside _ step inductionHypothesis => exact .inside inductionHypothesis step

theorem zero_iff : AtDepth top inside 0 item ↔ top item :=
  ⟨fun | .top here => here, .top⟩

/-- The first step may be taken to what lies one level lower. -/
theorem succ_iff :
    AtDepth top inside (depth + 1) item ↔
      AtDepth (fun inner => ∃ outer, top outer ∧ inside outer inner) inside depth item := by
  constructor
  · intro deep
    induction depth generalizing item with
    | zero =>
        rcases deep with _ | ⟨above, step⟩
        exact .top ⟨_, zero_iff.mp above, step⟩
    | succ fewer inductionHypothesis =>
        rcases deep with _ | ⟨above, step⟩
        exact .inside (inductionHypothesis above) step
  · intro deep
    induction deep with
    | top here =>
        rcases here with ⟨outer, isTop, step⟩
        exact .inside (.top isTop) step
    | inside _ step inductionHypothesis => exact .inside inductionHypothesis step

end AtDepth

/-! ## Markers as they are found -/

/-- A marker as it is taken out of a text, with its content as it stood there. -/
def Marker.Raw (marker : Marker) : Prop :=
  marker.nested = []

/-- A marker with its content decompiled, when the markers of the content are numbered
from `next` on. -/
def Marker.descend (marker : Marker) (inner : Decompiled) (next : Nat) : Marker :=
  { marker with
    content := inner.content
    nested := List.range' next inner.markers.length }

/-- A marker whose content has been decompiled. -/
def Marker.Descended (found marker : Marker) : Prop :=
  ∃ inner next, decompile found.content = .ok inner ∧ marker = found.descend inner next

theorem Marker.Descended.unbegun {found marker : Marker} (descended : found.Descended marker) :
    ¬ beginMarker <:+: marker.content := by
  rcases descended with ⟨inner, _, taken, equal⟩
  rw [equal]
  exact (collapses_of_decompile taken).unbegun

theorem Collapses.raw {text : Text} {decompiled : Decompiled}
    (collapses : Collapses text decompiled) : ∀ marker ∈ decompiled.markers, marker.Raw := by
  induction collapses with
  | done => simp
  | round round _ inductionHypothesis =>
      refine List.forall_mem_cons.mpr ⟨?_, inductionHypothesis⟩
      unfold collapseFirst? at round
      split at round
      · cases round
      · split at round
        · cases round
        · rcases bind_eq_ok_iff.mp round with ⟨_, _, found⟩
          split at found <;> cases found
          rfl

/-- A raw marker without a region in its content is the same when that is decompiled. -/
theorem Marker.Raw.descend_of_unbegun {marker : Marker} (raw : marker.Raw) (next : Nat) :
    marker.descend ⟨marker.content, []⟩ next = marker := by
  rcases marker
  cases raw
  rfl

/-! ## One pass -/

/-- A pass decompiles the content of each marker of a level.  The markers that it finds
are numbered from `next` on. -/
inductive Descends : Nat -> List Marker -> List Marker -> List Marker -> Prop
  | nil {next : Nat} : Descends next [] [] []
  | cons {next : Nat} {marker : Marker} {inner : Decompiled}
      {level collapsed below : List Marker} (taken : decompile marker.content = .ok inner)
      (behind : Descends (next + inner.markers.length) level collapsed below) :
      Descends next (marker :: level) (marker.descend inner next :: collapsed)
        (inner.markers ++ below)

/-- A pass does the same with every marker, since decompiling changes nothing in a
content without regions. -/
theorem collapseLevel_cons {marker : Marker} (raw : marker.Raw) (next : Nat)
    (level : List Marker) :
    collapseLevel next (marker :: level) = do
      let inner <- decompile marker.content
      let (collapsed, below) <- collapseLevel (next + inner.markers.length) level
      return (marker.descend inner next :: collapsed, inner.markers ++ below) := by
  rw [collapseLevel]
  by_cases begun : Text.contains beginMarker marker.content = true
  · rw [if_pos begun]
    rfl
  · have unbegun := Text.cut?_eq_none_iff.mpr fun occurs => begun (Text.contains_iff.mpr occurs)
    rw [if_neg begun, decompile_of_unbegun unbegun]
    dsimp only [bind, Except.bind]
    rw [raw.descend_of_unbegun]
    rfl

theorem descends_of_collapseLevel {next : Nat} {level collapsed below : List Marker}
    (raw : ∀ marker ∈ level, marker.Raw)
    (passed : collapseLevel next level = .ok (collapsed, below)) :
    Descends next level collapsed below := by
  induction level generalizing next collapsed below with
  | nil =>
      cases passed
      exact .nil
  | cons marker level inductionHypothesis =>
      rw [List.forall_mem_cons] at raw
      rw [collapseLevel_cons raw.1] at passed
      rcases bind_eq_ok_iff.mp passed with ⟨inner, taken, passed⟩
      rcases bind_eq_ok_iff.mp passed with ⟨⟨_, _⟩, behind, equal⟩
      cases equal
      exact .cons taken (inductionHypothesis raw.2 behind)

/-- A pass fails only where some content cannot be decompiled. -/
theorem exists_error_of_collapseLevel {next : Nat} {level : List Marker} {failure : Failure}
    (raw : ∀ marker ∈ level, marker.Raw) (failed : collapseLevel next level = .error failure) :
    ∃ marker ∈ level, decompile marker.content = .error failure := by
  induction level generalizing next with
  | nil => cases failed
  | cons marker level inductionHypothesis =>
      rw [List.forall_mem_cons] at raw
      rw [collapseLevel_cons raw.1] at failed
      rcases bind_eq_error_iff.mp failed with here | ⟨inner, _, later⟩
      · exact ⟨marker, List.mem_cons_self, here⟩
      · rcases bind_eq_error_iff.mp later with behind | ⟨_, _, impossible⟩
        · rcases inductionHypothesis raw.2 behind with ⟨other, member, fails⟩
          exact ⟨other, List.mem_cons_of_mem _ member, fails⟩
        · cases impossible

namespace Descends

variable {next : Nat} {level collapsed below : List Marker}

theorem length (descends : Descends next level collapsed below) :
    collapsed.length = level.length := by
  induction descends with
  | nil => rfl
  | cons _ _ inductionHypothesis =>
      rw [List.length_cons, List.length_cons, inductionHypothesis]

theorem raw (descends : Descends next level collapsed below) :
    ∀ marker ∈ below, marker.Raw := by
  induction descends with
  | nil => simp
  | cons taken _ inductionHypothesis =>
      exact List.forall_mem_append.mpr ⟨(collapses_of_decompile taken).raw, inductionHypothesis⟩

theorem exists_decompile (descends : Descends next level collapsed below) :
    ∀ marker ∈ level, ∃ inner, decompile marker.content = .ok inner := by
  induction descends with
  | nil => simp
  | cons taken _ inductionHypothesis =>
      exact List.forall_mem_cons.mpr ⟨⟨_, taken⟩, inductionHypothesis⟩

/-- The markers that are found are those of the contents. -/
theorem mem_below_iff (descends : Descends next level collapsed below) {child : Marker} :
    child ∈ below ↔ ∃ marker ∈ level, ∃ inner, decompile marker.content = .ok inner ∧
      child ∈ inner.markers := by
  induction descends with
  | nil => simp
  | @cons _ marker inner level _ below taken _ inductionHypothesis =>
      rw [List.mem_append, inductionHypothesis, List.exists_mem_cons_iff]
      refine or_congr_left ⟨fun member => ⟨inner, taken, member⟩, ?_⟩
      rintro ⟨other, sameTaken, member⟩
      rw [taken] at sameTaken
      cases sameTaken
      exact member

/-- Each marker of the level is descended into. -/
theorem each (descends : Descends next level collapsed below) :
    Forall₂ Marker.Descended level collapsed := by
  induction descends with
  | nil => exact .nil
  | cons taken _ inductionHypothesis => exact .cons ⟨_, _, taken, rfl⟩ inductionHypothesis

theorem descended (descends : Descends next level collapsed below) :
    ∀ marker ∈ collapsed, ∃ found : Marker, found.Descended marker := by
  intro marker member
  have each := descends.each
  clear descends
  induction each with
  | nil => cases member
  | @cons found first _ _ here _ inductionHypothesis =>
      rcases List.mem_cons.mp member with equal | later
      · exact ⟨found, equal ▸ here⟩
      · exact inductionHypothesis later

/-- The markers of a level name those that are found, each once and in their order. -/
theorem flatMap_nested (descends : Descends next level collapsed below) :
    collapsed.flatMap Marker.nested = List.range' next below.length := by
  induction descends with
  | nil => rfl
  | cons _ _ inductionHypothesis =>
      rw [List.flatMap_cons, inductionHypothesis, Marker.descend, List.length_append,
        List.range'_append_1]

end Descends

/-! ## All passes -/

section Passes

variable (levels : Nat) (above : List Marker)

theorem collapseLevels_zero (level : List Marker) :
    collapseLevels 0 above level = .ok (above ++ level) := by
  cases level with
  | nil => rw [collapseLevels, List.append_nil]
  | cons marker others => rfl

theorem collapseLevels_nil : collapseLevels levels above [] = .ok above := by
  rw [collapseLevels]

variable {levels above}

theorem collapseLevels_succ {level collapsed below : List Marker}
    (passed : collapseLevel (above.length + level.length) level = .ok (collapsed, below)) :
    collapseLevels (levels + 1) above level = collapseLevels levels (above ++ collapsed) below := by
  cases level with
  | nil =>
      cases passed
      rw [List.append_nil, collapseLevels_nil, collapseLevels_nil]
  | cons marker others => simp only [collapseLevels, passed, bind, Except.bind]

theorem collapseLevels_succ_of_error {level : List Marker} {failure : Failure}
    (failed : collapseLevel (above.length + level.length) level = .error failure) :
    collapseLevels (levels + 1) above level = .error failure := by
  cases level with
  | nil => cases failed
  | cons marker others => simp only [collapseLevels, failed, bind, Except.bind]

end Passes

/-- Passes over a level and those below it.  The markers of all levels stand one behind
the other, those of the level from `place` on. -/
inductive Unnests : Nat -> Nat -> List Marker -> List Marker -> Prop
  | stopped {place : Nat} {level : List Marker} (raw : ∀ marker ∈ level, marker.Raw) :
      Unnests 0 place level level
  | pass {levels place : Nat} {level collapsed below rest : List Marker}
      (descends : Descends (place + level.length) level collapsed below)
      (behind : Unnests levels (place + level.length) below rest) :
      Unnests (levels + 1) place level (collapsed ++ rest)

theorem unnests_of_collapseLevels {levels : Nat} {above level markers : List Marker}
    (raw : ∀ marker ∈ level, marker.Raw)
    (finished : collapseLevels levels above level = .ok markers) :
    ∃ rest, markers = above ++ rest ∧ Unnests levels above.length level rest := by
  induction levels generalizing above level with
  | zero =>
      rw [collapseLevels_zero] at finished
      cases finished
      exact ⟨level, rfl, .stopped raw⟩
  | succ fewer inductionHypothesis =>
      cases passed : collapseLevel (above.length + level.length) level with
      | error failure =>
          rw [collapseLevels_succ_of_error passed] at finished
          cases finished
      | ok parts =>
          rcases parts with ⟨collapsed, below⟩
          have descends := descends_of_collapseLevel raw passed
          rw [collapseLevels_succ passed] at finished
          rcases inductionHypothesis descends.raw finished with ⟨rest, equal, behind⟩
          rw [List.length_append, descends.length] at behind
          rw [equal, List.append_assoc]
          exact ⟨collapsed ++ rest, rfl, .pass descends behind⟩

/-- The marker at one index names the one at another. -/
def Encloses (markers : List Marker) (outer inner : Nat) : Prop :=
  ∃ marker, markers[outer]? = some marker ∧ inner ∈ marker.nested

/-- One marker is found in the content of another. -/
def Marker.Holds (outer inner : Marker) : Prop :=
  ∃ decompiled, decompile outer.content = .ok decompiled ∧ inner ∈ decompiled.markers

namespace Unnests

variable {levels place : Nat} {level rest : List Marker}

theorem length_le (unnests : Unnests levels place level rest) : level.length ≤ rest.length := by
  cases unnests with
  | stopped => exact Nat.le_refl _
  | pass descends _ =>
      rw [List.length_append, descends.length]
      exact Nat.le_add_right _ _

theorem flatMap_nested (unnests : Unnests levels place level rest) :
    rest.flatMap Marker.nested =
      List.range' (place + level.length) (rest.length - level.length) := by
  induction unnests with
  | @stopped place level raw =>
      rw [Nat.sub_self, List.range'_zero]
      exact List.flatMap_eq_nil_iff.mpr raw
  | @pass levels place level collapsed below rest descends behind inductionHypothesis =>
      have shorter := behind.length_le
      rw [List.flatMap_append, descends.flatMap_nested, inductionHypothesis,
        List.range'_append_1, List.length_append, descends.length]
      congr 1
      omega

/-- The level above all others has been passed. -/
theorem roots (unnests : Unnests levels place level rest) (passed : 0 < levels) :
    Forall₂ Marker.Descended level (rest.take level.length) := by
  cases unnests with
  | stopped => cases passed
  | pass descends _ =>
      rw [List.take_left' descends.length]
      exact descends.each

theorem consecutive (unnests : Unnests levels place level rest) :
    ∀ marker ∈ rest, ∃ first count, marker.nested = List.range' first count := by
  induction unnests with
  | stopped raw => exact fun marker member => ⟨0, 0, raw marker member⟩
  | pass descends _ inductionHypothesis =>
      refine List.forall_mem_append.mpr ⟨fun marker member => ?_, inductionHypothesis⟩
      rcases descends.descended marker member with ⟨_, _, _, _, equal⟩
      exact ⟨_, _, congrArg Marker.nested equal⟩

/-- The children of a marker come behind it. -/
theorem lt_of_mem_nested (unnests : Unnests levels place level rest) {index : Nat}
    {marker : Marker} (here : rest[index]? = some marker) :
    ∀ inner ∈ marker.nested, place + index < inner := by
  induction unnests generalizing index with
  | stopped raw =>
      intro inner member
      rw [raw marker (List.mem_of_getElem? here)] at member
      cases member
  | @pass levels place level collapsed below rest descends _ inductionHypothesis =>
      intro inner member
      rcases Nat.lt_or_ge index collapsed.length with within | behind
      · rw [List.getElem?_append_left within] at here
        have among : inner ∈ collapsed.flatMap Marker.nested :=
          List.mem_flatMap.mpr ⟨marker, List.mem_of_getElem? here, member⟩
        rw [descends.flatMap_nested, List.mem_range'_1] at among
        rw [descends.length] at within
        omega
      · rw [List.getElem?_append_right behind] at here
        have later := inductionHypothesis here inner member
        rw [descends.length] at later behind
        omega

/-- The children of the markers of a level are those of the level below. -/
theorem children_of_pass {above collapsed below : List Marker} (here : above.length = place)
    (descends : Descends (place + level.length) level collapsed below) (rest : List Marker)
    {inner : Nat} :
    (∃ outer, (place ≤ outer ∧ outer < place + level.length) ∧
        Encloses (above ++ (collapsed ++ rest)) outer inner) ↔
      place + level.length ≤ inner ∧ inner < place + level.length + below.length := by
  rw [← List.mem_range'_1, ← descends.flatMap_nested, List.mem_flatMap]
  constructor
  · rintro ⟨outer, ⟨least, most⟩, marker, found, member⟩
    refine ⟨marker, ?_, member⟩
    rw [List.getElem?_append_right (here ▸ least), List.getElem?_append_left] at found
    · exact List.mem_of_getElem? found
    · rw [descends.length]
      omega
  · rintro ⟨marker, among, member⟩
    rcases List.mem_iff_getElem?.mp among with ⟨index, found⟩
    have inside := (List.getElem?_eq_some_iff.mp found).1
    rw [descends.length] at inside
    refine ⟨place + index, by omega, marker, ?_, member⟩
    rw [← here, List.getElem?_append_right (Nat.le_add_right _ _), Nat.add_sub_cancel_left,
      List.getElem?_append_left (by rwa [descends.length]), found]

/-- No begin comment is left in the contents of the levels that were passed. -/
theorem unbegun (unnests : Unnests levels place level rest) (above : List Marker)
    (here : above.length = place) {depth index : Nat}
    (deep : AtDepth (fun index => place ≤ index ∧ index < place + level.length)
      (Encloses (above ++ rest)) depth index) (passed : depth < levels) {marker : Marker}
    (found : (above ++ rest)[index]? = some marker) : ¬ beginMarker <:+: marker.content := by
  induction unnests generalizing above depth with
  | stopped => cases passed
  | @pass levels place level collapsed below rest descends _ inductionHypothesis =>
      cases depth with
      | zero =>
          rcases AtDepth.zero_iff.mp deep with ⟨least, most⟩
          rw [List.getElem?_append_right (here ▸ least), List.getElem?_append_left] at found
          · rcases descends.descended marker (List.mem_of_getElem? found) with ⟨_, descended⟩
            exact descended.unbegun
          · rw [descends.length]
            omega
      | succ depth =>
          have lower := (AtDepth.succ_iff.mp deep).mono fun _ =>
            (children_of_pass here descends rest).mp
          rw [← List.append_assoc] at lower found
          refine inductionHypothesis _ ?_ lower (Nat.lt_of_succ_lt_succ passed) found
          rw [List.length_append, descends.length, here]

/-- The markers of all levels lie in the contents of the first one. -/
theorem exists_depth (unnests : Unnests levels place level rest) (above : List Marker)
    (here : above.length = place) {index : Nat} (least : place ≤ index)
    (most : index < place + rest.length) :
    ∃ depth ≤ levels, AtDepth (fun index => place ≤ index ∧ index < place + level.length)
      (Encloses (above ++ rest)) depth index := by
  induction unnests generalizing above with
  | stopped => exact ⟨0, Nat.le_refl _, .top ⟨least, most⟩⟩
  | @pass levels place level collapsed below rest descends _ inductionHypothesis =>
      rcases Nat.lt_or_ge index (place + level.length) with within | behind
      · exact ⟨0, Nat.zero_le _, .top ⟨least, within⟩⟩
      · have length : (above ++ collapsed).length = place + level.length := by
          rw [List.length_append, descends.length, here]
        rw [List.length_append, descends.length, ← Nat.add_assoc] at most
        rcases inductionHypothesis _ length behind most with ⟨depth, bounded, deep⟩
        rw [List.append_assoc] at deep
        exact ⟨depth + 1, Nat.succ_le_succ bounded, AtDepth.succ_iff.mpr
          (deep.mono fun _ => (children_of_pass here descends rest).mpr)⟩

/-- The contents of all levels that were passed could be decompiled. -/
theorem exists_decompile (unnests : Unnests levels place level rest) {depth : Nat}
    {marker : Marker} (deep : AtDepth (· ∈ level) Marker.Holds depth marker)
    (passed : depth < levels) : ∃ inner, decompile marker.content = .ok inner := by
  induction unnests generalizing depth with
  | stopped => cases passed
  | pass descends _ inductionHypothesis =>
      cases depth with
      | zero => exact descends.exists_decompile marker (AtDepth.zero_iff.mp deep)
      | succ depth =>
          refine inductionHypothesis ?_ (Nat.lt_of_succ_lt_succ passed)
          exact (AtDepth.succ_iff.mp deep).mono fun _ => descends.mem_below_iff.mpr

end Unnests

/-- The passes fail only where they meet a content that cannot be decompiled. -/
theorem exists_error_of_collapseLevels {levels : Nat} {above level : List Marker}
    {failure : Failure} (raw : ∀ marker ∈ level, marker.Raw)
    (failed : collapseLevels levels above level = .error failure) :
    ∃ depth < levels, ∃ marker, AtDepth (· ∈ level) Marker.Holds depth marker ∧
      decompile marker.content = .error failure := by
  induction levels generalizing above level with
  | zero =>
      rw [collapseLevels_zero] at failed
      cases failed
  | succ fewer inductionHypothesis =>
      cases passed : collapseLevel (above.length + level.length) level with
      | error cause =>
          rw [collapseLevels_succ_of_error passed] at failed
          cases failed
          rcases exists_error_of_collapseLevel raw passed with ⟨marker, member, fails⟩
          exact ⟨0, Nat.zero_lt_succ _, marker, .top member, fails⟩
      | ok parts =>
          rcases parts with ⟨collapsed, below⟩
          have descends := descends_of_collapseLevel raw passed
          rw [collapseLevels_succ passed] at failed
          rcases inductionHypothesis descends.raw failed with ⟨depth, lower, marker, deep, fails⟩
          refine ⟨depth + 1, Nat.succ_lt_succ lower, marker, AtDepth.succ_iff.mpr ?_, fails⟩
          exact deep.mono fun _ => descends.mem_below_iff.mp

end PageComposer
