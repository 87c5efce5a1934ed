import PageComposer.Decompile.Collapse
import PageComposer.Proofs.Outcome
import PageComposer.Proofs.Substitution
import PageComposer.Proofs.Text.Field

namespace PageComposer

/-!
# Opening collapsed regions again

Decompiling is a loop.  A round takes the first region out of the text and puts
its tag there (`collapseFirst?`), and the loop goes on with what that leaves.  A
definition may itself spell a begin comment, so that a tag which was put in
starts the next round; the number of begin comments therefore bounds nothing,
and it is the size of the text that each round makes smaller.

A round changes one stretch of the text, from the region to its tag at the same
offset, and the marker keeps all that the stretch held.  Putting the regions
back, the last one first, gives the text that was decompiled.
-/

namespace MarkerDefinition

/-- The definition as it stands in the comments of a region. -/
def text (definition : MarkerDefinition) : Text :=
  definition.kind.name ++ '-' :: definition.name ++ definition.args

theorem text_of_read {written : Text} {definition : MarkerDefinition}
    (accepted : read written = .ok definition) : definition.text = written := by
  unfold read at accepted
  split at accepted
  · cases accepted
  · rename_i kindName rest cut
    split at accepted
    · cases accepted
    · rename_i kind named
      cases accepted
      have spelled : kind.name = kindName := by simpa using List.find?_some named
      rw [text, List.append_assoc, List.cons_append, List.takeWhile_append_dropWhile, spelled]
      exact (Text.cutAtChar?_join cut).symm

end MarkerDefinition

namespace Marker

/-- What the comments of the region say. -/
def definition (marker : Marker) : Text :=
  MarkerDefinition.text ⟨marker.kind, marker.name, marker.args⟩

/-- The region with both of its comments. -/
def region (marker : Marker) : Text :=
  beginTag marker.definition ++ marker.content ++ endTag marker.definition

/-- Put the region back in place of its tag, which has to stand at the start
that the marker carries. -/
def reopen? (marker : Marker) (text : Text) : Option Text :=
  let found := Text.splitAtByte marker.start text
  if Text.byteSize found.1 = marker.start then
    (Text.dropStart? marker.tag found.2).map fun after => found.1 ++ marker.region ++ after
  else none

theorem reopen?_of_starts {marker : Marker} {before : Text}
    (starts : marker.start = Text.byteSize before) (after : Text) :
    marker.reopen? (before ++ marker.tag ++ after) = some (before ++ marker.region ++ after) := by
  rw [reopen?, starts, List.append_assoc, Text.splitAtByte_append, if_pos rfl,
    Text.dropStart?_append]
  rfl

end Marker

/-- Put all regions back, the last one first. -/
def Decompiled.reopened? (decompiled : Decompiled) : Option Text :=
  decompiled.markers.foldr (fun marker text? => text?.bind marker.reopen?)
    (some decompiled.content)

/-! ## Rounds -/

/-- The first region of a text and the text with the tag in its place, if there
is a region. -/
def collapseFirst? (text : Text) : Except Failure (Option (Marker × Text)) :=
  match Text.cut? beginMarker text with
  | none => .ok none
  | some (before, inside) =>
      match Text.cut? tagClose inside with
      | none => .error (.unmatchedMarker (Text.firstLine (beginMarker ++ inside)))
      | some (definition, rest) => do
          let read <- MarkerDefinition.read definition
          match matchingEnd? definition 0 rest with
          | none => .error (.unmatchedMarker (beginTag definition))
          | some (inner, after) =>
              let start := Text.byteSize before
              let region := beginTag definition ++ inner ++ endTag definition
              let marker : Marker := {
                name := read.name
                kind := read.kind
                args := read.args
                start := start
                stop := start + Text.byteSize region
                content := inner }
              return some (marker, before ++ read.tag ++ after)

/-- The loop, broken off when it is not done within so many rounds. -/
def collapseWithin? : Nat -> Text -> Option (Except Failure Decompiled)
  | 0, _ => none
  | rounds + 1, text =>
      match collapseFirst? text with
      | .error failure => some (.error failure)
      | .ok none => some (.ok ⟨text, []⟩)
      | .ok (some (marker, rest)) =>
          (collapseWithin? rounds rest).map fun result =>
            result.map fun others => ⟨others.content, marker :: others.markers⟩

/-- Decompiling is a round and then the rest of the loop. -/
theorem decompile_eq (text : Text) :
    decompile text =
      match collapseFirst? text with
      | .error failure => .error failure
      | .ok none => .ok ⟨text, []⟩
      | .ok (some (marker, rest)) =>
          (decompile rest).map fun others => ⟨others.content, marker :: others.markers⟩ := by
  rw [decompile, collapseFirst?]
  cases opened : Text.cut? beginMarker text with
  | none => rfl
  | some parts =>
      rcases parts with ⟨before, inside⟩
      dsimp only
      cases defined : Text.cut? tagClose inside with
      | none => rfl
      | some parts =>
          rcases parts with ⟨definition, rest⟩
          dsimp only
          cases accepted : MarkerDefinition.read definition with
          | error failure => rfl
          | ok read =>
              dsimp only [bind, Except.bind]
              cases closed : matchingEnd? definition 0 rest with
              | none => rfl
              | some parts =>
                  dsimp only [pure, Except.pure]
                  cases decompile (before ++ read.tag ++ parts.2) <;> rfl

theorem decompile_of_unbegun {text : Text} (unbegun : Text.cut? beginMarker text = none) :
    decompile text = .ok ⟨text, []⟩ := by
  rw [decompile_eq, collapseFirst?, unbegun]

/-- What one round does: in front of the region and behind it nothing changes. -/
theorem round_of_collapseFirst? {text rest : Text} {marker : Marker}
    (round : collapseFirst? text = .ok (some (marker, rest))) :
    ∃ before after,
      text = before ++ marker.region ++ after ∧ rest = before ++ marker.tag ++ after ∧
        (∃ inside, Text.cut? beginMarker text = some (before, inside)) ∧
        marker.start = Text.byteSize before ∧
        marker.stop = marker.start + Text.byteSize marker.region := by
  unfold collapseFirst? at round
  split at round
  · cases round
  · rename_i before inside opened
    split at round
    · cases round
    · rename_i definition behind defined
      rcases bind_eq_ok_iff.mp round with ⟨read, accepted, found⟩
      split at found
      · cases found
      · rename_i inner after closed
        cases found
        have spelled := MarkerDefinition.text_of_read accepted
        refine ⟨before, after, ?_, rfl, ⟨inside, opened⟩, rfl, ?_⟩
        · have joined := Text.cut?_join opened
          rw [Text.cut?_join defined, matchingEnd?_join closed] at joined
          simpa only [Marker.region, Marker.definition, spelled, beginTag, List.append_assoc]
            using joined
        · simp only [Marker.region, Marker.definition, spelled]

theorem unbegun_of_collapseFirst? {text : Text} (round : collapseFirst? text = .ok none) :
    Text.cut? beginMarker text = none := by
  unfold collapseFirst? at round
  split at round
  · assumption
  · split at round
    · cases round
    · rcases bind_eq_ok_iff.mp round with ⟨read, _, found⟩
      split at found <;> cases found

/-- The region is longer than its tag, so the text gets shorter. -/
theorem byteSize_lt_of_collapseFirst? {text rest : Text} {marker : Marker}
    (round : collapseFirst? text = .ok (some (marker, rest))) :
    Text.byteSize rest < Text.byteSize text := by
  rcases round_of_collapseFirst? round with ⟨before, after, joined, left, _⟩
  have sizes : Text.byteSize beginMarker = 11 ∧ Text.byteSize endMarker = 9 ∧
      Text.byteSize tagOpen = 5 ∧ Text.byteSize tagClose = 4 ∧ Char.utf8Size '-' = 1 ∧
      Char.utf8Size ':' = 1 := by decide
  rw [joined, left]
  simp only [Marker.region, Marker.definition, Marker.tag, MarkerDefinition.text,
    MarkerDefinition.tag, beginTag, endTag, Kind.opening, Text.byteSize_append, Text.byteSize_cons,
    Text.byteSize_nil]
  omega

theorem not_beginMarker_isPrefix_tag (marker : Marker) (after : Text) :
    ¬ beginMarker <+: marker.tag ++ after := by
  intro leads
  have behind : ['b'] <+: marker.kind.name ++ (':' :: marker.name ++ marker.args ++ tagClose ++
      after) := by
    apply (List.prefix_append_right_inj tagOpen).mp
    refine List.IsPrefix.trans (?_ : tagOpen ++ ['b'] <+: beginMarker) ?_
    · exact ⟨['e', 'g', 'i', 'n', '_'], rfl⟩
    · simpa [Marker.tag, MarkerDefinition.tag, Kind.opening] using leads
  cases kind : marker.kind <;> rw [kind] at behind <;>
    exact absurd (List.cons_prefix_cons.mp behind).1 (by decide)

/-- In front of the first begin comment none starts either when a tag is put in
its place: it would have to end before the bracket of the tag, and so would have
been there before. -/
theorem not_beginMarker_isPrefix_behind {text front inside : Text}
    (opened : Text.cut? beginMarker text = some (front, inside)) {before back : Text}
    (parts : before ++ back = front) (nonempty : back ≠ []) (rest : Text) :
    ¬ beginMarker <+: back ++ '<' :: rest := by
  intro leads
  rcases Text.isPrefix_of_isPrefix_append_self (by decide) nonempty leads with ⟨behind, word⟩
  have joined : text = before ++ beginMarker ++ (behind ++ beginMarker ++ inside) := by
    rw [Text.cut?_join opened, ← parts, ← word]
    simp [beginMarker, tagOpen]
  have earlier := Text.cut?_first opened joined
  have positive := List.length_pos_iff.mpr nonempty
  rw [← parts, List.length_append] at earlier
  omega

/-- The next region starts behind the place where a tag was put. -/
theorem start_lt_of_collapseFirst? {text rest before inside : Text} {marker : Marker}
    (round : collapseFirst? text = .ok (some (marker, rest)))
    (next : Text.cut? beginMarker rest = some (before, inside)) :
    marker.start < Text.byteSize before := by
  rcases round_of_collapseFirst? round with ⟨front, after, _, left, ⟨_, opened⟩, starts, _⟩
  have joined := Text.cut?_join next
  rw [left, List.append_assoc, List.append_assoc] at joined
  have leads : before <+: front ++ (marker.tag ++ after) := ⟨_, joined.symm⟩
  rcases List.prefix_or_prefix_of_prefix leads (List.prefix_append front _) with
    ⟨back, equal⟩ | ⟨more, equal⟩
  · apply absurd (⟨inside, _⟩ : beginMarker <+: back ++ (marker.tag ++ after))
    · cases back with
      | nil => exact not_beginMarker_isPrefix_tag marker after
      | cons head others =>
          exact not_beginMarker_isPrefix_behind opened equal (List.cons_ne_nil _ _)
            (marker.tag.tail ++ after)
    · rw [← equal, List.append_assoc, List.append_cancel_left_eq] at joined
      exact joined.symm
  · rw [starts, ← equal, Text.byteSize_append]
    have positive : 0 < Text.byteSize more := by
      apply Nat.pos_of_ne_zero
      intro empty
      rw [← equal, Text.eq_nil_of_byteSize_eq_zero empty, List.append_nil,
        List.append_cancel_left_eq] at joined
      exact not_beginMarker_isPrefix_tag marker after ⟨inside, joined.symm⟩
    omega

/-! ## The loop -/

/-- The loop ends within as many rounds as the text has bytes, and one more. -/
theorem collapseWithin?_eq_decompile {rounds : Nat} {text : Text}
    (enough : Text.byteSize text < rounds) :
    collapseWithin? rounds text = some (decompile text) := by
  induction rounds generalizing text with
  | zero => omega
  | succ fewer inductionHypothesis =>
      rw [collapseWithin?, decompile_eq]
      cases round : collapseFirst? text with
      | error failure => rfl
      | ok found =>
          cases found with
          | none => rfl
          | some collapsed =>
              have shorter := byteSize_lt_of_collapseFirst? round
              dsimp only
              rw [inductionHypothesis (by omega)]
              rfl

/-- The rounds that take a text apart. -/
inductive Collapses : Text -> Decompiled -> Prop
  | done {text : Text} (unbegun : Text.cut? beginMarker text = none) : Collapses text ⟨text, []⟩
  | round {text rest : Text} {marker : Marker} {others : Decompiled}
      (round : collapseFirst? text = .ok (some (marker, rest))) (behind : Collapses rest others) :
      Collapses text ⟨others.content, marker :: others.markers⟩

theorem collapses_of_collapseWithin? {rounds : Nat} {text : Text} {decompiled : Decompiled}
    (finished : collapseWithin? rounds text = some (.ok decompiled)) :
    Collapses text decompiled := by
  induction rounds generalizing text decompiled with
  | zero => cases finished
  | succ fewer inductionHypothesis =>
      rw [collapseWithin?] at finished
      cases round : collapseFirst? text with
      | error failure =>
          rw [round] at finished
          cases finished
      | ok found =>
          rw [round] at finished
          cases found with
          | none =>
              cases finished
              exact .done (unbegun_of_collapseFirst? round)
          | some collapsed =>
              rcases Option.map_eq_some_iff.mp finished with ⟨result, later, equal⟩
              rcases map_eq_ok_iff.mp equal with ⟨others, ended, joined⟩
              subst ended joined
              exact .round round (inductionHypothesis later)

theorem collapses_of_decompile {text : Text} {decompiled : Decompiled}
    (finished : decompile text = .ok decompiled) : Collapses text decompiled := by
  have enough := collapseWithin?_eq_decompile (Nat.lt_succ_self (Text.byteSize text))
  rw [finished] at enough
  exact collapses_of_collapseWithin? enough

namespace Collapses

variable {text : Text} {decompiled : Decompiled}

theorem unbegun (collapses : Collapses text decompiled) :
    ¬ beginMarker <:+: decompiled.content := by
  induction collapses with
  | done unbegun => exact Text.cut?_eq_none_iff.mp unbegun
  | round _ _ inductionHypothesis => exact inductionHypothesis

/-- Nothing is collapsed in front of the first begin comment. -/
theorem begins_before (collapses : Collapses text decompiled) :
    ∀ marker ∈ decompiled.markers, ∃ before inside,
      Text.cut? beginMarker text = some (before, inside) ∧
        Text.byteSize before ≤ marker.start := by
  induction collapses with
  | done => simp
  | @round text rest marker others round _ inductionHypothesis =>
      rcases round_of_collapseFirst? round with ⟨front, _, _, _, ⟨inside, opened⟩, starts, _⟩
      intro other member
      refine ⟨front, inside, opened, ?_⟩
      rcases List.mem_cons.mp member with equal | later
      · have here : Text.byteSize front = other.start := by rw [equal, starts]
        exact Nat.le_of_eq here
      · rcases inductionHypothesis other later with ⟨_, _, next, least⟩
        have further := start_lt_of_collapseFirst? round next
        omega

theorem ordered (collapses : Collapses text decompiled) :
    decompiled.markers.Pairwise fun former later => former.start < later.start := by
  induction collapses with
  | done => exact .nil
  | @round text rest marker others round behind inductionHypothesis =>
      refine .cons ?_ inductionHypothesis
      intro later member
      rcases behind.begins_before later member with ⟨_, _, next, least⟩
      exact Nat.lt_of_lt_of_le (start_lt_of_collapseFirst? round next) least

theorem spans (collapses : Collapses text decompiled) :
    ∀ marker ∈ decompiled.markers,
      marker.stop = marker.start + Text.byteSize marker.region := by
  induction collapses with
  | done => simp
  | round round _ inductionHypothesis =>
      rcases round_of_collapseFirst? round with ⟨_, _, _, _, _, _, stops⟩
      exact List.forall_mem_cons.mpr ⟨stops, inductionHypothesis⟩

theorem reopened (collapses : Collapses text decompiled) :
    decompiled.reopened? = some text := by
  induction collapses with
  | done => rfl
  | @round text rest marker others round _ inductionHypothesis =>
      rcases round_of_collapseFirst? round with ⟨before, after, joined, left, _, starts, _⟩
      unfold Decompiled.reopened? at inductionHypothesis ⊢
      rw [List.foldr_cons, inductionHypothesis, Option.bind_some, left, joined]
      exact Marker.reopen?_of_starts starts after

end Collapses

/-- On every text the loop ends, since each of its rounds makes the text shorter.
Where it succeeds no begin comment is left, the regions were taken out one behind
the other, each marker spans its region, and putting the regions back from the
last one to the first gives the text again. -/
theorem decompile_reopens (text : Text) :
    (∀ current rest marker, collapseFirst? current = .ok (some (marker, rest)) ->
      Text.byteSize rest < Text.byteSize current) ∧
    (∀ rounds, Text.byteSize text < rounds ->
      collapseWithin? rounds text = some (decompile text)) ∧
    ∀ decompiled, decompile text = .ok decompiled ->
      ¬ beginMarker <:+: decompiled.content ∧
      (decompiled.markers.Pairwise fun former later => former.start < later.start) ∧
      (∀ marker ∈ decompiled.markers,
        marker.stop - marker.start = Text.byteSize (beginTag marker.definition) +
          Text.byteSize marker.content + Text.byteSize (endTag marker.definition)) ∧
      decompiled.reopened? = some text := by
  refine ⟨fun _ _ _ => byteSize_lt_of_collapseFirst?,
    fun _ => collapseWithin?_eq_decompile, fun decompiled finished => ?_⟩
  have collapses := collapses_of_decompile finished
  refine ⟨collapses.unbegun, collapses.ordered, fun marker member => ?_, collapses.reopened⟩
  rw [collapses.spans marker member, Nat.add_sub_cancel_left, Marker.region, Text.byteSize_append,
    Text.byteSize_append]

/-- A region in whose definition a begin comment stands open. -/
def openDefinition : Text :=
  "<!-- begin_file-<!-- begin_file-x -->A<!-- end_file-<!-- begin_file-x -->".toList ++
    "<!-- end_file-x -->".toList

def openMarker : Marker where
  kind := .file
  name := "<!-- begin_file-x".toList
  args := []
  start := 0
  stop := 73
  content := "A".toList

/-- The tag that the first round puts in is the begin comment of the second one. -/
def openDecompiled : Decompiled where
  content := "<!-- file:<!-- file:x -->".toList
  markers := [openMarker,
    { kind := .file, name := "x".toList, args := [], start := 10, stop := 50, content := [] }]

theorem decompile_reopens_open_definition :
    collapseFirst? openDefinition =
        .ok (some (openMarker, "<!-- file:<!-- begin_file-x --><!-- end_file-x -->".toList)) ∧
      Text.byteSize "<!-- file:<!-- begin_file-x --><!-- end_file-x -->".toList <
        Text.byteSize openDefinition ∧
      collapseWithin? 93 openDefinition = some (decompile openDefinition) ∧
      decompile openDefinition = .ok openDecompiled ∧
      ¬ beginMarker <:+: openDecompiled.content ∧
      (openDecompiled.markers.Pairwise fun former later => former.start < later.start) ∧
      (∀ marker ∈ openDecompiled.markers,
        marker.stop - marker.start = Text.byteSize (beginTag marker.definition) +
          Text.byteSize marker.content + Text.byteSize (endTag marker.definition)) ∧
      openDecompiled.reopened? = some openDefinition := by
  have round : collapseFirst? openDefinition =
      .ok (some (openMarker, "<!-- file:<!-- begin_file-x --><!-- end_file-x -->".toList)) := by
    decide +kernel
  have finished : decompile openDefinition = .ok openDecompiled := by decide +kernel
  have enough : Text.byteSize openDefinition < 93 := by decide +kernel
  rcases decompile_reopens openDefinition with ⟨shorter, ends, undone⟩
  exact ⟨round, shorter _ _ _ round, ends 93 enough, finished, undone openDecompiled finished⟩

end PageComposer
