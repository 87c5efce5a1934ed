import PageComposer.Proofs.Decompile.Matching
import PageComposer.Proofs.Decompile.Reopening
import PageComposer.Proofs.Markup.Reading
import PageComposer.Proofs.Markup.Tidy

namespace PageComposer

/-!
# Balanced regions

In balanced pieces every begin comment is closed by an end comment with the same
definition, and regions lie inside of each other or side by side.  The search
for a matching end passes over balanced pieces as a whole, at any depth and
whatever definitions they repeat (`matchingEnd?_balanced`).  The end comment
behind the inside of a region is therefore the one that closes it.
-/

/-- Regions that are opened and closed in order. -/
inductive Balanced : List Piece -> Prop
  | nil : Balanced []
  | piece {piece : Piece} {pieces : List Piece} (unmarked : piece.isRegionComment = false)
      (behind : Balanced pieces) : Balanced (piece :: pieces)
  | region {definition : Text} (tidy : Tidy definition) {inner pieces : List Piece}
      (inside : Balanced inner) (behind : Balanced pieces) :
      Balanced (.led .begins definition tidy :: inner ++ .led .ends definition tidy :: pieces)

theorem balanced_of_unmarked {pieces : List Piece} (unmarked : Unmarked pieces) :
    Balanced pieces := by
  induction pieces with
  | nil => exact .nil
  | cons piece others inductionHypothesis =>
      rcases List.forall_mem_cons.mp unmarked with ⟨here, behind⟩
      exact .piece here (inductionHypothesis behind)

theorem Balanced.append {left right : List Piece} (first : Balanced left)
    (second : Balanced right) : Balanced (left ++ right) := by
  induction first with
  | nil => exact second
  | piece unmarked _ inductionHypothesis => exact .piece unmarked inductionHypothesis
  | region tidy inside _ _ behindHypothesis =>
      rw [List.append_assoc, List.cons_append, List.cons_append]
      exact .region tidy inside behindHypothesis

/-! ## The matching end -/

section Matching

variable {definition : Text}

theorem matchingEnd?_skip (tidy : Tidy definition) {piece : Piece}
    (noBegin : piece ≠ .led .begins definition tidy)
    (noEnd : piece ≠ .led .ends definition tidy) (depth : Nat) (more : Text) :
    matchingEnd? definition depth (piece.text ++ more) =
      (matchingEnd? definition depth more).map (Text.putBefore piece.text) :=
  matchingEnd?_pass (cut?_comment_of_ne tidy noBegin more)
    (cut?_comment_of_ne tidy noEnd more) depth

theorem begins_text (tidy : Tidy definition) :
    (Piece.led .begins definition tidy).text = beginTag definition := rfl

theorem ends_text (tidy : Tidy definition) :
    (Piece.led .ends definition tidy).text = endTag definition := rfl

/-- Balanced pieces are passed over. -/
theorem matchingEnd?_balanced (tidy : Tidy definition) {pieces : List Piece}
    (balanced : Balanced pieces) (depth : Nat) (tail : Text) :
    matchingEnd? definition depth (spell pieces ++ tail) =
      (matchingEnd? definition depth tail).map (Text.putBefore (spell pieces)) := by
  induction balanced generalizing depth tail with
  | nil =>
      rw [spell_nil, List.nil_append]
      cases matchingEnd? definition depth tail <;> rfl
  | @piece piece pieces unmarked behind inductionHypothesis =>
      have noBegin : piece ≠ .led .begins definition tidy := by
        intro equal
        rw [equal] at unmarked
        cases unmarked
      have noEnd : piece ≠ .led .ends definition tidy := by
        intro equal
        rw [equal] at unmarked
        cases unmarked
      rw [spell_cons, List.append_assoc, matchingEnd?_skip tidy noBegin noEnd, inductionHypothesis,
        Text.putBefore_append]
  | @region own ownTidy inner pieces _ _ insideHypothesis behindHypothesis =>
      rw [List.cons_append, spell_cons, spell_append, spell_cons]
      simp only [List.append_assoc]
      by_cases same : own = definition
      · subst same
        have ends : Text.Passes (endTag own) (beginTag own)
            (spell inner ++ (endTag own ++ (spell pieces ++ tail))) :=
          @cut?_comment_of_ne .ends own ownTidy (.led .begins own ownTidy) (by simp) _
        rw [begins_text, ends_text, matchingEnd?_begins ends, insideHypothesis,
          matchingEnd?_ends_of_inner, behindHypothesis, Text.putBefore_append,
          Text.putBefore_append, Text.putBefore_append]
        simp only [List.append_assoc]
      · have foreign (lead : Lead) (other : Lead) :
            Piece.led lead own ownTidy ≠ .led other definition tidy := by
          intro equal
          cases equal
          exact same rfl
        rw [matchingEnd?_skip tidy (foreign _ _) (foreign _ _), insideHypothesis,
          matchingEnd?_skip tidy (foreign _ _) (foreign _ _), behindHypothesis,
          Text.putBefore_append, Text.putBefore_append, Text.putBefore_append]
        simp only [List.append_assoc]

end Matching

/-! ## Collapsing regions -/

/-- Pieces whose outermost regions stand for tags, and the text with those tags
in their place.  Outside of regions there is no tag of the kinds. -/
inductive Regions (kinds : List Kind) : List Piece -> Text -> Prop
  | nil : Regions kinds [] []
  | keep {piece : Piece} {pieces : List Piece} {text : Text}
      (other : piece.tagAmong? kinds = none) (unmarked : piece.isRegionComment = false)
      (behind : Regions kinds pieces text) : Regions kinds (piece :: pieces) (piece.text ++ text)
  | region {kind : Kind} {rest : Text} (tidy : Tidy (kind.name ++ '-' :: rest))
      {inner pieces : List Piece} {text : Text} (inside : Balanced inner)
      (behind : Regions kinds pieces text) :
      Regions kinds (.led .begins _ tidy :: inner ++ .led .ends _ tidy :: pieces)
        (kind.opening ++ rest ++ tagClose ++ text)

/-- A definition says which tag its region stands for. -/
theorem exists_read_definition (kind : Kind) (rest : Text) :
    ∃ definition, MarkerDefinition.read (kind.name ++ '-' :: rest) = .ok definition ∧
      definition.tag = kind.opening ++ rest ++ tagClose := by
  have names : ∀ kind ∈ Kind.all, '-' ∉ kind.name ∧ Kind.ofName? kind.name = some kind := by decide
  rcases names kind kind.mem_all with ⟨fresh, named⟩
  unfold MarkerDefinition.read
  rw [Text.cutAtChar?_append_cons fresh]
  dsimp only
  rw [named]
  refine ⟨_, rfl, ?_⟩
  rw [MarkerDefinition.tag, List.append_assoc kind.opening, List.takeWhile_append_dropWhile]

/-- One region is collapsed, and then the rest of the text. -/
theorem decompile_of_region {text before inside definition rest inner after : Text}
    {read : MarkerDefinition} {others : Decompiled}
    (opened : Text.cut? beginMarker text = some (before, inside))
    (defined : Text.cut? tagClose inside = some (definition, rest))
    (accepted : MarkerDefinition.read definition = .ok read)
    (closed : matchingEnd? definition 0 rest = some (inner, after))
    (later : decompile (before ++ read.tag ++ after) = .ok others) :
    ∃ markers, decompile text = .ok ⟨others.content, markers⟩ := by
  rw [decompile]
  split
  · rename_i nothing
    rw [opened] at nothing
    cases nothing
  · rename_i found
    rw [opened] at found
    cases found
    split
    · rename_i nothing
      rw [defined] at nothing
      cases nothing
    · rename_i found
      rw [defined] at found
      cases found
      split
      · rename_i refused
        rw [accepted] at refused
        cases refused
      · rename_i found
        rw [accepted] at found
        cases found
        split
        · rename_i nothing
          rw [closed] at nothing
          cases nothing
        · rename_i found
          rw [closed] at found
          cases found
          rw [later]
          exact ⟨_, rfl⟩

/-- Decompiling puts the tags in place of the outermost regions.  What is
collapsed already joins the pieces in front. -/
theorem decompile_regions {kinds : List Kind} {front pieces : List Piece} {text : Text}
    (unmarked : Unmarked front) (regions : Regions kinds pieces text) :
    ∃ markers, decompile (spell front ++ spell pieces) = .ok ⟨spell front ++ text, markers⟩ := by
  have unbegun {front : List Piece} (unmarked : Unmarked front) :
      ∀ rest tidy, Piece.led .begins rest tidy ∉ front := by
    intro rest tidy member
    cases unmarked _ member
  induction regions generalizing front with
  | nil =>
      rw [spell_nil, List.append_nil]
      exact ⟨[], decompile_of_unbegun
        (@cut?_opening_spell_eq_none .begins front (unbegun unmarked))⟩
  | @keep piece pieces text _ own _ inductionHypothesis =>
      have extended : Unmarked (front ++ [piece]) :=
        unmarked_append.mpr ⟨unmarked, by simpa [Unmarked] using own⟩
      have result := inductionHypothesis extended
      simpa using result
  | @region kind rest tidy inner pieces text inside _ inductionHypothesis =>
      have inner' : Tidy rest := tidy.of_suffix ⟨kind.name ++ ['-'], by simp⟩
      rcases exists_read_definition kind rest with ⟨definition, accepted, tag⟩
      have extended : Unmarked (front ++ [.led (.tag kind) rest inner']) :=
        unmarked_append.mpr ⟨unmarked, by simp [Unmarked, Piece.isRegionComment]⟩
      rcases inductionHypothesis extended with ⟨markers, later⟩
      have opened : Text.cut? beginMarker (spell front ++
          spell (.led .begins _ tidy :: inner ++ .led .ends _ tidy :: pieces)) =
          some (spell front, kind.name ++ '-' :: rest ++ tagClose ++
            (spell inner ++ ((Piece.led .ends _ tidy).text ++ spell pieces))) := by
        have passed := @cut?_opening_spell_append .begins front (unbegun unmarked)
          ((Piece.led .begins _ tidy).text ++
            (spell inner ++ ((Piece.led .ends _ tidy).text ++ spell pieces)))
        rw [cut?_opening_led, Option.map_some, Text.putBefore, List.append_nil] at passed
        rw [List.cons_append, spell_cons, spell_append, spell_cons]
        exact passed
      have closed : matchingEnd? (kind.name ++ '-' :: rest) 0
          (spell inner ++ ((Piece.led .ends _ tidy).text ++ spell pieces)) =
          some (spell inner, spell pieces) := by
        rw [matchingEnd?_balanced tidy inside, ends_text, matchingEnd?_ends, Option.map_some,
          Text.putBefore, List.append_nil]
      have joined : spell (front ++ [.led (.tag kind) rest inner']) ++ spell pieces =
          spell front ++ definition.tag ++ spell pieces := by
        rw [spell_append, tag]
        simp [Piece.text, Lead.opening]
      rw [joined] at later
      rcases decompile_of_region opened (Text.cut?_tagClose_append tidy.unclosed _) accepted closed
        later with ⟨all, done⟩
      refine ⟨all, ?_⟩
      rw [done]
      simp [Piece.text, Lead.opening]

end PageComposer
