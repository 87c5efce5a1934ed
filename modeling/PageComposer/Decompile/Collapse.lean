import PageComposer.Decompile.Marker

namespace PageComposer

/-!
# Collapsing marked regions

The first begin comment of a text and its matching end comment delimit a
region, which is replaced by its tag.  This is repeated until no begin comment
is left.  Every replacement makes the text shorter (`collapsed_length`), so
the repetition ends on every text, also where a tag spells a begin comment
itself.
-/

/-- A comment of a region in a text. -/
structure RegionComment where
  /-- Whether it is a begin comment. -/
  opens : Bool
  before : Text
  after : Text

/-- The comment with this definition that comes next.  There is none when no
end comment follows, for then nothing can be closed. -/
def nextComment? (definition text : Text) : Option RegionComment :=
  match Text.cut? (endTag definition) text with
  | none => none
  | some (beforeEnd, afterEnd) =>
      match Text.cut? (beginTag definition) text with
      | some (beforeBegin, afterBegin) =>
          if beforeBegin.length < beforeEnd.length then some ⟨true, beforeBegin, afterBegin⟩
          else some ⟨false, beforeEnd, afterEnd⟩
      | none => some ⟨false, beforeEnd, afterEnd⟩

/-- The comment that a result of `nextComment?` stands for. -/
def RegionComment.tag (comment : RegionComment) (definition : Text) : Text :=
  if comment.opens then beginTag definition else endTag definition

/-- Put a comment and the text before it back in front of a result that was
found behind it. -/
def RegionComment.reattach (comment : RegionComment) (definition : Text)
    (rest : Text × Text) : Text × Text :=
  (comment.before ++ comment.tag definition ++ rest.1, rest.2)

theorem RegionComment.tag_length_pos (comment : RegionComment) (definition : Text) :
    0 < (comment.tag definition).length := by
  unfold RegionComment.tag
  split <;> simp [beginTag, endTag, beginMarker, endMarker, tagOpen]

theorem nextComment?_join {definition text : Text} {comment : RegionComment}
    (next : nextComment? definition text = some comment) :
    text = comment.before ++ comment.tag definition ++ comment.after := by
  unfold nextComment? at next
  split at next
  · cases next
  · rename_i beforeEnd afterEnd ended
    split at next
    · rename_i beforeBegin afterBegin begun
      split at next <;> cases next
      · exact Text.cut?_join begun
      · exact Text.cut?_join ended
    · cases next
      exact Text.cut?_join ended

theorem nextComment?_length {definition text : Text} {comment : RegionComment}
    (next : nextComment? definition text = some comment) :
    comment.after.length < text.length := by
  have lengths := congrArg List.length (nextComment?_join next)
  have tagged := comment.tag_length_pos definition
  simp only [List.length_append] at lengths
  omega

/-- The texts before and after the end comment that closes a region, when
`depth` inner regions with the same definition are still open. -/
def matchingEnd? (definition : Text) (depth : Nat) (text : Text) : Option (Text × Text) :=
  match _next : nextComment? definition text with
  | none => none
  | some comment =>
      if comment.opens then
        (matchingEnd? definition (depth + 1) comment.after).map (comment.reattach definition)
      else
        match depth with
        | 0 => some (comment.before, comment.after)
        | outer + 1 =>
            (matchingEnd? definition outer comment.after).map (comment.reattach definition)
termination_by text.length
decreasing_by
  all_goals exact nextComment?_length _next

/-- The end comment lies where `matchingEnd?` says. -/
theorem matchingEnd?_join {definition text inner after : Text} {depth : Nat}
    (closed : matchingEnd? definition depth text = some (inner, after)) :
    text = inner ++ endTag definition ++ after := by
  fun_induction matchingEnd? definition depth text generalizing inner after with
  | case1 => cases closed
  | case2 depth text comment next opens inductionHypothesis =>
      obtain ⟨rest, found, equal⟩ := Option.map_eq_some_iff.mp closed
      cases equal
      rw [nextComment?_join next, inductionHypothesis found]
      simp
  | case3 text comment next closes =>
      cases closed
      rw [nextComment?_join next]
      simp [RegionComment.tag, closes]
  | case4 text comment next closes outer inductionHypothesis =>
      obtain ⟨rest, found, equal⟩ := Option.map_eq_some_iff.mp closed
      cases equal
      rw [nextComment?_join next, inductionHypothesis found]
      simp

/-- A tag is shorter than the region it stands for. -/
theorem collapsed_length {definition : Text} {read : MarkerDefinition}
    (accepted : MarkerDefinition.read definition = .ok read)
    {text before inside rest inner after : Text}
    (opened : Text.cut? beginMarker text = some (before, inside))
    (defined : Text.cut? tagClose inside = some (definition, rest))
    (closed : matchingEnd? definition 0 rest = some (inner, after)) :
    (before ++ read.tag ++ after).length < text.length := by
  have opening := Text.cut?_length opened
  have defining := Text.cut?_length defined
  have closing := congrArg List.length (matchingEnd?_join closed)
  have spelled := MarkerDefinition.length_of_read accepted
  simp only [List.length_append, endTag] at closing
  simp only [MarkerDefinition.tag, Kind.opening, List.length_append, List.length_singleton]
  have sizes : beginMarker.length = 11 ∧ endMarker.length = 9 ∧ tagOpen.length = 5 ∧
      tagClose.length = 4 := by decide
  omega

/-- A text without marked regions, and the regions that were taken out of it. -/
structure Decompiled where
  content : Text
  markers : List Marker
deriving DecidableEq, Inhabited

/-- Collapse every marked region, the first one first. -/
def decompile (text : Text) : Except Failure Decompiled :=
  match _opened : Text.cut? beginMarker text with
  | none => .ok ⟨text, []⟩
  | some (before, inside) =>
      match _defined : Text.cut? tagClose inside with
      | none => .error (.unmatchedMarker (Text.firstLine (beginMarker ++ inside)))
      | some (definition, rest) =>
          match _accepted : MarkerDefinition.read definition with
          | .error failure => .error failure
          | .ok read =>
              match _closed : matchingEnd? definition 0 rest with
              | none => .error (.unmatchedMarker (beginTag definition))
              | some (inner, after) => do
                  let start := Text.byteSize before
                  let region := beginTag definition ++ inner ++ endTag definition
                  let marker : Marker := {
                    name := read.name
                    kind := read.kind
                    args := read.args
                    start := start
                    stop := start + Text.byteSize region
                    content := inner }
                  let others <- decompile (before ++ read.tag ++ after)
                  return ⟨others.content, marker :: others.markers⟩
termination_by text.length
decreasing_by
  exact collapsed_length _accepted _opened _defined _closed

end PageComposer
