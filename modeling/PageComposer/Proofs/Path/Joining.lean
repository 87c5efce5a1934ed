import PageComposer.Path.Normal

namespace PageComposer

/-!
# Parts of a joined path

The parts of a path are those of its start and those of the segments of its text
(`parts_eq`).  A slash parts the segments on either side of it, so a path that is
joined to a base has the parts of both (`parts_join`), and of the base nothing
but its parts matters (`parts_join_congr`).
-/

theorem joinWith_cons {separator : Char} {first : Text} {others : List Text}
    (nonempty : others ≠ []) :
    Text.joinWith [separator] (first :: others) =
      first ++ separator :: Text.joinWith [separator] others := by
  rw [Text.joinWith, List.intercalate_cons_of_ne_nil nonempty]
  simp [Text.joinWith]

theorem joinWith_append {separator : Char} {front back : List Text} (inside : front ≠ [])
    (more : back ≠ []) :
    Text.joinWith [separator] (front ++ back) =
      Text.joinWith [separator] front ++ separator :: Text.joinWith [separator] back := by
  induction front with
  | nil => exact absurd rfl inside
  | cons first others inductionHypothesis =>
      by_cases alone : others = []
      · rw [alone, List.singleton_append, joinWith_cons more]
        simp [Text.joinWith, List.intercalate]
      · rw [List.cons_append, joinWith_cons (by simp [more]), inductionHypothesis alone,
          joinWith_cons alone, List.append_assoc, List.cons_append]

theorem start_text_append_drop (path : Path) :
    path.start.text ++ path.text.drop path.start.text.length = path.text := by
  unfold Path.start
  split
  · rename_i equal
    rw [equal]
    rfl
  · rename_i equal
    rw [equal]
    rfl
  · rename_i equal
    rw [equal]
    rfl
  · rfl

namespace Path

/-- The parts that the segments of a text stand for. -/
def partsOf (text : Text) : List Part :=
  ((text.splitOn '/').filter fun segment => !isFiller segment).map Part.ofSegment

theorem partsOf_append_slash (before after : Text) :
    partsOf (before ++ '/' :: after) = partsOf before ++ partsOf after := by
  unfold partsOf
  rw [List.splitOn_append_cons_self, List.filter_append, List.map_append]

theorem partsOf_nil : partsOf [] = [] := by
  decide

theorem partsOf_here : partsOf ['.'] = [] := by
  decide

theorem partsOf_slash (text : Text) : partsOf ('/' :: text) = partsOf text := by
  have split := partsOf_append_slash [] text
  rwa [partsOf_nil, List.nil_append, List.nil_append] at split

/-- The start of a path is no segment. -/
theorem parts_eq (path : Path) : path.parts = path.start.parts ++ partsOf path.text := by
  unfold parts segments start
  congr 1
  split
  · rename_i rest equal
    rw [equal]
    exact (partsOf_slash rest).symm
  · rename_i equal
    rw [equal]
    exact partsOf_here.symm
  · rename_i rest equal
    rw [equal]
    have split := partsOf_append_slash ['.'] rest
    rw [partsOf_here, List.nil_append] at split
    exact (partsOf_slash rest).trans split.symm
  · rfl

theorem start_append_slash {text : Text} (nonempty : text ≠ []) (more : Text) :
    start ⟨text ++ '/' :: more⟩ = start ⟨text⟩ := by
  cases text with
  | nil => exact absurd rfl nonempty
  | cons first others =>
      by_cases slash : first = '/'
      · subst slash
        rfl
      · by_cases dot : first = '.'
        · subst dot
          cases others with
          | nil => rfl
          | cons second rest =>
              by_cases followed : second = '/'
              · subst followed
                rfl
              · simp [start, followed]
        · simp [start, slash, dot]

/-- What follows the first slash has no part in the start. -/
theorem start_of_slash (text more other : Text) :
    start ⟨text ++ '/' :: more⟩ = start ⟨text ++ '/' :: other⟩ := by
  by_cases empty : text = []
  · rw [empty]
    rfl
  · rw [start_append_slash empty, start_append_slash empty]

theorem isFiller_of_partsOf {segment : Text} (single : '/' ∉ segment)
    (without : partsOf segment = []) : segment = [] ∨ segment = ['.'] := by
  unfold partsOf at without
  rw [List.splitOn_eq_singleton single, List.map_eq_nil_iff, List.filter_eq_nil_iff] at without
  have filler := without segment List.mem_cons_self
  simpa [isFiller, Decidable.or_iff_not_imp_left] using filler

/-- Only the empty path has no parts. -/
theorem parts_eq_nil_iff {path : Path} : path.parts = [] ↔ path.text = [] := by
  constructor
  · intro without
    rw [parts_eq, List.append_eq_nil_iff] at without
    rcases without with ⟨noStart, noParts⟩
    by_cases slashed : '/' ∈ path.text
    · rcases List.eq_append_cons_of_mem slashed with ⟨segment, rest, equal, single⟩
      rw [equal, partsOf_append_slash, List.append_eq_nil_iff] at noParts
      unfold start at noStart
      rw [equal] at noStart
      rcases isFiller_of_partsOf single noParts.1 with empty | dot
      · rw [empty] at noStart
        cases noStart
      · rw [dot] at noStart
        cases noStart
    · rcases isFiller_of_partsOf slashed noParts with empty | dot
      · exact empty
      · unfold start at noStart
        rw [dot] at noStart
        cases noStart
  · intro empty
    rw [parts_eq, empty, partsOf_nil]
    unfold start
    rw [empty]
    rfl

variable {base path : Path}

/-- A path below a base has the parts of the base and its own. -/
theorem parts_join (nonempty : base.text ≠ []) (relative : path.isAbsolute = false) :
    (base.join path).parts = base.parts ++ partsOf path.text := by
  unfold join
  rw [relative]
  simp only [Bool.false_eq_true, if_false, nonempty, false_or]
  split
  · rename_i ends
    rcases List.getLast?_eq_some_iff.mp ends with ⟨before, equal⟩
    have joined : base.text ++ path.text = before ++ '/' :: path.text := by
      rw [equal, List.append_assoc]
      rfl
    have start : start ⟨before ++ '/' :: path.text⟩ = base.start := by
      rw [start_of_slash before path.text []]
      exact congrArg (fun text => Path.start ⟨text⟩) equal.symm
    rw [joined, parts_eq, start, partsOf_append_slash, parts_eq base, equal, partsOf_append_slash,
      partsOf_nil, List.append_nil, List.append_assoc]
  · rw [parts_eq, partsOf_append_slash, start_append_slash nonempty, parts_eq base,
      List.append_assoc]

theorem join_of_empty (empty : base.text = []) : base.join path = path := by
  unfold join
  rw [empty]
  split
  · rfl
  · rfl

theorem parts_join_congr {other : Path} (same : base.parts = other.parts) :
    (base.join path).parts = (other.join path).parts := by
  by_cases absolute : path.isAbsolute = true
  · unfold join
    rw [if_pos absolute, if_pos absolute]
  · rw [Bool.not_eq_true] at absolute
    by_cases empty : base.text = []
    · have otherEmpty : other.text = [] := by
        rw [← parts_eq_nil_iff, ← same, parts_eq_nil_iff, empty]
      rw [join_of_empty empty, join_of_empty otherEmpty]
    · have otherNonempty : other.text ≠ [] := by
        intro otherEmpty
        rw [← parts_eq_nil_iff, ← same, parts_eq_nil_iff] at otherEmpty
        exact empty otherEmpty
      rw [parts_join empty absolute, parts_join otherNonempty absolute, same]

end Path
end PageComposer
