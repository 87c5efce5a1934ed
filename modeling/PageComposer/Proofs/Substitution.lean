import PageComposer.Region

namespace PageComposer

/-!
# Replacing spans all at once

`substitute` puts texts into the spans of placeholders in one pass from the
front: what stands between two spans is copied, and no span is ever moved.  It
is the plain account of what a run does from the back with spans that shift.

The spans are taken from a scan.  `Laid offset placeholders text` says that the
tags stand in the text one behind the other at the offsets that the
placeholders carry, when the text itself begins at byte `offset`.  Any list of
placeholders that stand in a text one by one is laid out in this way once each
of them ends before the next one starts (`laid_of_disjoint`).
-/

/-- The text with every span replaced; the text begins at byte `offset` of the
document, and the placeholders come in the order of their starts. -/
def substituteFrom (offset : Nat) : List (Placeholder × Text) -> Text -> Text
  | [], text => text
  | (placeholder, replacement) :: others, text =>
      let found := Text.splitAtByte (placeholder.start - offset) text
      let behind := Text.splitAtByte (placeholder.stop - placeholder.start) found.2
      found.1 ++ replacement ++ substituteFrom placeholder.stop others behind.2

/-- The document with every span replaced at once. -/
def substitute (replaced : List (Placeholder × Text)) (document : Text) : Text :=
  substituteFrom 0 replaced document

/-- The tags of the placeholders stand in the text in their order, at their
offsets. -/
inductive Laid : Nat -> List Placeholder -> Text -> Prop
  | nil {offset : Nat} {text : Text} : Laid offset [] text
  | cons {offset : Nat} {placeholder : Placeholder} {others : List Placeholder} {gap rest : Text}
      (starts : placeholder.start = offset + Text.byteSize gap)
      (stops : placeholder.stop = placeholder.start + Text.byteSize placeholder.tag)
      (behind : Laid placeholder.stop others rest) :
      Laid offset (placeholder :: others) (gap ++ placeholder.tag ++ rest)

/-- The tag of a placeholder stands in the text at the offsets it carries. -/
def Stands (offset : Nat) (placeholder : Placeholder) (text : Text) : Prop :=
  ∃ front back, text = front ++ placeholder.tag ++ back ∧
    placeholder.start = offset + Text.byteSize front ∧
    placeholder.stop = placeholder.start + Text.byteSize placeholder.tag

namespace Laid

variable {offset : Nat} {placeholders : List Placeholder} {text : Text}

theorem prepend {front : Text} (laid : Laid (offset + Text.byteSize front) placeholders text) :
    Laid offset placeholders (front ++ text) := by
  cases laid with
  | nil => exact nil
  | @cons _ placeholder others gap rest starts stops behind =>
      have joined : front ++ (gap ++ placeholder.tag ++ rest) =
          (front ++ gap) ++ placeholder.tag ++ rest := by simp only [List.append_assoc]
      rw [joined]
      refine cons ?_ stops behind
      rw [starts, Text.byteSize_append, Nat.add_assoc]

theorem filter (keep : Placeholder -> Bool) (laid : Laid offset placeholders text) :
    Laid offset (placeholders.filter keep) text := by
  induction laid with
  | nil => exact nil
  | @cons offset placeholder others gap rest starts stops behind inductionHypothesis =>
      by_cases kept : keep placeholder = true
      · rw [List.filter_cons_of_pos kept]
        exact cons starts stops inductionHypothesis
      · rw [List.filter_cons_of_neg kept]
        apply prepend
        rw [Text.byteSize_append, ← Nat.add_assoc, ← starts, ← stops]
        exact inductionHypothesis

theorem split {earlier later : List Placeholder} {placeholder : Placeholder}
    (laid : Laid offset (earlier ++ placeholder :: later) text) :
    ∃ front rest, text = front ++ placeholder.tag ++ rest ∧
      placeholder.start = offset + Text.byteSize front ∧
      placeholder.stop = placeholder.start + Text.byteSize placeholder.tag ∧
      Laid offset earlier front ∧ Laid placeholder.stop later rest := by
  induction earlier generalizing offset text with
  | nil =>
      cases laid with
      | @cons _ _ _ gap rest starts stops behind =>
          exact ⟨gap, rest, rfl, starts, stops, nil, behind⟩
  | cons first others inductionHypothesis =>
      cases laid with
      | @cons _ _ _ gap rest starts stops behind =>
          rcases inductionHypothesis behind with
            ⟨front, back, joined, start, stop, former, later⟩
          refine ⟨gap ++ first.tag ++ front, back, ?_, ?_, stop, cons starts stops former, later⟩
          · rw [joined]
            simp only [List.append_assoc]
          · rw [start, stops, starts]
            simp only [Text.byteSize_append]
            omega

theorem stands (laid : Laid offset placeholders text) :
    ∀ placeholder ∈ placeholders, Stands offset placeholder text := by
  intro placeholder member
  rcases List.append_of_mem member with ⟨earlier, later, equal⟩
  subst equal
  rcases laid.split with ⟨front, rest, joined, start, stop, _, _⟩
  exact ⟨front, rest, joined, start, stop⟩

theorem starts_behind (laid : Laid offset placeholders text) :
    ∀ placeholder ∈ placeholders, offset ≤ placeholder.start := by
  induction laid with
  | nil => simp
  | cons starts stops _ inductionHypothesis =>
      refine List.forall_mem_cons.mpr ⟨by omega, fun later member => ?_⟩
      have behind := inductionHypothesis later member
      omega

/-- Tags that are laid out come one behind the other. -/
theorem ordered (laid : Laid offset placeholders text) :
    placeholders.Pairwise fun former later => former.stop ≤ later.start := by
  induction laid with
  | nil => exact .nil
  | cons _ _ behind inductionHypothesis =>
      exact List.pairwise_cons.mpr ⟨behind.starts_behind, inductionHypothesis⟩

end Laid

theorem substituteFrom_cons {offset : Nat} {placeholder : Placeholder} {gap rest : Text}
    (starts : placeholder.start = offset + Text.byteSize gap)
    (stops : placeholder.stop = placeholder.start + Text.byteSize placeholder.tag)
    (replacement : Text) (others : List (Placeholder × Text)) :
    substituteFrom offset ((placeholder, replacement) :: others)
        (gap ++ placeholder.tag ++ rest) =
      gap ++ replacement ++ substituteFrom placeholder.stop others rest := by
  have first : placeholder.start - offset = Text.byteSize gap := by omega
  have second : placeholder.stop - placeholder.start = Text.byteSize placeholder.tag := by omega
  simp only [substituteFrom]
  rw [first, second, List.append_assoc gap, Text.splitAtByte_append, Text.splitAtByte_append]

/-- Text in front of all spans is copied. -/
theorem substituteFrom_prepend {offset : Nat} {replaced : List (Placeholder × Text)}
    {front text : Text}
    (laid : Laid (offset + Text.byteSize front) (replaced.map Prod.fst) text) :
    substituteFrom offset replaced (front ++ text) =
      front ++ substituteFrom (offset + Text.byteSize front) replaced text := by
  cases replaced with
  | nil => rfl
  | cons entry others =>
      rcases entry with ⟨placeholder, replacement⟩
      rw [List.map_cons] at laid
      cases laid with
      | @cons _ _ _ gap rest starts stops behind =>
          have joined : front ++ (gap ++ placeholder.tag ++ rest) =
              (front ++ gap) ++ placeholder.tag ++ rest := by simp only [List.append_assoc]
          have moved : placeholder.start = offset + Text.byteSize (front ++ gap) := by
            rw [starts, Text.byteSize_append, Nat.add_assoc]
          rw [joined, substituteFrom_cons moved stops, substituteFrom_cons starts stops]
          simp only [List.append_assoc]

/-- A span in the middle parts what is replaced in front of it from what is
replaced behind it. -/
theorem substituteFrom_append {offset : Nat} {earlier : List (Placeholder × Text)}
    {placeholder : Placeholder} {front rest : Text}
    (laid : Laid offset (earlier.map Prod.fst) front)
    (starts : placeholder.start = offset + Text.byteSize front)
    (stops : placeholder.stop = placeholder.start + Text.byteSize placeholder.tag)
    (replacement : Text) (later : List (Placeholder × Text)) :
    substituteFrom offset (earlier ++ (placeholder, replacement) :: later)
        (front ++ placeholder.tag ++ rest) =
      substituteFrom offset earlier front ++ replacement ++
        substituteFrom placeholder.stop later rest := by
  induction earlier generalizing offset front with
  | nil => exact substituteFrom_cons starts stops replacement later
  | cons entry others inductionHypothesis =>
      rcases entry with ⟨first, inserted⟩
      rw [List.map_cons] at laid
      cases laid with
      | @cons _ _ _ gap inside firstStarts firstStops behind =>
          have joined : gap ++ first.tag ++ inside ++ placeholder.tag ++ rest =
              gap ++ first.tag ++ (inside ++ placeholder.tag ++ rest) := by
            simp only [List.append_assoc]
          have moved : placeholder.start = first.stop + Text.byteSize inside := by
            rw [starts, firstStops, firstStarts]
            simp only [Text.byteSize_append]
            omega
          rw [List.cons_append, joined, substituteFrom_cons firstStarts firstStops,
            substituteFrom_cons firstStarts firstStops, inductionHypothesis behind moved]
          simp only [List.append_assoc]

/-- What is put in for a span stands in the result. -/
theorem infix_substituteFrom {offset : Nat} {replaced : List (Placeholder × Text)} {text : Text}
    (laid : Laid offset (replaced.map Prod.fst) text) {entry : Placeholder × Text}
    (member : entry ∈ replaced) : entry.2 <:+: substituteFrom offset replaced text := by
  rcases List.append_of_mem member with ⟨earlier, later, split⟩
  subst split
  rw [List.map_append, List.map_cons] at laid
  rcases laid.split with ⟨front, rest, joined, starts, stops, former, _⟩
  rw [joined, substituteFrom_append former starts stops]
  exact ⟨_, _, rfl⟩

/-! ## Placeholders that stand in a text one by one -/

namespace Text

theorem eq_nil_of_byteSize_eq_zero {text : Text} (empty : byteSize text = 0) : text = [] := by
  cases text with
  | nil => rfl
  | cons head rest =>
      have positive := head.utf8Size_pos
      rw [byteSize_cons] at empty
      omega

/-- Of two leading parts of a text, the one with fewer bytes leads the other. -/
theorem isPrefix_of_byteSize_le {left right text : Text} (first : left <+: text)
    (second : right <+: text) (smaller : byteSize left ≤ byteSize right) : left <+: right := by
  rcases List.prefix_or_prefix_of_prefix first second with leads | follows
  · exact leads
  · rcases follows with ⟨more, joined⟩
    have sizes := congrArg byteSize joined
    rw [byteSize_append] at sizes
    have nothing : more = [] := eq_nil_of_byteSize_eq_zero (by omega)
    rw [nothing, List.append_nil] at joined
    exact joined ▸ List.prefix_rfl

/-- A text is taken apart at a byte in one way. -/
theorem append_inj_of_byteSize {front front' back back' : Text}
    (joined : front ++ back = front' ++ back') (sizes : byteSize front = byteSize front') :
    front = front' ∧ back = back' := by
  have cut := congrArg (splitAtByte (byteSize front)) joined
  rw [splitAtByte_append, sizes, splitAtByte_append] at cut
  exact Prod.mk.inj cut

end Text

/-- A placeholder that starts behind a leading part of the text stands in the
rest of it. -/
theorem Stands.behind {offset : Nat} {placeholder : Placeholder} {front rest : Text}
    (stands : Stands offset placeholder (front ++ rest))
    (starts : offset + Text.byteSize front ≤ placeholder.start) :
    Stands (offset + Text.byteSize front) placeholder rest := by
  rcases stands with ⟨before, back, joined, starts', stops⟩
  have leads : front <+: before := by
    apply Text.isPrefix_of_byteSize_le (List.prefix_append front rest)
    · exact ⟨placeholder.tag ++ back, by rw [joined, List.append_assoc]⟩
    · omega
  rcases leads with ⟨gap, equal⟩
  subst equal
  refine ⟨gap, back, ?_, ?_, stops⟩
  · apply (List.append_right_inj front).mp
    rw [joined]
    simp only [List.append_assoc]
  · rw [starts', Text.byteSize_append, Nat.add_assoc]

theorem laid_of_disjoint {offset : Nat} {placeholders : List Placeholder} {text : Text}
    (standing : ∀ placeholder ∈ placeholders, Stands offset placeholder text)
    (ordered : placeholders.Pairwise fun former later => former.stop ≤ later.start) :
    Laid offset placeholders text := by
  induction placeholders generalizing offset text with
  | nil => exact .nil
  | cons placeholder others inductionHypothesis =>
      rcases standing placeholder List.mem_cons_self with ⟨gap, rest, joined, starts, stops⟩
      subst joined
      have order := List.pairwise_cons.mp ordered
      have reached : placeholder.stop = offset + Text.byteSize (gap ++ placeholder.tag) := by
        rw [stops, starts, Text.byteSize_append, Nat.add_assoc]
      refine .cons starts stops (inductionHypothesis ?_ order.2)
      intro later member
      rw [reached]
      apply (standing later (List.mem_cons_of_mem _ member)).behind
      rw [← reached]
      exact order.1 later member

end PageComposer
