import PageComposer.Addressing
import PageComposer.Proofs.Markup.Tidy
import PageComposer.Proofs.Path.Canonical

namespace PageComposer

/-!
# Paths of markup files in tags

A relative name in a tag is made absolute by way of the path of the file that it
means.  The path is taken apart at its slashes and some of the segments are
dropped, so a `<` at the end of a segment may lose the slash that shows it to be
an end tag.  This cannot happen at the end of the path: the last segment is a
file name that ends with the extension of markup, and it is never dropped.
`IsMarkupPath` says this of a text, and `IsMarkupSegments` of its segments.
-/

/-- A segment that may stand in front of a slash inside a comment. -/
structure TidySegment (segment : Text) : Prop where
  plain : isPlain (segment ++ ['/']) = true
  unclosed : ¬ tagClose <:+: segment

/-- A text that may stand inside a comment and names a markup file. -/
structure IsMarkupPath (text : Text) : Prop where
  tidy : Tidy text
  suffixed : markupSuffix <:+ text

/-- The segments of such a text, or the last ones of them. -/
structure IsMarkupSegments (segments : List Text) : Prop where
  each : ∀ segment ∈ segments, TidySegment segment
  last : ∀ segment, segments.getLast? = some segment ->
    markupSuffix <:+ segment ∧ isPlain segment = true

theorem not_isFiller_of_suffixed {segment : Text} (suffixed : markupSuffix <:+ segment) :
    Path.isFiller segment = false ∧ segment ≠ ['.', '.'] := by
  have long : 5 ≤ segment.length := suffixed.length_le
  refine ⟨?_, ?_⟩
  · apply Bool.eq_false_iff.mpr
    intro filler
    simp only [Path.isFiller, Bool.or_eq_true, beq_iff_eq] at filler
    rcases filler with empty | dot
    · rw [empty] at long
      exact absurd long (by decide)
    · rw [dot] at long
      exact absurd long (by decide)
  · intro dots
    rw [dots] at long
    exact absurd long (by decide)

theorem opensElement_of_slash {text more : Text}
    (opens : opensElement (text ++ '/' :: more) = true) :
    opensElement (text ++ ['/']) = true := by
  cases text with
  | nil => rfl
  | cons head rest =>
      by_cases slash : head = '/'
      · subst slash
        rfl
      · by_cases bang : head = '!'
        · subst bang
          cases rest with
          | nil => exact absurd opens (by simp [opensElement, isLetter])
          | cons next others => exact opens
        · rw [List.cons_append, opensElement_cons _ slash bang] at opens ⊢
          exact opens

theorem isPlain_of_slash {text more : Text} (plain : isPlain (text ++ '/' :: more) = true) :
    isPlain (text ++ ['/']) = true := by
  induction text with
  | nil => rfl
  | cons head rest inductionHypothesis =>
      have parts := isPlain_cons.mp plain
      apply isPlain_cons.mpr
      exact ⟨fun bracket => opensElement_of_slash (parts.1 bracket), inductionHypothesis parts.2⟩

theorem Tidy.segment {text : Text} (tidy : Tidy text) : TidySegment text :=
  ⟨isPlain_append tidy.plain (by decide), tidy.unclosed⟩

theorem tidySegment_of_mem_splitOn {text segment : Text} (tidy : Tidy text)
    (member : segment ∈ text.splitOn '/') : TidySegment segment := by
  have field := Text.field_of_mem_splitOn text member
  refine ⟨?_, fun closed => tidy.unclosed (closed.trans field.isInfix)⟩
  rcases field with ⟨before, after, joined, ends⟩
  have back : isPlain (segment ++ after) = true := by
    apply isPlain_of_suffix _ tidy.plain
    exact ⟨before, by rw [← List.append_assoc, ← joined]⟩
  rcases ends with empty | ⟨rest, equal⟩
  · rw [empty, List.append_nil] at back
    exact isPlain_append back (by decide)
  · rw [equal] at back
    exact isPlain_of_slash back

/-! ## Joining segments -/

theorem IsMarkupSegments.of_suffix {segments more : List Text} (suffix : segments <:+ more)
    (markup : IsMarkupSegments more) : IsMarkupSegments segments := by
  refine ⟨fun segment member => markup.each segment (suffix.subset member), ?_⟩
  intro segment last
  apply markup.last
  rcases suffix with ⟨front, joined⟩
  rw [← joined, List.getLast?_append, last]
  rfl

theorem IsMarkupSegments.joinWith {segments : List Text} (markup : IsMarkupSegments segments)
    (nonempty : segments ≠ []) : IsMarkupPath (Text.joinWith ['/'] segments) := by
  induction segments with
  | nil => exact absurd rfl nonempty
  | cons first others inductionHypothesis =>
      cases others with
      | nil =>
          have last := markup.last first rfl
          have single : Text.joinWith ['/'] [first] = first := by
            simp [Text.joinWith, List.intercalate]
          rw [single]
          exact ⟨⟨last.2, (markup.each first List.mem_cons_self).unclosed⟩, last.1⟩
      | cons second rest =>
          have behind := inductionHypothesis (markup.of_suffix (List.suffix_cons _ _)) (by simp)
          have segment := markup.each first List.mem_cons_self
          rw [joinWith_cons (by simp)]
          refine ⟨⟨?_, ?_⟩, ?_⟩
          · have joined : first ++ '/' :: Text.joinWith ['/'] (second :: rest) =
                (first ++ ['/']) ++ Text.joinWith ['/'] (second :: rest) := by simp
            rw [joined]
            exact isPlain_append segment.plain behind.tidy.plain
          · intro closed
            rcases Text.isInfix_of_isInfix_append_cons (by decide) closed with inside | later
            · exact segment.unclosed inside
            · exact behind.tidy.unclosed later
          · exact behind.suffixed.trans ⟨first ++ ['/'], by simp⟩

/-- The last field of a text is all of it, or stands behind a separator. -/
theorem last_field {separator : Char} {text last : Text}
    (ends : (text.splitOn separator).getLast? = some last) :
    text = last ∨ ∃ front, text = front ++ separator :: last := by
  have joined := @List.intercalate_splitOn _ text _ _ separator
  rcases List.getLast?_eq_some_iff.mp ends with ⟨front, equal⟩
  rw [equal] at joined
  clear equal ends
  induction front generalizing text with
  | nil => exact Or.inl (by rw [← joined]; simp [List.intercalate])
  | cons first others inductionHypothesis =>
      rw [List.cons_append, List.intercalate_cons_of_ne_nil (by simp)] at joined
      rcases inductionHypothesis rfl with whole | ⟨front, behind⟩
      · exact Or.inr ⟨first, by rw [← joined, whole]; simp⟩
      · refine Or.inr ⟨first ++ separator :: front, ?_⟩
        rw [← joined, behind]
        simp

theorem IsMarkupPath.splitOn {text : Text} (markup : IsMarkupPath text) :
    IsMarkupSegments (text.splitOn '/') := by
  refine ⟨fun segment member => tidySegment_of_mem_splitOn markup.tidy member, ?_⟩
  intro last ends
  rcases last_field ends with whole | ⟨front, joined⟩
  · rw [← whole]
    exact ⟨markup.suffixed, markup.tidy.plain⟩
  · have trailing : last <:+ text := by
      rw [joined]
      exact ⟨front ++ ['/'], by simp⟩
    refine ⟨?_, isPlain_of_suffix trailing markup.tidy.plain⟩
    rcases List.suffix_or_suffix_of_suffix markup.suffixed trailing with inside | beyond
    · exact inside
    · have longer : '/' :: last <:+ text := ⟨front, joined.symm⟩
      rcases List.suffix_or_suffix_of_suffix markup.suffixed longer with within | slashed
      · rcases List.suffix_cons_iff.mp within with equal | shorter
        · exact absurd (List.cons.inj equal).1 (by decide)
        · exact shorter
      · have member : '/' ∈ markupSuffix := slashed.subset List.mem_cons_self
        exact absurd member (by decide)

/-! ## Parts and the normal form -/

/-- The text behind the start of a path to a markup file. -/
theorem IsMarkupPath.behind_start {path : Path} (markup : IsMarkupPath path.text) :
    IsMarkupPath (path.text.drop path.start.text.length) := by
  have trailing : path.text.drop path.start.text.length <:+ path.text := List.drop_suffix _ _
  refine ⟨markup.tidy.of_suffix trailing, ?_⟩
  rcases List.suffix_or_suffix_of_suffix markup.suffixed trailing with inside | beyond
  · exact inside
  · -- Otherwise the start would hold a part of the extension.
    rcases beyond with ⟨front, joined⟩
    have whole := start_text_append_drop path
    have starts : path.start.text = [] ∨ path.start.text = ['/'] ∨
        path.start.text = ['.'] ∧ path.text.drop 1 ≠ markupSuffix.drop 1 := by
      unfold Path.start
      split
      · exact Or.inr (Or.inl rfl)
      · rename_i equal
        exact Or.inr (Or.inr ⟨rfl, by rw [equal]; decide⟩)
      · rename_i rest equal
        refine Or.inr (Or.inr ⟨rfl, ?_⟩)
        rw [equal]
        intro impossible
        exact absurd (List.cons.inj impossible).1 (by decide)
      · exact Or.inl rfl
    rcases starts with none | root | ⟨here, different⟩
    · rw [none] at whole ⊢
      rw [List.nil_append] at whole
      rw [whole]
      exact markup.suffixed
    · rw [root] at whole ⊢
      have suffixed := markup.suffixed
      rw [← whole] at suffixed
      rcases List.suffix_cons_iff.mp suffixed with equal | shorter
      · exact absurd (List.cons.inj equal).1 (by decide)
      · exact shorter
    · rw [here] at whole ⊢
      have suffixed := markup.suffixed
      rw [← whole] at suffixed
      rcases List.suffix_cons_iff.mp suffixed with equal | shorter
      · exact absurd (List.cons.inj equal).2.symm different
      · exact shorter

/-- Parts that spell a path to a markup file. -/
structure IsMarkupParts (parts : List Part) : Prop where
  each : ∀ part ∈ parts, TidySegment part.text
  last : ∃ front segment, parts = front ++ [.name segment] ∧ markupSuffix <:+ segment ∧
    isPlain segment = true

theorem tidySegment_of_not_name {part : Part} (other : ∀ segment, part ≠ .name segment) :
    TidySegment part.text := by
  cases part with
  | root => exact (Tidy.of_without (by decide) (by decide)).segment
  | here => exact (Tidy.of_without (by decide) (by decide)).segment
  | up => exact (Tidy.of_without (by decide) (by decide)).segment
  | name segment => exact absurd rfl (other segment)

theorem IsMarkupPath.parts {path : Path} (markup : IsMarkupPath path.text) :
    IsMarkupParts path.parts := by
  have segments : IsMarkupSegments path.segments := markup.behind_start.splitOn
  have someLast : path.segments ≠ [] := List.splitOn_ne_nil _ _
  refine ⟨?_, ?_⟩
  · intro part member
    rcases List.mem_append.mp member with starts | named
    · apply tidySegment_of_not_name
      intro segment equal
      rw [equal] at starts
      unfold Path.Start.parts at starts
      split at starts <;> simp at starts
    · rcases List.mem_map.mp named with ⟨segment, kept, equal⟩
      have tidy := segments.each segment (List.mem_filter.mp kept).1
      rw [← equal]
      unfold Part.ofSegment
      split
      · exact tidySegment_of_not_name (by simp)
      · exact tidy
  · have split := List.dropLast_concat_getLast someLast
    have ends := segments.last _ (List.getLast?_eq_some_getLast someLast)
    generalize path.segments.getLast someLast = segment at split ends
    generalize path.segments.dropLast = front at split
    have kept := not_isFiller_of_suffixed ends.1
    refine ⟨path.start.parts ++ (front.filter fun segment =>
      !Path.isFiller segment).map Part.ofSegment, segment, ?_, ends⟩
    rw [Path.parts, ← split, List.filter_append, List.filter_cons_of_pos (by simp [kept.1]),
      List.filter_nil, List.map_append, List.append_assoc]
    simp [Part.ofSegment, kept.2]

/-- A file name at the end is never taken back. -/
theorem IsMarkupParts.normalParts {parts : List Part} (markup : IsMarkupParts parts) :
    IsMarkupParts (Path.normalParts parts) := by
  rcases markup.last with ⟨front, segment, joined, ends⟩
  refine ⟨?_, Path.normalParts front, segment, ?_, ends⟩
  · intro part member
    rcases Path.mem_foldl_pushPart (List.mem_reverse.mp member) with below | later | up
    · simp at below
    · exact markup.each part later
    · rw [up]
      exact tidySegment_of_not_name (by simp)
  · rw [joined, Path.normalParts_concat_name]

theorem IsMarkupParts.segments {parts : List Part} (markup : IsMarkupParts parts) :
    IsMarkupSegments (parts.map Part.text) := by
  refine ⟨?_, ?_⟩
  · intro segment member
    rcases List.mem_map.mp member with ⟨part, within, equal⟩
    rw [← equal]
    exact markup.each part within
  · rcases markup.last with ⟨front, segment, joined, ends⟩
    intro last trailing
    rw [joined, List.map_append, List.getLast?_append] at trailing
    cases trailing
    exact ends

theorem IsMarkupPath.cons_slash {text : Text} (markup : IsMarkupPath text) :
    IsMarkupPath ('/' :: text) :=
  ⟨Tidy.nil.append_cons (by decide) (by decide) markup.tidy,
    markup.suffixed.trans (List.suffix_cons _ _)⟩

theorem IsMarkupParts.ofParts {parts : List Part} (markup : IsMarkupParts parts) :
    IsMarkupPath (Path.ofParts parts).text := by
  rcases markup.last with ⟨front, segment, joined, ends⟩
  have nonempty : parts ≠ [] := by
    rw [joined]
    simp
  unfold Path.ofParts
  split
  · rename_i others
    apply IsMarkupPath.cons_slash
    apply (markup.segments.of_suffix (List.suffix_cons _ _)).joinWith
    intro empty
    rw [List.map_eq_nil_iff.mp empty] at joined
    have single := congrArg List.getLast? joined
    simp at single
  · exact markup.segments.joinWith (by simpa using nonempty)

theorem IsMarkupPath.normalize {path : Path} (markup : IsMarkupPath path.text) :
    IsMarkupPath path.normalize.text :=
  markup.parts.normalParts.ofParts

end PageComposer
