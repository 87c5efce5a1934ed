import PageComposer.Proofs.Markup.Piece
import PageComposer.Proofs.Text.Field

namespace PageComposer

/-!
# Sound texts

A text is sound when every `<` in it is accounted for and no region comment
stands in it.  The sound texts are those that pieces without region comments
spell (`exists_pieces`, `sound_spell`), so they can be joined and cut between
pieces at will.  Trimming keeps a text sound, since no blank stands right
behind a `<` and no comment ends in one.
-/

/-- Every `<` is accounted for, and no region comment begins. -/
structure Sound (text : Text) : Prop where
  unbegun : ¬ beginMarker <:+: text
  unended : ¬ endMarker <:+: text
  opened : wellOpened text = true

theorem Clean.sound {text : Text} (clean : Clean text) : Sound text :=
  ⟨clean.unbegun, clean.unended, clean.opened⟩

/-- No piece is a region comment. -/
def Unmarked (pieces : List Piece) : Prop :=
  ∀ piece ∈ pieces, piece.isRegionComment = false

theorem unmarked_append {left right : List Piece} :
    Unmarked (left ++ right) ↔ Unmarked left ∧ Unmarked right :=
  List.forall_mem_append

/-! ## Comments -/

theorem wellOpened_cons {head : Char} {rest : Text} :
    wellOpened (head :: rest) = true ↔
      (head = '<' -> opensElement rest = true ∨ opensComment rest = true) ∧
        wellOpened rest = true := by
  rw [wellOpened, Bool.and_eq_true, Bool.or_eq_true, Bool.or_eq_true, bne_iff_ne]
  by_cases bracket : head = '<' <;> simp [bracket]

theorem wellOpened_of_suffix {text more : Text} (suffix : text <:+ more)
    (opened : wellOpened more = true) : wellOpened text = true := by
  rcases suffix with ⟨front, joined⟩
  subst joined
  induction front with
  | nil => exact opened
  | cons head rest inductionHypothesis => exact inductionHypothesis (wellOpened_cons.mp opened).2

theorem opensComment_iff {text : Text} :
    opensComment text = true ↔ ∃ body rest,
      text = ['!', '-', '-'] ++ (body ++ tagClose ++ rest) ∧
        Text.startsWith [' '] (body ++ tagClose) = true ∧
        ¬ tagClose <:+: body ∧ ¬ commentStart <:+: body := by
  unfold opensComment Text.dropStart?
  constructor
  · intro opens
    split at opens
    · rename_i inside dropped
      rw [Bool.and_eq_true] at opens
      rcases opens with ⟨spaced, closes⟩
      split at closes
      · rename_i body rest closed
        rw [Bool.not_eq_true', ← Bool.not_eq_true, Text.contains_iff] at closes
        have joined := Text.cut?_join closed
        refine ⟨body, rest, ?_, ?_, ?_, closes⟩
        · rw [Text.isPrefixOf?_eq_some_iff.mp dropped, ← joined]
        · rw [joined] at spaced
          cases body with
          | nil => rfl
          | cons head others => exact spaced
        · exact Text.not_isInfix_of_cut? closed (List.cons_ne_nil _ _)
      · cases closes
    · cases opens
  · rintro ⟨body, rest, joined, spaced, unclosed, single⟩
    have dropped : (['!', '-', '-'] : Text).isPrefixOf? text = some (body ++ tagClose ++ rest) :=
      Text.isPrefixOf?_eq_some_iff.mpr joined
    rw [dropped]
    dsimp only
    rw [Text.cut?_tagClose_append unclosed, Bool.and_eq_true]
    refine ⟨?_, ?_⟩
    · cases body with
      | nil => rfl
      | cons head others => exact spaced
    · rw [Bool.not_eq_true', ← Bool.not_eq_true, Text.contains_iff]
      exact single

/-- Inside a comment there is no other comment, so every `<` there opens an
element or a declaration. -/
theorem isPlain_of_comment_body {body rest : Text} (single : ¬ commentStart <:+: body)
    (opened : wellOpened (body ++ tagClose ++ rest) = true) : isPlain body = true := by
  induction body with
  | nil => rfl
  | cons head others inductionHypothesis =>
      rw [List.infix_cons_iff, not_or] at single
      have parts := wellOpened_cons.mp opened
      apply isPlain_cons.mpr
      refine ⟨?_, inductionHypothesis single.2 parts.2⟩
      intro bracket
      rcases parts.1 bracket with element | comment
      · apply @opensElement_of_separator others ' ' (['-', '-', '>'] ++ rest) (by decide)
        simpa [tagClose] using element
      · rcases opensComment_iff.mp comment with ⟨_, _, joined, _⟩
        apply absurd _ single.1
        rw [bracket]
        rcases others with _ | ⟨first, _ | ⟨second, _ | ⟨third, more⟩⟩⟩
        · simp [tagClose] at joined
        · simp [tagClose] at joined
        · simp [tagClose] at joined
        · have letters : first :: second :: third :: (more ++ tagClose ++ rest) =
              '!' :: '-' :: '-' :: _ := joined
          simp only [List.cons.injEq] at letters
          rw [letters.1, letters.2.1, letters.2.2.1]
          exact ⟨more, rfl⟩

/-! ## Taking a sound text apart -/

/-- The characters that show that a `<` opens an element or a declaration. -/
theorem exists_element {rest : Text} (opens : opensElement rest = true) :
    ∃ word after, rest = word ++ after ∧ isPlain ('<' :: word) = true := by
  cases rest with
  | nil => cases opens
  | cons head others =>
      by_cases slash : head = '/'
      · subst slash
        exact ⟨['/'], others, rfl, by decide⟩
      · by_cases bang : head = '!'
        · subst bang
          cases others with
          | nil => exact absurd opens (by decide)
          | cons next more =>
              have letter : isLetter next = true := opens
              refine ⟨['!', next], more, rfl, ?_⟩
              apply isPlain_cons.mpr
              refine ⟨fun _ => letter, isPlain_of_without_bracket ?_⟩
              intro member
              rcases List.mem_cons.mp member with impossible | second
              · exact absurd impossible (by decide)
              · rw [← List.mem_singleton.mp second] at letter
                exact absurd letter (by decide)
        · rw [opensElement_cons others slash bang] at opens
          refine ⟨[head], others, rfl, ?_⟩
          apply isPlain_cons.mpr
          refine ⟨fun _ => ?_, isPlain_of_without_bracket ?_⟩
          · rw [opensElement_cons [] slash bang]
            exact opens
          · intro member
            rw [← List.mem_singleton.mp member] at opens
            exact absurd opens (by decide)

/-- The piece of a comment with this body. -/
theorem exists_comment_piece {body : Text} (tidy : Tidy body)
    (spaced : Text.startsWith [' '] (body ++ tagClose) = true) :
    ∃ piece : Piece, piece.text = commentStart ++ body ++ tagClose := by
  by_cases led : ∃ lead : Lead, ' ' :: lead.word <+: body
  · rcases led with ⟨lead, rest, joined⟩
    subst joined
    have inner : Tidy rest := by
      refine ⟨isPlain_of_suffix ⟨_, rfl⟩ tidy.plain, ?_⟩
      intro closed
      exact tidy.unclosed (closed.trans (List.suffix_append _ _).isInfix)
    refine ⟨.led lead rest inner, ?_⟩
    rw [Piece.text, lead.opening_eq]
    simp only [List.append_assoc]
  · rw [not_exists] at led
    exact ⟨.remark body tidy spaced led, rfl⟩

theorem exists_pieces_of_wellOpened (text : Text) (opened : wellOpened text = true) :
    ∃ pieces, spell pieces = text := by
  match text with
  | [] => exact ⟨[], rfl⟩
  | head :: rest =>
      have parts := wellOpened_cons.mp opened
      by_cases bracket : head = '<'
      · rcases parts.1 bracket with element | comment
        · rcases exists_element element with ⟨word, after, joined, plain⟩
          have remaining : wellOpened after = true :=
            wellOpened_of_suffix ⟨word, joined.symm⟩ parts.2
          rcases exists_pieces_of_wellOpened after remaining with ⟨pieces, spelled⟩
          refine ⟨.plain ('<' :: word) plain :: pieces, ?_⟩
          rw [spell_cons, spelled, bracket, joined]
          rfl
        · rcases opensComment_iff.mp comment with ⟨body, after, joined, spaced, unclosed, single⟩
          have inside : wellOpened (body ++ tagClose ++ after) = true :=
            wellOpened_of_suffix ⟨_, joined.symm⟩ parts.2
          have remaining : wellOpened after = true :=
            wellOpened_of_suffix ⟨body ++ tagClose, rfl⟩ inside
          rcases exists_comment_piece ⟨isPlain_of_comment_body single inside, unclosed⟩ spaced with
            ⟨piece, pieceText⟩
          rcases exists_pieces_of_wellOpened after remaining with ⟨pieces, spelled⟩
          refine ⟨piece :: pieces, ?_⟩
          rw [spell_cons, spelled, pieceText, bracket, joined]
          simp [commentStart]
      · rcases exists_pieces_of_wellOpened rest parts.2 with ⟨pieces, spelled⟩
        have single : isPlain [head] = true := by
          apply isPlain_of_without_bracket
          intro member
          exact bracket (List.mem_singleton.mp member).symm
        refine ⟨.plain [head] single :: pieces, ?_⟩
        rw [spell_cons, spelled]
        rfl
termination_by text.length
decreasing_by
  · rw [joined]
    simp only [List.length_cons, List.length_append]
    omega
  · rw [joined]
    simp only [List.length_cons, List.length_append]
    omega
  · simp

theorem piece_text_isInfix {piece : Piece} {pieces : List Piece} (member : piece ∈ pieces) :
    piece.text <:+: spell pieces := by
  rcases List.append_of_mem member with ⟨before, after, equal⟩
  subst equal
  exact ⟨spell before, spell after, by simp⟩

theorem exists_pieces {text : Text} (sound : Sound text) :
    ∃ pieces, Unmarked pieces ∧ spell pieces = text := by
  rcases exists_pieces_of_wellOpened text sound.opened with ⟨pieces, spelled⟩
  refine ⟨pieces, ?_, spelled⟩
  intro piece member
  have within := spelled ▸ piece_text_isInfix member
  cases piece with
  | plain _ _ => rfl
  | remark _ _ _ _ => rfl
  | led lead rest tidy =>
      have opening : lead.opening <:+: text := by
        refine List.IsInfix.trans ?_ within
        exact ⟨[], rest ++ tagClose, by simp [Piece.text]⟩
      cases lead with
      | tag kind => rfl
      | begins => exact absurd opening sound.unbegun
      | ends => exact absurd opening sound.unended

/-! ## Spelling a sound text -/

theorem wellOpened_append_of_isPlain {left right : Text} (plain : isPlain left = true)
    (opened : wellOpened right = true) : wellOpened (left ++ right) = true := by
  induction left with
  | nil => exact opened
  | cons head rest inductionHypothesis =>
      have parts := isPlain_cons.mp plain
      rw [List.cons_append]
      apply wellOpened_cons.mpr
      exact ⟨fun bracket => Or.inl (opensElement_append (parts.1 bracket) right),
        inductionHypothesis parts.2⟩

theorem not_commentStart_infix_of_isPlain {text : Text} (plain : isPlain text = true) :
    ¬ commentStart <:+: text := by
  rintro ⟨front, back, joined⟩
  have suffix : commentStart ++ back <:+ text := ⟨front, by rw [← joined, List.append_assoc]⟩
  have quiet := quiet_of_isPlain plain (commentStart ++ back) suffix (by simp [commentStart]) []
  exact quiet ⟨back, by simp⟩

theorem wellOpened_comment {body rest : Text} (tidy : Tidy body)
    (spaced : Text.startsWith [' '] (body ++ tagClose) = true)
    (opened : wellOpened rest = true) :
    wellOpened (commentStart ++ body ++ tagClose ++ rest) = true := by
  have joined : commentStart ++ body ++ tagClose ++ rest =
      '<' :: (['!', '-', '-'] ++ body ++ tagClose ++ rest) := rfl
  rw [joined]
  apply wellOpened_cons.mpr
  refine ⟨fun _ => Or.inr (opensComment_iff.mpr ?_),
    wellOpened_append_of_isPlain (isPlain_comment_inside tidy.plain) opened⟩
  exact ⟨body, rest, by simp, spaced, tidy.unclosed,
    not_commentStart_infix_of_isPlain tidy.plain⟩

theorem tidy_led_body (lead : Lead) {rest : Text} (tidy : Tidy rest) :
    Tidy (' ' :: lead.word ++ rest) := by
  have words : ∀ lead ∈ Lead.all, isPlain (' ' :: lead.word) = true ∧
      lead.word.head? ≠ some '-' ∧ lead.word ≠ [] := by decide
  rcases words lead lead.mem_all with ⟨plain, started, nonempty⟩
  refine ⟨isPlain_append plain tidy.plain, ?_⟩
  intro closed
  rcases List.infix_cons_iff.mp closed with here | inside
  · have dashed := (List.cons_prefix_cons.mp here).2
    cases spelled : lead.word with
    | nil => exact nonempty spelled
    | cons first letters =>
        rw [spelled] at dashed
        have dash : '-' = first := (List.cons_prefix_cons.mp dashed).1
        exact started (by rw [spelled, ← dash]; rfl)
  · exact tidy.unclosed (Text.infix_of_infix_append lead.blank_not_mem_word inside)

/-- What every piece looks like that is no plain stretch. -/
theorem Piece.comment_form {piece : Piece} (comment : ∀ text opened, piece ≠ .plain text opened) :
    ∃ body, Tidy body ∧ Text.startsWith [' '] (body ++ tagClose) = true ∧
      piece.text = commentStart ++ body ++ tagClose := by
  cases piece with
  | plain text opened => exact absurd rfl (comment text opened)
  | led lead rest tidy =>
      refine ⟨' ' :: lead.word ++ rest, tidy_led_body lead tidy, rfl, ?_⟩
      rw [text, lead.opening_eq]
      simp only [List.append_assoc, List.cons_append]
  | remark body tidy spaced other => exact ⟨body, tidy, spaced, rfl⟩

theorem wellOpened_spell (pieces : List Piece) : wellOpened (spell pieces) = true := by
  induction pieces with
  | nil => rfl
  | cons piece others inductionHypothesis =>
      rw [spell_cons]
      by_cases plain : ∃ text opened, piece = .plain text opened
      · rcases plain with ⟨text, opened, equal⟩
        subst equal
        exact wellOpened_append_of_isPlain opened inductionHypothesis
      · have comment : ∀ text opened, piece ≠ .plain text opened := by
          intro text opened equal
          exact plain ⟨text, opened, equal⟩
        rcases piece.comment_form comment with ⟨body, tidy, spaced, form⟩
        rw [form]
        exact wellOpened_comment tidy spaced inductionHypothesis

theorem cut?_opening_spell_append {lead : Lead} {pieces : List Piece}
    (without : ∀ rest tidy, Piece.led lead rest tidy ∉ pieces) (more : Text) :
    Text.cut? lead.opening (spell pieces ++ more) =
      (Text.cut? lead.opening more).map (Text.putBefore (spell pieces)) := by
  induction pieces with
  | nil =>
      rw [spell_nil, List.nil_append]
      cases Text.cut? lead.opening more <;> rfl
  | cons piece others inductionHypothesis =>
      have different : ∀ rest tidy, piece ≠ .led lead rest tidy := by
        intro rest tidy equal
        exact without rest tidy (equal ▸ List.mem_cons_self)
      rw [spell_cons, List.append_assoc, cut?_opening_skip different, inductionHypothesis,
        Option.map_map]
      · cases Text.cut? lead.opening more with
        | none => rfl
        | some found => simp [Text.putBefore]
      · intro rest tidy member
        exact without rest tidy (List.mem_cons_of_mem _ member)

theorem cut?_opening_spell_eq_none {lead : Lead} {pieces : List Piece}
    (without : ∀ rest tidy, Piece.led lead rest tidy ∉ pieces) :
    Text.cut? lead.opening (spell pieces) = none := by
  have nothing : ∀ lead ∈ Lead.all, Text.cut? lead.opening [] = none := by decide
  have passed := cut?_opening_spell_append without []
  rw [List.append_nil, nothing lead lead.mem_all] at passed
  exact passed

/-- Pieces without region comments spell a sound text. -/
theorem sound_spell {pieces : List Piece} (unmarked : Unmarked pieces) : Sound (spell pieces) where
  unbegun := by
    apply Text.cut?_eq_none_iff.mp
    apply @cut?_opening_spell_eq_none .begins
    intro rest tidy member
    cases unmarked _ member
  unended := by
    apply Text.cut?_eq_none_iff.mp
    apply @cut?_opening_spell_eq_none .ends
    intro rest tidy member
    cases unmarked _ member
  opened := wellOpened_spell pieces

/-! ## Joining and trimming -/

theorem sound_nil : Sound [] := @sound_spell [] (by simp [Unmarked])

theorem Sound.append {left right : Text} (first : Sound left) (second : Sound right) :
    Sound (left ++ right) := by
  rcases exists_pieces first with ⟨leftPieces, leftUnmarked, leftSpelled⟩
  rcases exists_pieces second with ⟨rightPieces, rightUnmarked, rightSpelled⟩
  rw [← leftSpelled, ← rightSpelled, ← spell_append]
  exact sound_spell (unmarked_append.mpr ⟨leftUnmarked, rightUnmarked⟩)

theorem sound_piece {piece : Piece} (unmarked : piece.isRegionComment = false) :
    Sound piece.text := by
  have single : Unmarked [piece] := by
    intro other member
    rw [List.mem_singleton.mp member]
    exact unmarked
  simpa using sound_spell single

theorem sound_of_isPlain {text : Text} (plain : isPlain text = true) : Sound text :=
  @sound_piece (.plain text plain) rfl

theorem Sound.of_suffix {text more : Text} (suffix : text <:+ more) (sound : Sound more) :
    Sound text :=
  ⟨fun begun => sound.unbegun (begun.trans suffix.isInfix),
    fun ended => sound.unended (ended.trans suffix.isInfix),
    wellOpened_of_suffix suffix sound.opened⟩

theorem opensElement_of_blanks {text blanks : Text}
    (blank : ∀ character ∈ blanks, Text.isBlank character = true)
    (opens : opensElement (text ++ blanks) = true) : opensElement text = true := by
  cases blanks with
  | nil => rwa [List.append_nil] at opens
  | cons first others =>
      exact opensElement_of_separator (separates_of_isBlank (blank first List.mem_cons_self)) opens

/-- A comment ends in a bracket, so it lies in front of trailing blanks. -/
theorem opensComment_of_blanks {text blanks : Text}
    (blank : ∀ character ∈ blanks, Text.isBlank character = true)
    (opens : opensComment (text ++ blanks) = true) : opensComment text = true := by
  rcases opensComment_iff.mp opens with ⟨body, rest, joined, spaced, unclosed, single⟩
  have leads : ['!', '-', '-'] ++ body ++ tagClose <+: text ++ blanks := by
    rw [joined]
    exact ⟨rest, by simp only [List.append_assoc]⟩
  rcases List.prefix_or_prefix_of_prefix leads (List.prefix_append text blanks) with
    inside | beyond
  · rcases inside with ⟨more, equal⟩
    apply opensComment_iff.mpr
    refine ⟨body, more, ?_, spaced, unclosed, single⟩
    rw [← equal]
    simp only [List.append_assoc]
  · rcases beyond with ⟨more, equal⟩
    have trailing : more <+: blanks := by
      rw [← equal] at leads
      exact (List.prefix_append_right_inj text).mp leads
    rcases List.eq_nil_or_concat more with empty | ⟨others, last, ending⟩
    · rw [empty, List.append_nil] at equal
      apply opensComment_iff.mpr
      exact ⟨body, [], by rw [equal]; simp, spaced, unclosed, single⟩
    · rw [ending] at equal trailing
      have same := congrArg List.getLast? equal
      simp only [tagClose, List.getLast?_append, List.concat_eq_append,
        List.getLast?_cons] at same
      have bracket : last = '>' := by simpa using same
      have blankLast := blank last (trailing.subset (by simp))
      rw [bracket] at blankLast
      exact absurd blankLast (by decide)

theorem wellOpened_of_blanks {text blanks : Text}
    (blank : ∀ character ∈ blanks, Text.isBlank character = true)
    (opened : wellOpened (text ++ blanks) = true) : wellOpened text = true := by
  induction text with
  | nil => rfl
  | cons head rest inductionHypothesis =>
      have parts := wellOpened_cons.mp opened
      apply wellOpened_cons.mpr
      refine ⟨fun bracket => ?_, inductionHypothesis parts.2⟩
      exact (parts.1 bracket).imp (opensElement_of_blanks blank) (opensComment_of_blanks blank)

theorem Sound.trim {text : Text} (sound : Sound text) : Sound (Text.trim text) := by
  rcases Text.trim_join text with ⟨leading, trailing, _, trailingBlank, joined⟩
  have back : Sound (Text.trim text ++ trailing) := by
    apply sound.of_suffix
    exact ⟨leading, by rw [← List.append_assoc, ← joined]⟩
  have inside := (List.prefix_append (Text.trim text) trailing).isInfix
  exact ⟨fun begun => back.unbegun (begun.trans inside),
    fun ended => back.unended (ended.trans inside),
    wellOpened_of_blanks trailingBlank back.opened⟩

end PageComposer
