import PageComposer.Proofs.Markup.Opening

namespace PageComposer

/-!
# Markup as a list of pieces

A sound text is a list of pieces: plain stretches, comments that lead with a
word this library reads (a kind with its colon, or the word of a region
comment), and all other comments.  A piece carries the proof that it is well
formed, so any list of pieces spells markup in which the openings and closings
are those of the pieces and no others.  Searching such a text for an opening is
then a search through the list: the pieces that do not lead with it are passed
over (`cut?_opening_skip`), and the one that does is found at its start
(`cut?_opening_led`).

`exists_pieces` takes any sound text apart, and `sound_spell` is its converse.
-/

/-- What a comment that is read leads with. -/
inductive Lead
  | tag (kind : Kind)
  | begins
  | ends
deriving DecidableEq

namespace Lead

/-- The text up to the part that varies. -/
def opening : Lead -> Text
  | tag kind => kind.opening
  | begins => beginMarker
  | ends => endMarker

/-- The word behind the blank of a comment. -/
def word : Lead -> Text
  | tag kind => kind.name ++ [':']
  | begins => ['b', 'e', 'g', 'i', 'n', '_']
  | ends => ['e', 'n', 'd', '_']

def all : List Lead :=
  Kind.all.map tag ++ [begins, ends]

theorem mem_all (lead : Lead) : lead ∈ all := by
  cases lead with
  | tag kind => exact List.mem_append_left _ (List.mem_map_of_mem kind.mem_all)
  | begins => decide
  | ends => decide

theorem opening_eq (lead : Lead) : lead.opening = commentStart ++ ' ' :: lead.word := by
  cases lead with
  | tag kind =>
      rw [opening, Kind.opening, word, List.append_assoc]
      rfl
  | begins => rfl
  | ends => rfl

theorem commentStart_isPrefix (lead : Lead) : commentStart <+: lead.opening :=
  ⟨' ' :: lead.word, lead.opening_eq.symm⟩

/-- No word leads another one. -/
theorem eq_of_word_isPrefix {left right : Lead} {rest : Text}
    (leads : left.word <+: right.word ++ rest) : left = right := by
  have distinct : ∀ left ∈ all, ∀ right ∈ all,
      left.word.isPrefixOf right.word = true -> left = right := by decide
  rcases List.prefix_or_prefix_of_prefix leads (List.prefix_append right.word rest) with
    forward | backward
  · exact distinct left left.mem_all right right.mem_all (List.isPrefixOf_iff_prefix.mpr forward)
  · exact (distinct right right.mem_all left left.mem_all
      (List.isPrefixOf_iff_prefix.mpr backward)).symm

/-- Comments are told apart by what they lead with and what they say. -/
theorem comment_injective (lead other : Lead) {left right : Text}
    (leftUnclosed : ¬ tagClose <:+: left)
    (rightUnclosed : ¬ tagClose <:+: right) {more : Text}
    (leads : lead.opening ++ left ++ tagClose <+: other.opening ++ right ++ tagClose ++ more) :
    lead = other ∧ left = right := by
  rcases leads with ⟨after, joined⟩
  have words : lead.word <+: other.word ++ (right ++ tagClose ++ more) := by
    refine ⟨left ++ tagClose ++ after, ?_⟩
    rw [lead.opening_eq, other.opening_eq] at joined
    simpa [commentStart] using joined
  have same := eq_of_word_isPrefix words
  subst same
  have bodies : left ++ tagClose ++ after = right ++ tagClose ++ more := by
    simpa using joined
  exact ⟨rfl, (Text.append_tagClose_inj leftUnclosed rightUnclosed bodies).1⟩

theorem blank_not_mem_word (lead : Lead) : ' ' ∉ lead.word := by
  have without : ∀ lead ∈ all, ' ' ∉ lead.word := by decide
  exact without lead lead.mem_all

/-- A word that leads a comment stands in the body of that comment, since it
cannot reach into the closing. -/
theorem word_isPrefix_body {lead : Lead} {body rest : Text}
    (leads : ' ' :: lead.word <+: body ++ tagClose ++ rest) : ' ' :: lead.word <+: body := by
  have started : ∀ lead ∈ all, lead.word.head? ≠ some '-' ∧ lead.word ≠ [] := by decide
  have bodyLeads : body <+: body ++ tagClose ++ rest := ⟨tagClose ++ rest, by simp⟩
  rcases List.prefix_or_prefix_of_prefix leads bodyLeads with inside | beyond
  · exact inside
  · rcases beyond with ⟨more, joined⟩
    rw [← joined, List.append_assoc, List.prefix_append_right_inj] at leads
    cases more with
    | nil =>
        rw [List.append_nil] at joined
        exact joined ▸ List.prefix_rfl
    | cons next others =>
        have blank : next = ' ' := (List.cons_prefix_cons.mp leads).1
        cases body with
        | nil =>
            have word : others = lead.word := (List.cons.inj joined).2
            have behind := (List.cons_prefix_cons.mp leads).2
            rw [word] at behind
            cases spelled : lead.word with
            | nil => exact absurd spelled (started lead lead.mem_all).2
            | cons first letters =>
                rw [spelled] at behind
                have dash : first = '-' := (List.cons_prefix_cons.mp behind).1
                exact absurd (by rw [spelled, dash]; rfl) (started lead lead.mem_all).1
        | cons first inner =>
            have member : ' ' ∈ lead.word := by
              rw [← (List.cons.inj joined).2, blank]
              exact List.mem_append_right inner List.mem_cons_self
            exact absurd member lead.blank_not_mem_word

end Lead

/-- A text that may stand inside a comment. -/
structure Tidy (text : Text) : Prop where
  plain : isPlain text = true
  unclosed : ¬ tagClose <:+: text

/-- A piece of markup. -/
inductive Piece
  | plain (text : Text) (opened : isPlain text = true)
  | led (lead : Lead) (rest : Text) (tidy : Tidy rest)
  | remark (body : Text) (tidy : Tidy body)
      (spaced : Text.startsWith [' '] (body ++ tagClose) = true)
      (other : ∀ lead : Lead, ¬ ' ' :: lead.word <+: body)

namespace Piece

def text : Piece -> Text
  | plain text _ => text
  | led lead rest _ => lead.opening ++ rest ++ tagClose
  | remark body _ _ _ => commentStart ++ body ++ tagClose

/-- Whether a piece is one of the two comments around a region. -/
def isRegionComment : Piece -> Bool
  | led .begins _ _ | led .ends _ _ => true
  | plain _ _ | led (.tag _) _ _ | remark _ _ _ _ => false

end Piece

/-- The text that pieces spell. -/
def spell (pieces : List Piece) : Text :=
  pieces.flatMap Piece.text

@[simp] theorem spell_nil : spell [] = [] := rfl

@[simp] theorem spell_cons (piece : Piece) (pieces : List Piece) :
    spell (piece :: pieces) = piece.text ++ spell pieces := rfl

@[simp] theorem spell_append (left right : List Piece) :
    spell (left ++ right) = spell left ++ spell right :=
  List.flatMap_append

/-! ## Searching through pieces -/

theorem cut?_comment_skip {needle inside rest : Text} (leads : commentStart <+: needle)
    (plain : isPlain inside = true) (absent : ¬ needle <+: '<' :: (inside ++ rest)) :
    Text.cut? needle ('<' :: inside ++ rest) =
      (Text.cut? needle rest).map (Text.putBefore ('<' :: inside)) := by
  have quiet := (quiet_of_isPlain plain).of_isPrefix leads
  rw [List.cons_append, Text.cut?_cons absent, Text.cut?_quiet_append quiet, Option.map_map]
  rfl

theorem isPlain_comment_inside {body : Text} (plain : isPlain body = true) :
    isPlain (['!', '-', '-'] ++ body ++ tagClose) = true := by
  apply isPlain_append
  · exact isPlain_append (by decide) plain
  · decide

theorem isPlain_led_inside (lead : Lead) {rest : Text} (plain : isPlain rest = true) :
    isPlain (['!', '-', '-'] ++ (' ' :: lead.word ++ rest) ++ tagClose) = true := by
  apply isPlain_comment_inside
  have words : ∀ lead ∈ Lead.all, isPlain (' ' :: lead.word) = true := by decide
  exact isPlain_append (words lead lead.mem_all) plain

theorem led_text (lead : Lead) (rest : Text) :
    lead.opening ++ rest ++ tagClose =
      '<' :: (['!', '-', '-'] ++ (' ' :: lead.word ++ rest) ++ tagClose) := by
  rw [lead.opening_eq]
  simp [commentStart]

/-- A piece that does not lead with the word is passed over. -/
theorem cut?_opening_skip {lead : Lead} {piece : Piece}
    (different : ∀ rest tidy, piece ≠ .led lead rest tidy) (more : Text) :
    Text.cut? lead.opening (piece.text ++ more) =
      (Text.cut? lead.opening more).map (Text.putBefore piece.text) := by
  cases piece with
  | plain text opened =>
      exact Text.cut?_quiet_append
        ((quiet_of_isPlain opened).of_isPrefix lead.commentStart_isPrefix) more
  | led other rest tidy =>
      rw [Piece.text, led_text]
      apply cut?_comment_skip lead.commentStart_isPrefix (isPlain_led_inside other tidy.plain)
      intro leads
      rw [lead.opening_eq] at leads
      have words : lead.word <+: other.word ++ (rest ++ tagClose ++ more) := by
        simpa [commentStart] using leads
      have same := Lead.eq_of_word_isPrefix words
      subst same
      exact different rest tidy rfl
  | remark body tidy spaced other =>
      change Text.cut? lead.opening ('<' :: (['!', '-', '-'] ++ body ++ tagClose) ++ more) = _
      apply cut?_comment_skip lead.commentStart_isPrefix (isPlain_comment_inside tidy.plain)
      intro leads
      rw [lead.opening_eq] at leads
      have words : ' ' :: lead.word <+: body ++ tagClose ++ more := by
        simpa [commentStart] using leads
      exact other lead (Lead.word_isPrefix_body words)

theorem cut?_opening_led (lead : Lead) (rest : Text) (tidy : Tidy rest) (more : Text) :
    Text.cut? lead.opening ((Piece.led lead rest tidy).text ++ more) =
      some ([], rest ++ tagClose ++ more) := by
  rw [Piece.text, List.append_assoc, List.append_assoc, Text.cut?_self_append]
  simp only [List.append_assoc]

/-- A whole comment is found only at a piece that is that comment. -/
theorem cut?_comment_of_ne {lead : Lead} {rest : Text} (tidy : Tidy rest) {piece : Piece}
    (different : piece ≠ .led lead rest tidy) (more : Text) :
    Text.cut? (lead.opening ++ rest ++ tagClose) (piece.text ++ more) =
      (Text.cut? (lead.opening ++ rest ++ tagClose) more).map (Text.putBefore piece.text) := by
  have leads : commentStart <+: lead.opening ++ rest ++ tagClose := by
    rw [List.append_assoc]
    exact lead.commentStart_isPrefix.trans (List.prefix_append _ _)
  have opening : lead.opening <+: lead.opening ++ rest ++ tagClose := by
    rw [List.append_assoc]
    exact List.prefix_append _ _
  cases piece with
  | plain text opened =>
      exact Text.cut?_quiet_append ((quiet_of_isPlain opened).of_isPrefix leads) more
  | led other inner innerTidy =>
      rw [Piece.text, led_text other]
      apply cut?_comment_skip leads (isPlain_led_inside other innerTidy.plain)
      intro found
      rw [← List.cons_append, ← led_text other] at found
      rcases Lead.comment_injective lead other tidy.unclosed innerTidy.unclosed found with
        ⟨same, bodies⟩
      subst same bodies
      exact different rfl
  | remark body bodyTidy spaced other =>
      change Text.cut? _ ('<' :: (['!', '-', '-'] ++ body ++ tagClose) ++ more) = _
      apply cut?_comment_skip leads (isPlain_comment_inside bodyTidy.plain)
      intro found
      have words := opening.trans found
      rw [lead.opening_eq] at words
      apply other lead
      apply @Lead.word_isPrefix_body lead body more
      simpa [commentStart] using words

end PageComposer
