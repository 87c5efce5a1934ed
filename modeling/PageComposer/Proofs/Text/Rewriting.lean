import PageComposer.Proofs.Text.Occurrence

namespace PageComposer
namespace Text

/-!
# Rewriting a text at once

An edit takes characters out at a position and puts a text in.  `rewrite` makes
the edits of all positions in one pass.  What is to be done at a position is
read off the text as it was given, so no edit can see what another one put in,
and a character stays exactly if no edit takes it out.  Two edits may well
overlap; that they do not is nothing that the definition asks for.

A stretch in which no edit starts is copied (`rewrite_silent`), and an edit in
whose stretch no other one starts replaces that stretch (`rewrite_edit`).
-/

/-- What is done at a position: so many characters are taken out from there on,
and a text is put in. -/
structure Edit where
  length : Nat
  inserted : Text
deriving DecidableEq

/-- Make the edits of a text of which some characters are taken out already. -/
def rewriteFrom (edit? : Text -> Option Edit) : Nat -> Text -> Text
  | _, [] => []
  | covered, head :: rest =>
      let here := (edit? (head :: rest)).getD ⟨0, []⟩
      let covering := max covered here.length
      here.inserted ++ (if covering = 0 then [head] else []) ++
        rewriteFrom edit? (covering - 1) rest

/-- The text with the edits of all its positions made at once. -/
def rewrite (edit? : Text -> Option Edit) (text : Text) : Text :=
  rewriteFrom edit? 0 text

/-- No edit starts in the text when it stands in front of `rest`. -/
def Silent (edit? : Text -> Option Edit) (text rest : Text) : Prop :=
  ∀ back, back <:+ text -> back ≠ [] -> edit? (back ++ rest) = none

variable {edit? : Text -> Option Edit}

theorem Silent.tail {head : Char} {text rest : Text} (silent : Silent edit? (head :: text) rest) :
    Silent edit? text rest :=
  fun back suffix => silent back (suffix.trans (List.suffix_cons head text))

theorem Silent.here {head : Char} {text rest : Text} (silent : Silent edit? (head :: text) rest) :
    edit? (head :: (text ++ rest)) = none :=
  silent (head :: text) List.suffix_rfl (List.cons_ne_nil head text)

theorem Silent.of_tail {stretch rest : Text} (here : edit? (stretch ++ rest) = none)
    (behind : Silent edit? stretch.tail rest) : Silent edit? stretch rest := by
  intro back suffix nonempty
  cases stretch with
  | nil => exact absurd (List.suffix_nil.mp suffix) nonempty
  | cons head others =>
      rcases List.suffix_cons_iff.mp suffix with whole | later
      · rw [whole]
        exact here
      · exact behind back later nonempty

@[simp] theorem rewrite_nil : rewrite edit? [] = [] := rfl

theorem rewrite_cons {head : Char} {rest : Text} (none : edit? (head :: rest) = none) :
    rewrite edit? (head :: rest) = head :: rewrite edit? rest := by
  simp [rewrite, rewriteFrom, none]

/-- A stretch in which no edit starts is copied. -/
theorem rewrite_silent {front rest : Text} (silent : Silent edit? front rest) :
    rewrite edit? (front ++ rest) = front ++ rewrite edit? rest := by
  induction front with
  | nil => rfl
  | cons head others inductionHypothesis =>
      rw [List.cons_append, rewrite_cons silent.here, inductionHypothesis silent.tail]
      rfl

theorem rewriteFrom_covered {front rest : Text} (silent : Silent edit? front rest) :
    rewriteFrom edit? front.length (front ++ rest) = rewrite edit? rest := by
  induction front with
  | nil => rfl
  | cons head others inductionHypothesis =>
      rw [List.cons_append, rewriteFrom, silent.here]
      simpa using inductionHypothesis silent.tail

/-- An edit replaces its stretch if no other one starts in there. -/
theorem rewrite_edit {stretch rest inserted : Text} (nonempty : stretch ≠ [])
    (here : edit? (stretch ++ rest) = some ⟨stretch.length, inserted⟩)
    (silent : Silent edit? stretch.tail rest) :
    rewrite edit? (stretch ++ rest) = inserted ++ rewrite edit? rest := by
  cases stretch with
  | nil => exact absurd rfl nonempty
  | cons head others =>
      rw [List.cons_append] at here ⊢
      rw [rewrite, rewriteFrom, here, ← rewriteFrom_covered silent]
      simp

end Text
end PageComposer
