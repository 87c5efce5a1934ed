import PageComposer.Compose.Binding
import PageComposer.Proofs.Outcome
import PageComposer.Proofs.Text.Field

namespace PageComposer

/-!
# The markup of a value

A value is a list of parts between commas.  A quoted part stands for what is
between its quotes, and a reference becomes a tag; a part that is neither has no
markup (`PartMarkup`, `Untyped`).  A value stands for the markup of its parts in
a row (`Composer.bindValues_eq_ok_iff`), and the first part without markup is
reported (`Composer.bindValues_of_firstUntyped`).

A value that starts with a comma is not taken apart.  It makes no difference to
what the value stands for, since neither its first part nor the whole of it has
markup; it is only the text of the report that differs.
-/

theorem splitValues_of_leading_comma (rest : Text) : splitValues (',' :: rest) = [',' :: rest] := by
  have cut : Text.cutAtChar? ',' (',' :: rest) = some ([], rest) :=
    Text.cutAtChar?_append_cons (List.not_mem_nil) rest
  unfold splitValues
  rw [cut]
  rfl

theorem splitValues_of_no_leading_comma {value : Text} (other : value.head? ≠ some ',') :
    splitValues value = value.splitOn ',' := by
  unfold splitValues
  cases cut : Text.cutAtChar? ',' value with
  | none =>
      have absent : ',' ∉ value := by
        intro occurs
        rcases List.eq_append_cons_of_mem occurs with ⟨before, after, joined, fresh⟩
        rw [joined, Text.cutAtChar?_append_cons fresh] at cut
        cases cut
      rw [List.splitOn_eq_singleton absent]
  | some pieces =>
      have front : pieces.1 ≠ [] := by
        intro empty
        rw [Text.cutAtChar?_join cut, empty] at other
        exact other rfl
      simp [front]

namespace Composer

variable {composer : Composer} {part text value : Text}

/-- The markup that a part of a value stands for. -/
inductive PartMarkup (composer : Composer) : Text -> Text -> Prop
  | quoted {part literal : Text} (unquoted : unquote? part = some literal) :
      PartMarkup composer part literal
  | reference {part : Text} (bare : unquote? part = none)
      (typed : composer.hasTypePrefix part = true) :
      PartMarkup composer part (tagOpen ++ part ++ tagClose)

/-- A part that is neither quoted nor a reference. -/
structure Untyped (composer : Composer) (part : Text) : Prop where
  bare : unquote? part = none
  unprefixed : composer.hasTypePrefix part = false

theorem bindPart_eq_ok_iff : composer.bindPart part = .ok text ↔ PartMarkup composer part text := by
  unfold bindPart
  constructor
  · intro bound
    split at bound
    · rename_i literal unquoted
      cases bound
      exact .quoted unquoted
    · rename_i bare
      split at bound
      · rename_i typed
        cases bound
        exact .reference bare typed
      · cases bound
  · intro markup
    cases markup with
    | quoted unquoted => rw [unquoted]
    | reference bare typed =>
        rw [bare, typed]
        rfl

theorem bindPart_of_untyped (untyped : Untyped composer part) :
    composer.bindPart part = .error (.missingTypePrefix part) := by
  unfold bindPart
  rw [untyped.bare, untyped.unprefixed]
  rfl

theorem untyped_iff : Untyped composer part ↔ ∀ text, ¬ PartMarkup composer part text := by
  constructor
  · intro untyped text markup
    have bound := bindPart_eq_ok_iff.mpr markup
    rw [bindPart_of_untyped untyped] at bound
    cases bound
  · intro nothing
    constructor
    · cases unquoted : unquote? part with
      | none => rfl
      | some literal => exact absurd (.quoted unquoted) (nothing literal)
    · cases typed : composer.hasTypePrefix part with
      | false => rfl
      | true =>
          cases unquoted : unquote? part with
          | none => exact absurd (.reference unquoted typed) (nothing _)
          | some literal => exact absurd (.quoted unquoted) (nothing literal)

theorem untyped_nil (composer : Composer) : Untyped composer [] := by
  refine ⟨rfl, List.any_eq_false.mpr fun kind _ => ?_⟩
  cases kind <;> decide

theorem untyped_comma (composer : Composer) (rest : Text) : Untyped composer (',' :: rest) := by
  refine ⟨rfl, List.any_eq_false.mpr fun kind _ => ?_⟩
  cases kind <;> simp [Text.startsWith, Kind.name]

/-- The markup that a slot receives: that of the parts of its value, and none
where it has no value. -/
inductive ValueMarkup (composer : Composer) : Option Text -> Text -> Prop
  | nothing : ValueMarkup composer none []
  | parts {value : Text} {texts : List Text}
      (each : List.Forall₂ (PartMarkup composer) (value.splitOn ',') texts) :
      ValueMarkup composer (some value) texts.flatten

/-- The first part of a value that has no markup. -/
def FirstUntyped (composer : Composer) (value part : Text) : Prop :=
  ∃ former later, value.splitOn ',' = former ++ part :: later ∧
    (∀ other ∈ former, ∃ text, PartMarkup composer other text) ∧ Untyped composer part

/-- What is reported of a value whose first part without markup is `part`. -/
def reportedPart (value part : Text) : Text :=
  if value.head? = some ',' then value else part

theorem splitOn_of_leading_comma (rest : Text) :
    (',' :: rest).splitOn ',' = [] :: rest.splitOn ',' := by
  have fresh : ',' ∉ ([] : Text) := List.not_mem_nil
  exact List.splitOn_append_cons_self_of_not_mem fresh rest

theorem mapM_bindPart_eq_ok_iff {parts texts : List Text} :
    parts.mapM composer.bindPart = .ok texts ↔ List.Forall₂ (PartMarkup composer) parts texts := by
  rw [mapM_eq_ok_iff_forall₂]
  simp only [bindPart_eq_ok_iff]

theorem bindValues_eq_ok_iff :
    composer.bindValues value = .ok text ↔ ValueMarkup composer (some value) text := by
  unfold bindValues
  by_cases leading : value.head? = some ','
  · rcases List.head?_eq_some_iff.mp leading with ⟨rest, equal⟩
    subst equal
    rw [splitValues_of_leading_comma]
    constructor
    · intro bound
      rcases bind_eq_ok_iff.mp bound with ⟨texts, each, _⟩
      cases mapM_bindPart_eq_ok_iff.mp each with
      | cons markup _ => exact absurd markup (untyped_iff.mp (untyped_comma composer rest) _)
    · intro markup
      cases markup with
      | parts each =>
          rw [splitOn_of_leading_comma] at each
          cases each with
          | cons markup _ => exact absurd markup (untyped_iff.mp (untyped_nil composer) _)
  · rw [splitValues_of_no_leading_comma leading]
    constructor
    · intro bound
      rcases bind_eq_ok_iff.mp bound with ⟨texts, each, equal⟩
      cases equal
      exact .parts (mapM_bindPart_eq_ok_iff.mp each)
    · intro markup
      cases markup with
      | parts each => exact bind_eq_ok_iff.mpr ⟨_, mapM_bindPart_eq_ok_iff.mpr each, rfl⟩

theorem received_iff_valueMarkup {value? : Option Text} :
    composer.received value? = .ok text ↔ ValueMarkup composer value? text := by
  cases value? with
  | some value => exact bindValues_eq_ok_iff
  | none =>
      constructor
      · intro received
        cases received
        exact .nothing
      · intro markup
        cases markup
        rfl

theorem bindValues_of_firstUntyped (first : FirstUntyped composer value part) :
    composer.bindValues value = .error (.missingTypePrefix (reportedPart value part)) := by
  rcases first with ⟨former, later, split, markup, untyped⟩
  unfold bindValues reportedPart
  refine bind_eq_error_iff.mpr (Or.inl ?_)
  by_cases leading : value.head? = some ','
  · rw [if_pos leading]
    rcases List.head?_eq_some_iff.mp leading with ⟨rest, equal⟩
    subst equal
    rw [splitValues_of_leading_comma]
    exact mapM_eq_error_iff.mpr
      ⟨[], _, [], rfl, by simp, bindPart_of_untyped (untyped_comma composer rest)⟩
  · rw [if_neg leading, splitValues_of_no_leading_comma leading]
    refine mapM_eq_error_iff.mpr ⟨former, part, later, split, ?_, bindPart_of_untyped untyped⟩
    intro other member
    rcases markup other member with ⟨text, found⟩
    exact ⟨text, bindPart_eq_ok_iff.mpr found⟩

end Composer
end PageComposer
