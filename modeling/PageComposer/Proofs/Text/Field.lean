import PageComposer.Proofs.Text.Occurrence
import PageComposer.Text.Blank

namespace PageComposer
namespace Text

/-!
# Texts between separators

A separator that does not occur in a needle keeps occurrences of the needle on
either side of it.  The parts of a split text are its fields: what stands
between two separators, or between a separator and an end of the text.
-/

section Foreign

variable {separator : Char} {needle left right : Text}

theorem isPrefix_of_isPrefix_append_cons (foreign : separator ∉ needle)
    (leads : needle <+: left ++ separator :: right) : needle <+: left := by
  rcases List.prefix_or_prefix_of_prefix leads (List.prefix_append left _) with inside | beyond
  · exact inside
  · rcases beyond with ⟨more, joined⟩
    rw [← joined] at leads
    have further := (List.prefix_append_right_inj left).mp leads
    cases more with
    | nil =>
        rw [List.append_nil] at joined
        exact joined ▸ List.prefix_rfl
    | cons next others =>
        apply absurd _ foreign
        rw [← joined, ← (List.cons_prefix_cons.mp further).1]
        exact List.mem_append_right _ List.mem_cons_self

theorem isSuffix_of_isSuffix_append_cons (foreign : separator ∉ needle)
    (ends : needle <:+ left ++ separator :: right) : needle <:+ right := by
  rw [← List.reverse_prefix] at ends ⊢
  rw [List.reverse_append, List.reverse_cons, List.append_assoc, List.singleton_append] at ends
  exact isPrefix_of_isPrefix_append_cons (by simpa using foreign) ends

theorem isInfix_of_isInfix_append_cons (foreign : separator ∉ needle)
    (occurs : needle <:+: left ++ separator :: right) : needle <:+: left ∨ needle <:+: right := by
  induction left with
  | nil =>
      rcases List.infix_cons_iff.mp occurs with here | later
      · have empty := @isPrefix_of_isPrefix_append_cons _ _ [] _ foreign here
        rw [List.prefix_nil.mp empty]
        exact Or.inl List.nil_infix
      · exact Or.inr later
  | cons head rest inductionHypothesis =>
      rcases List.infix_cons_iff.mp occurs with here | later
      · exact Or.inl (isPrefix_of_isPrefix_append_cons foreign here).isInfix
      · rcases inductionHypothesis later with inside | behind
        · exact Or.inl (inside.trans (List.suffix_cons head rest).isInfix)
        · exact Or.inr behind

/-- Where the first character of a needle comes again the needle has ended. -/
theorem isPrefix_of_isPrefix_append_self {head : Char} {tail : Text} (once : head ∉ tail)
    {back : Text} (nonempty : back ≠ []) {rest : Text}
    (leads : head :: tail <+: back ++ head :: rest) : head :: tail <+: back := by
  cases back with
  | nil => exact absurd rfl nonempty
  | cons first others =>
      rcases List.cons_prefix_cons.mp leads with ⟨same, behind⟩
      exact List.cons_prefix_cons.mpr ⟨same, isPrefix_of_isPrefix_append_cons once behind⟩

/-- An occurrence starts behind a part that lacks its first character. -/
theorem infix_of_infix_append {head : Char} {needle front text : Text} (without : head ∉ front)
    (occurs : head :: needle <:+: front ++ text) : head :: needle <:+: text := by
  induction front with
  | nil => exact occurs
  | cons first others inductionHypothesis =>
      rw [List.mem_cons, not_or] at without
      rcases List.infix_cons_iff.mp occurs with here | later
      · exact absurd (List.cons_prefix_cons.mp here).1 without.1
      · exact inductionHypothesis without.2 later

/-- An occurrence stands in front of a part that lacks its last character. -/
theorem isInfix_of_isInfix_append {front text back : Text} {last : Char} (without : last ∉ back)
    (occurs : front ++ [last] <:+: text ++ back) : front ++ [last] <:+: text := by
  rw [← List.reverse_infix, List.reverse_concat] at occurs ⊢
  rw [List.reverse_append] at occurs
  exact infix_of_infix_append (by rwa [List.mem_reverse]) occurs

/-- An occurrence that meets the first character of the needle again starts there, or it has
ended. -/
theorem isInfix_append_cons_iff {head : Char} {tail : Text} (once : head ∉ tail) :
    head :: tail <:+: left ++ head :: right ↔
      head :: tail <:+: left ∨ head :: tail <:+: head :: right := by
  constructor
  · intro occurs
    induction left with
    | nil => exact Or.inr occurs
    | cons first others inductionHypothesis =>
        rcases List.infix_cons_iff.mp occurs with here | later
        · have nonempty : first :: others ≠ [] := List.cons_ne_nil _ _
          exact Or.inl (isPrefix_of_isPrefix_append_self once nonempty here).isInfix
        · rcases inductionHypothesis later with inside | behind
          · exact Or.inl (inside.trans (List.suffix_cons first others).isInfix)
          · exact Or.inr behind
  · rintro (inside | behind)
    · exact inside.trans (List.prefix_append left _).isInfix
    · exact behind.trans (List.suffix_append left _).isInfix

/-- An occurrence that meets the last character of the needle ends there, or it starts
behind. -/
theorem isInfix_of_isInfix_append_last {front : Text} {last : Char} (once : last ∉ front)
    (occurs : front ++ [last] <:+: left ++ last :: right) :
    front ++ [last] <:+: left ++ [last] ∨ front ++ [last] <:+: right := by
  rw [← List.reverse_infix, List.reverse_concat, List.reverse_append, List.reverse_cons,
    List.append_assoc, List.singleton_append,
    isInfix_append_cons_iff (by rwa [List.mem_reverse])] at occurs
  rw [← List.reverse_infix, ← @List.reverse_infix _ (front ++ [last]) right,
    List.reverse_concat, List.reverse_concat]
  exact occurs.symm

/-- A text without an occurrence that ends with a foreign character has none that
starts in it. -/
theorem quiet_concat (foreign : separator ∉ needle) (absent : ¬ needle <:+: left) :
    Quiet needle (left ++ [separator]) := by
  intro back suffix nonempty rest leads
  rcases List.suffix_concat_iff.mp suffix with empty | ⟨inner, joined, inside⟩
  · exact nonempty empty
  · rw [joined, List.append_assoc] at leads
    exact absent ((isPrefix_of_isPrefix_append_cons foreign leads).isInfix.trans inside.isInfix)

end Foreign

theorem cutAtChar?_join {separator : Char} {text before after : Text}
    (found : cutAtChar? separator text = some (before, after)) :
    text = before ++ separator :: after := by
  rw [cut?_join found, List.append_assoc]
  rfl

theorem isPrefix_of_cutAtChar? {separator : Char} {text before after : Text}
    (cut : cutAtChar? separator text = some (before, after)) : before <+: text := by
  rw [cutAtChar?_join cut]
  exact List.prefix_append _ _

theorem cutAtChar?_append_cons {separator : Char} {front : Text} (fresh : separator ∉ front)
    (rest : Text) : cutAtChar? separator (front ++ separator :: rest) = some (front, rest) := by
  have quiet : Quiet [separator] front := by
    intro back suffix nonempty more leads
    cases back with
    | nil => exact nonempty rfl
    | cons head others =>
        have same := (List.cons_prefix_cons.mp leads).1
        exact fresh (suffix.subset (same ▸ List.mem_cons_self))
  have here := cut?_self_append [separator] rest
  rw [List.singleton_append] at here
  rw [cutAtChar?, cut?_quiet_append quiet, here, Option.map_some, putBefore, List.append_nil]

theorem cutAtChar?_eq_none_iff {separator : Char} {text : Text} :
    cutAtChar? separator text = none ↔ separator ∉ text := by
  rw [cutAtChar?, cut?_eq_none_iff]
  constructor
  · intro absent member
    rcases List.append_of_mem member with ⟨left, right, joined⟩
    exact absent ⟨left, right, by rw [joined, List.append_assoc]; rfl⟩
  · exact fun fresh occurs => fresh (occurs.subset List.mem_cons_self)

/-- A text is cut at its first separator. -/
theorem cutAtChar?_eq_some_iff {separator : Char} {text before after : Text} :
    cutAtChar? separator text = some (before, after) ↔
      separator ∉ before ∧ text = before ++ separator :: after := by
  constructor
  · intro found
    refine ⟨fun earlier => ?_, cutAtChar?_join found⟩
    rcases List.append_of_mem earlier with ⟨left, right, split⟩
    have occurs : text = left ++ [separator] ++ (right ++ separator :: after) := by
      rw [cutAtChar?_join found, split]
      simp
    have first := cut?_first found occurs
    rw [split, List.length_append, List.length_cons] at first
    omega
  · rintro ⟨fresh, joined⟩
    rw [joined]
    exact cutAtChar?_append_cons fresh after

theorem dropEnd?_eq_some_iff {ending text before : Text} :
    dropEnd? ending text = some before ↔ text = before ++ ending := by
  unfold dropEnd? List.isSuffixOf?
  rw [Option.map_eq_some_iff]
  constructor
  · rintro ⟨reversed, dropped, equal⟩
    have joined := congrArg List.reverse (isPrefixOf?_eq_some_iff.mp dropped)
    rw [← equal]
    simpa using joined
  · intro joined
    refine ⟨before.reverse, isPrefixOf?_eq_some_iff.mpr ?_, List.reverse_reverse before⟩
    rw [joined, List.reverse_append]

/-- A text between separators or the ends of the whole. -/
def Field (separator : Char) (part text : Text) : Prop :=
  ∃ before after, text = before ++ part ++ after ∧
    (after = [] ∨ ∃ rest, after = separator :: rest)

theorem Field.isInfix {separator : Char} {part text : Text} (field : Field separator part text) :
    part <:+: text := by
  rcases field with ⟨before, after, joined, _⟩
  exact ⟨before, after, joined.symm⟩

theorem field_of_mem_splitOn {separator : Char} {part : Text} (text : Text)
    (member : part ∈ text.splitOn separator) : Field separator part text := by
  by_cases occurs : separator ∈ text
  · rcases List.eq_append_cons_of_mem occurs with ⟨first, others, joined, fresh⟩
    rw [joined, List.splitOn_append_cons_self_of_not_mem fresh] at member
    rcases List.mem_cons.mp member with equal | later
    · subst equal
      exact ⟨[], separator :: others, by simpa using joined, Or.inr ⟨others, rfl⟩⟩
    · rcases field_of_mem_splitOn others later with ⟨before, after, inner, ends⟩
      refine ⟨first ++ separator :: before, after, ?_, ends⟩
      rw [joined, inner]
      simp only [List.append_assoc, List.cons_append]
  · rw [List.splitOn_eq_singleton occurs] at member
    rw [List.mem_singleton.mp member]
    exact ⟨[], [], by simp, Or.inl rfl⟩
termination_by text.length
decreasing_by
  rw [joined]
  simp only [List.length_append, List.length_cons]
  omega

theorem separator_not_mem_of_mem_splitOn {separator : Char} {part text : Text}
    (member : part ∈ text.splitOn separator) : separator ∉ part := by
  by_cases occurs : separator ∈ text
  · rcases List.eq_append_cons_of_mem occurs with ⟨first, others, joined, fresh⟩
    rw [joined, List.splitOn_append_cons_self_of_not_mem fresh] at member
    rcases List.mem_cons.mp member with equal | later
    · exact equal ▸ fresh
    · exact separator_not_mem_of_mem_splitOn later
  · rw [List.splitOn_eq_singleton occurs] at member
    exact List.mem_singleton.mp member ▸ occurs
termination_by text.length
decreasing_by
  rw [joined]
  simp only [List.length_append, List.length_cons]
  omega

theorem joinWith_cons_cons (separator : Char) (first second : Text) (others : List Text) :
    joinWith [separator] (first :: second :: others) =
      first ++ separator :: joinWith [separator] (second :: others) := by
  simp [joinWith, List.intercalate_cons_of_ne_nil]

/-- The parts of a text are together no longer than it. -/
theorem length_flatten_splitOn_le (separator : Char) (text : Text) :
    (text.splitOn separator).flatten.length ≤ text.length := by
  by_cases occurs : separator ∈ text
  · rcases List.eq_append_cons_of_mem occurs with ⟨first, others, joined, fresh⟩
    have behind := length_flatten_splitOn_le separator others
    rw [joined, List.splitOn_append_cons_self_of_not_mem fresh, List.flatten_cons,
      List.length_append, List.length_append, List.length_cons]
    omega
  · have whole : (text.splitOn separator).flatten = text := by
      rw [List.splitOn_eq_singleton occurs, List.flatten_singleton]
    exact Nat.le_of_eq (congrArg List.length whole)
termination_by text.length
decreasing_by
  rw [joined]
  simp only [List.length_append, List.length_cons]
  omega

end Text
end PageComposer
