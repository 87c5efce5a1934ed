import Mathlib.Data.List.Infix
import PageComposer.Kind
import PageComposer.Text.Search

namespace PageComposer
namespace Text

/-!
# Searching a text put together from parts

A first occurrence is found part by part.  A part in which no occurrence can
start, whatever follows it, is passed over as a whole (`cut?_quiet_append`),
and an occurrence that is found stays the first one when more text is added
behind (`cut?_append_of_found`).  The closing of a tag never overlaps itself,
so a body without a closing is found back in front of one
(`cut?_tagClose_append`).
-/

theorem cutFrom?_eq_map (needle seen text : Text) :
    cutFrom? needle seen text =
      (cut? needle text).map fun pieces => (seen.reverse ++ pieces.1, pieces.2) := by
  induction text generalizing seen with
  | nil =>
      unfold cut? cutFrom?
      split <;> simp
  | cons head rest inductionHypothesis =>
      unfold cut?
      rw [cutFrom?, cutFrom?]
      split
      · simp
      · rw [inductionHypothesis (head :: seen), inductionHypothesis [head], Option.map_map]
        congr 1
        funext pieces
        simp

theorem cut?_self_append (needle rest : Text) : cut? needle (needle ++ rest) = some ([], rest) := by
  unfold cut?
  cases joined : needle ++ rest with
  | nil =>
      rcases List.append_eq_nil_iff.mp joined with ⟨emptyNeedle, emptyRest⟩
      subst emptyNeedle emptyRest
      rfl
  | cons head others =>
      have here := isPrefixOf?_eq_some_iff.mpr joined.symm
      rw [cutFrom?, here]
      rfl

theorem dropStart?_append (start rest : Text) : dropStart? start (start ++ rest) = some rest :=
  isPrefixOf?_eq_some_iff.mpr rfl

theorem dropStart?_eq_none_iff {start text : Text} :
    dropStart? start text = none ↔ ¬ start <+: text := by
  constructor
  · rintro nothing ⟨rest, joined⟩
    rw [← joined, dropStart?_append] at nothing
    cases nothing
  · intro absent
    cases dropped : dropStart? start text with
    | none => rfl
    | some rest => exact absurd ⟨rest, (isPrefixOf?_eq_some_iff.mp dropped).symm⟩ absent

theorem cut?_cons {needle : Text} {head : Char} {rest : Text}
    (absent : ¬ needle <+: head :: rest) :
    cut? needle (head :: rest) =
      (cut? needle rest).map fun pieces => (head :: pieces.1, pieces.2) := by
  unfold cut?
  rw [cutFrom?]
  split
  · rename_i after here
    exact absurd ⟨after, (isPrefixOf?_eq_some_iff.mp here).symm⟩ absent
  · exact cutFrom?_eq_map needle [head] rest

/-- No occurrence of `needle` starts inside the text, whatever follows it. -/
def Quiet (needle text : Text) : Prop :=
  ∀ back, back <:+ text -> back ≠ [] -> ∀ rest, ¬ needle <+: back ++ rest

theorem Quiet.of_isPrefix {shorter needle text : Text} (leads : shorter <+: needle)
    (quiet : Quiet shorter text) : Quiet needle text := by
  intro back suffix nonempty rest occurs
  exact quiet back suffix nonempty rest (leads.trans occurs)

/-- Neither of two texts begins with the other. -/
def Apart (one other : Text) : Prop :=
  ¬ one <+: other ∧ ¬ other <+: one

instance (one other : Text) : Decidable (Apart one other) :=
  inferInstanceAs (Decidable (_ ∧ _))

theorem Apart.not_isPrefix_append {one other : Text} (apart : Apart one other) (rest : Text) :
    ¬ one <+: other ++ rest := by
  intro leads
  rcases List.prefix_or_prefix_of_prefix leads (List.prefix_append other rest) with inside | beyond
  · exact apart.1 inside
  · exact apart.2 beyond

/-- No occurrence starts where the rest of the text differs from the needle. -/
theorem quiet_of_apart {needle text : Text}
    (apart : ∀ back ∈ text.tails, back ≠ [] -> Apart needle back) : Quiet needle text :=
  fun back suffix nonempty rest =>
    (apart back ((List.mem_tails back text).mpr suffix) nonempty).not_isPrefix_append rest

/-- The text does not end with a beginning of `needle`. -/
def EndsClear (needle text : Text) : Prop :=
  ∀ part, part <+: needle -> part ≠ [] -> ¬ part <:+ text

theorem endsClear_iff {needle text : Text} :
    EndsClear needle text ↔ ∀ part ∈ needle.inits, part ≠ [] -> ¬ part <:+ text := by
  simp only [EndsClear, List.mem_inits]

instance (needle text : Text) : Decidable (EndsClear needle text) :=
  decidable_of_iff _ endsClear_iff.symm

theorem quiet_of_endsClear {needle text : Text} (absent : ¬ needle <:+: text)
    (clear : EndsClear needle text) : Quiet needle text := by
  intro back suffix nonempty rest leads
  rcases List.prefix_or_prefix_of_prefix leads (List.prefix_append back rest) with inside | beyond
  · exact absent (inside.isInfix.trans suffix.isInfix)
  · exact clear back beyond nonempty suffix

/-- Put a text back in front of what was found behind it. -/
def putBefore (front : Text) (pieces : Text × Text) : Text × Text :=
  (front ++ pieces.1, pieces.2)

theorem putBefore_append (front back : Text) (found : Option (Text × Text)) :
    (found.map (putBefore back)).map (putBefore front) = found.map (putBefore (front ++ back)) := by
  cases found <;> simp [putBefore]

/-- The search for a needle finds in a text with another one in front of it what
it finds in the text alone. -/
def Passes (needle front rest : Text) : Prop :=
  cut? needle (front ++ rest) = (cut? needle rest).map (putBefore front)

theorem passes_of_absent {needle front rest : Text}
    (absent : ∀ back, back <:+ front -> back ≠ [] -> ¬ needle <+: back ++ rest) :
    Passes needle front rest := by
  induction front with
  | nil =>
      unfold Passes
      cases found : cut? needle rest <;> simp [putBefore, found]
  | cons head others inductionHypothesis =>
      have here := absent (head :: others) List.suffix_rfl (List.cons_ne_nil _ _)
      have behind : Passes needle others rest :=
        inductionHypothesis fun back suffix =>
          absent back (suffix.trans (List.suffix_cons head others))
      unfold Passes at behind ⊢
      rw [List.cons_append] at here ⊢
      rw [cut?_cons here, behind, Option.map_map]
      rfl

theorem Passes.not_isInfix {needle front rest : Text} (passes : Passes needle front rest)
    (absent : ¬ needle <:+: rest) : ¬ needle <:+: front ++ rest := by
  rw [← cut?_eq_none_iff] at absent ⊢
  rw [passes, absent]
  rfl

theorem cut?_quiet_append {needle text : Text} (quiet : Quiet needle text) (rest : Text) :
    cut? needle (text ++ rest) = (cut? needle rest).map (putBefore text) :=
  passes_of_absent fun back suffix nonempty => quiet back suffix nonempty rest

/-- Text added behind a first occurrence does not move it. -/
theorem cut?_append_of_found {needle text before after : Text}
    (found : cut? needle text = some (before, after)) (more : Text) :
    cut? needle (text ++ more) = some (before, after ++ more) := by
  induction text generalizing before with
  | nil =>
      rcases List.append_eq_nil_iff.mp (cut?_join found).symm with ⟨empty, emptyAfter⟩
      rcases List.append_eq_nil_iff.mp empty with ⟨emptyBefore, emptyNeedle⟩
      subst emptyBefore emptyNeedle emptyAfter
      exact cut?_self_append [] more
  | cons head rest inductionHypothesis =>
      by_cases here : needle <+: head :: rest
      · rcases here with ⟨behind, joined⟩
        rw [← joined, cut?_self_append] at found
        cases found
        rw [← joined, List.append_assoc, cut?_self_append]
      · rw [cut?_cons here] at found
        rcases Option.map_eq_some_iff.mp found with ⟨pieces, later, equal⟩
        cases equal
        have absent : ¬ needle <+: head :: (rest ++ more) := by
          intro leads
          apply here
          have lengths := cut?_length later
          apply List.prefix_of_prefix_length_le leads (List.prefix_append (head :: rest) more)
          simp only [List.length_cons]
          omega
        rw [List.cons_append, cut?_cons absent, inductionHypothesis later]
        rfl

/-- What is in front of the first occurrence of a needle has none. -/
theorem not_isInfix_of_cut? {needle text before after : Text}
    (found : cut? needle text = some (before, after)) (nonempty : needle ≠ []) :
    ¬ needle <:+: before := by
  rintro ⟨left, right, inside⟩
  have occurs : text = left ++ needle ++ (right ++ needle ++ after) := by
    rw [cut?_join found, ← inside]
    simp only [List.append_assoc]
  have first := cut?_first found occurs
  have lengths := congrArg List.length inside
  have positive := List.length_pos_iff.mpr nonempty
  simp only [List.length_append] at lengths
  omega

theorem not_tagClose_isPrefix_append {head : Char} {inside : Text}
    (unclosed : ¬ tagClose <+: head :: inside) (rest : Text) :
    ¬ tagClose <+: head :: (inside ++ (tagClose ++ rest)) := by
  intro leads
  by_cases long : 4 ≤ (head :: inside).length
  · have front := List.prefix_append (head :: inside) (tagClose ++ rest)
    exact unclosed (List.prefix_of_prefix_length_le leads front long)
  · rcases leads with ⟨after, joined⟩
    -- A shorter body would have to continue with the blank that the closing starts with.
    rcases inside with _ | ⟨first, _ | ⟨second, _ | ⟨third, more⟩⟩⟩
    · simp [tagClose] at joined
    · simp [tagClose] at joined
    · simp [tagClose] at joined
    · simp at long

/-- A body without a closing ends where the next closing starts. -/
theorem cut?_tagClose_append {inside : Text} (unclosed : ¬ tagClose <:+: inside) (rest : Text) :
    cut? tagClose (inside ++ tagClose ++ rest) = some (inside, rest) := by
  induction inside with
  | nil => exact cut?_self_append tagClose rest
  | cons head others inductionHypothesis =>
      rw [List.infix_cons_iff, not_or] at unclosed
      have absent := not_tagClose_isPrefix_append unclosed.1 rest
      rw [List.append_assoc, List.cons_append, cut?_cons absent, ← List.append_assoc,
        inductionHypothesis unclosed.2]
      rfl

/-- Bodies without a closing are told apart by the text up to their closings. -/
theorem append_tagClose_inj {left right leftMore rightMore : Text}
    (leftUnclosed : ¬ tagClose <:+: left) (rightUnclosed : ¬ tagClose <:+: right)
    (joined : left ++ tagClose ++ leftMore = right ++ tagClose ++ rightMore) :
    left = right ∧ leftMore = rightMore := by
  have found := cut?_tagClose_append leftUnclosed leftMore
  rw [joined, cut?_tagClose_append rightUnclosed rightMore] at found
  cases found
  exact ⟨rfl, rfl⟩

end Text
end PageComposer
