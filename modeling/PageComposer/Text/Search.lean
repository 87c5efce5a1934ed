import PageComposer.Text.Basic

namespace PageComposer
namespace Text

/-!
# First occurrences

`cut? needle text` splits a text around the first place where `needle`
stands.  Everything that searches markup is written with it: a search never
returns a bare index, but the text before and the text after, so that no later
step has to justify an index again.  The two texts join to the whole
(`cut?_join`), no occurrence starts earlier (`cut?_first`), and a search is in
vain only where there is none (`cut?_eq_none_iff`).
-/

/-- Search on, with the characters passed so far kept reversed in `seen`. -/
def cutFrom? (needle seen : Text) : Text -> Option (Text × Text)
  | [] => if needle.isEmpty then some (seen.reverse, []) else none
  | head :: rest =>
      match needle.isPrefixOf? (head :: rest) with
      | some after => some (seen.reverse, after)
      | none => cutFrom? needle (head :: seen) rest

/-- The texts before and after the first occurrence of `needle`. -/
def cut? (needle text : Text) : Option (Text × Text) :=
  cutFrom? needle [] text

/-- Whether `needle` occurs anywhere. -/
def contains (needle text : Text) : Bool :=
  (cut? needle text).isSome

theorem isPrefixOf?_eq_some_iff {needle text after : Text} :
    needle.isPrefixOf? text = some after ↔ text = needle ++ after := by
  induction needle generalizing text with
  | nil =>
      change some text = some after ↔ text = after
      exact Option.some_inj
  | cons head rest inductionHypothesis =>
      cases text with
      | nil =>
          change none = some after ↔ [] = head :: (rest ++ after)
          simp
      | cons first others =>
          change (if head == first then rest.isPrefixOf? others else none) = some after ↔
            first :: others = head :: (rest ++ after)
          by_cases same : head = first
          · subst same
            simp [inductionHypothesis]
          · have reversed : ¬ first = head := fun equal => same equal.symm
            simp [same, reversed]

theorem cutFrom?_join {needle seen text before after : Text}
    (found : cutFrom? needle seen text = some (before, after)) :
    seen.reverse ++ text = before ++ needle ++ after := by
  fun_induction cutFrom? needle seen text with
  | case1 seen empty =>
      have nothing : needle = [] := List.isEmpty_iff.mp empty
      simp only [Option.some.injEq, Prod.mk.injEq] at found
      simp [nothing, ← found.1, ← found.2]
  | case2 => simp at found
  | case3 seen head rest rest' here =>
      simp only [Option.some.injEq, Prod.mk.injEq] at found
      rw [isPrefixOf?_eq_some_iff.mp here, ← found.1, ← found.2, List.append_assoc]
  | case4 seen head rest absent inductionHypothesis =>
      simpa using inductionHypothesis found

/-- What `cut?` returns is the text itself, taken apart around `needle`. -/
theorem cut?_join {needle text before after : Text}
    (found : cut? needle text = some (before, after)) :
    text = before ++ needle ++ after := by
  simpa using cutFrom?_join found

/-- The text after an occurrence is shorter by at least the needle. -/
theorem cut?_length {needle text before after : Text}
    (found : cut? needle text = some (before, after)) :
    before.length + needle.length + after.length = text.length := by
  rw [cut?_join found]
  simp only [List.length_append]

theorem cutFrom?_eq_none_iff {needle seen text : Text} :
    cutFrom? needle seen text = none ↔ ¬ needle <:+: text := by
  induction text generalizing seen with
  | nil => simp [cutFrom?]
  | cons head rest inductionHypothesis =>
      unfold cutFrom?
      split
      · rename_i after here
        constructor
        · intro nothing
          cases nothing
        · intro absent
          apply False.elim
          apply absent
          exact ⟨[], after, (isPrefixOf?_eq_some_iff.mp here).symm⟩
      · rename_i elsewhere
        rw [inductionHypothesis, List.infix_cons_iff, not_or]
        constructor
        · intro absent
          refine ⟨?_, absent⟩
          rintro ⟨after, equal⟩
          have here := isPrefixOf?_eq_some_iff.mpr equal.symm
          rw [elsewhere] at here
          cases here
        · intro absent
          exact absent.2

/-- A text is searched in vain exactly when the needle is no part of it. -/
theorem cut?_eq_none_iff {needle text : Text} : cut? needle text = none ↔ ¬ needle <:+: text :=
  cutFrom?_eq_none_iff

theorem contains_iff {needle text : Text} : contains needle text = true ↔ needle <:+: text := by
  unfold contains
  cases found : cut? needle text with
  | none =>
      have absent := cut?_eq_none_iff.mp found
      simp [absent]
  | some pieces =>
      have equal := cut?_join found
      simp only [Option.isSome_some, true_iff]
      exact ⟨pieces.1, pieces.2, equal.symm⟩

theorem cutFrom?_first {needle seen text before after left right : Text}
    (found : cutFrom? needle seen text = some (before, after))
    (occurs : text = left ++ needle ++ right) :
    before.length ≤ seen.length + left.length := by
  induction text generalizing seen left with
  | nil =>
      unfold cutFrom? at found
      split at found
      · cases found
        simp
      · cases found
  | cons head rest inductionHypothesis =>
      unfold cutFrom? at found
      split at found
      · cases found
        simp
      · rename_i elsewhere
        cases left with
        | nil =>
            have here := (@isPrefixOf?_eq_some_iff needle _ right).mpr occurs
            rw [elsewhere] at here
            cases here
        | cons first others =>
            have shorter := inductionHypothesis found (List.cons.inj occurs).2
            simp only [List.length_cons] at shorter ⊢
            omega

/-- No occurrence starts before the one that `cut?` finds. -/
theorem cut?_first {needle text before after left right : Text}
    (found : cut? needle text = some (before, after))
    (occurs : text = left ++ needle ++ right) :
    before.length ≤ left.length := by
  have bound := cutFrom?_first found occurs
  simpa using bound

/-- The texts before and after the first character `separator`. -/
def cutAtChar? (separator : Char) (text : Text) : Option (Text × Text) :=
  cut? [separator] text

/-- The texts before and after the last character `separator`. -/
def cutAtLastChar? (separator : Char) (text : Text) : Option (Text × Text) :=
  (cutAtChar? separator text.reverse).map fun (after, before) =>
    (before.reverse, after.reverse)

/-- Every occurrence of `needle` that does not overlap an earlier one, each as
the text before it; what follows the last occurrence comes second. -/
def cutAll (needle : Text) (text : Text) : List Text × Text :=
  match _found : cut? needle text with
  | none => ([], text)
  | some (before, after) =>
      if 0 < needle.length then
        let others := cutAll needle after
        (before :: others.1, others.2)
      else ([], text)
termination_by text.length
decreasing_by
  have := cut?_length _found
  omega

/-- Put `replacement` in place of every occurrence of `needle` that does not
overlap an earlier one. -/
def replaceAll (needle replacement text : Text) : Text :=
  let pieces := cutAll needle text
  pieces.1.flatMap (· ++ replacement) ++ pieces.2

/-- Whether the text begins with `start`. -/
def startsWith (start text : Text) : Bool :=
  start.isPrefixOf text

/-- Whether the text ends with `ending`. -/
def endsWith (ending text : Text) : Bool :=
  ending.isSuffixOf text

/-- The rest after `start`, if the text begins with it. -/
def dropStart? (start text : Text) : Option Text :=
  start.isPrefixOf? text

/-- The part before `ending`, if the text ends with it. -/
def dropEnd? (ending text : Text) : Option Text :=
  ending.isSuffixOf? text

/-- The first line: up to the first line feed, less one carriage return right
before that line feed.  Without a line feed it is the whole text. -/
def firstLine (text : Text) : Text :=
  match cutAtChar? '\n' text with
  | none => text
  | some (line, _) => (dropEnd? ['\r'] line).getD line

end Text
end PageComposer
