import PageComposer.Proofs.Text.Occurrence

namespace PageComposer
namespace Text

/-!
# Replacing every occurrence

`replaceAll` is defined by the first occurrence and what follows it.  The laws
here step through the text from its front instead: an occurrence at the front is
replaced, and any other character is kept.
-/

variable {needle replacement : Text}

theorem cutAll_of_absent {text : Text} (absent : ¬ needle <:+: text) :
    cutAll needle text = ([], text) := by
  rw [cutAll]
  split
  · rfl
  · rename_i found
    rw [cut?_eq_none_iff.mpr absent] at found
    cases found

theorem cutAll_of_found (nonempty : 0 < needle.length) {text before after : Text}
    (found : cut? needle text = some (before, after)) :
    cutAll needle text = (before :: (cutAll needle after).1, (cutAll needle after).2) := by
  rw [cutAll]
  split
  · rename_i nothing
    rw [found] at nothing
    cases nothing
  · rename_i equal
    rw [found] at equal
    cases equal
    rw [if_pos nonempty]

theorem replaceAll_eq_self {text : Text} (absent : ¬ needle <:+: text) :
    replaceAll needle replacement text = text := by
  simp [replaceAll, cutAll_of_absent absent]

theorem replaceAll_of_found (nonempty : 0 < needle.length) {text before after : Text}
    (found : cut? needle text = some (before, after)) :
    replaceAll needle replacement text =
      before ++ replacement ++ replaceAll needle replacement after := by
  simp only [replaceAll, cutAll_of_found nonempty found, List.flatMap_cons, List.append_assoc]

/-- What a search passes over stays. -/
theorem replaceAll_passes (nonempty : 0 < needle.length) {front rest : Text}
    (passes : Passes needle front rest) :
    replaceAll needle replacement (front ++ rest) =
      front ++ replaceAll needle replacement rest := by
  cases found : cut? needle rest with
  | none =>
      have absent := cut?_eq_none_iff.mp found
      rw [replaceAll_eq_self absent, replaceAll_eq_self (passes.not_isInfix absent)]
  | some pieces =>
      have behind : cut? needle (front ++ rest) = some (front ++ pieces.1, pieces.2) := by
        rw [passes, found]
        rfl
      rw [replaceAll_of_found nonempty behind, replaceAll_of_found nonempty found]
      simp only [List.append_assoc]

theorem replaceAll_self_append (nonempty : 0 < needle.length) (rest : Text) :
    replaceAll needle replacement (needle ++ rest) =
      replacement ++ replaceAll needle replacement rest := by
  rw [replaceAll_of_found nonempty (cut?_self_append needle rest), List.nil_append]

theorem replaceAll_cons (nonempty : 0 < needle.length) {head : Char} {rest : Text}
    (absent : ¬ needle <+: head :: rest) :
    replaceAll needle replacement (head :: rest) =
      head :: replaceAll needle replacement rest := by
  have behind := cut?_cons absent
  cases found : cut? needle rest with
  | none =>
      rw [found] at behind
      rw [replaceAll_eq_self (cut?_eq_none_iff.mp behind),
        replaceAll_eq_self (cut?_eq_none_iff.mp found)]
  | some pieces =>
      rw [found] at behind
      rw [replaceAll_of_found nonempty behind, replaceAll_of_found nonempty found]
      rfl

end Text
end PageComposer
