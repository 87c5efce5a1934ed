import PageComposer.Text.Basic

namespace PageComposer
namespace Text

/-!
# White space

White space is the Unicode property `White_Space`.  The zero width space,
the word joiner and the byte order mark are not in it.
-/

/-- The characters with the property `White_Space`. -/
def isBlank (character : Char) : Bool :=
  let code := character.toNat
  (0x09 ≤ code && code ≤ 0x0D) || code == 0x20 || code == 0x85 || code == 0xA0 ||
    code == 0x1680 || (0x2000 ≤ code && code ≤ 0x200A) || code == 0x2028 ||
    code == 0x2029 || code == 0x202F || code == 0x205F || code == 0x3000

/-- Drop blanks from the front. -/
def trimStart (text : Text) : Text :=
  text.dropWhile isBlank

/-- Drop blanks from the back. -/
def trimEnd (text : Text) : Text :=
  (text.reverse.dropWhile isBlank).reverse

/-- Drop blanks from both ends. -/
def trim (text : Text) : Text :=
  trimEnd (trimStart text)

/-- The blanks at the front come off and nothing else. -/
theorem trimStart_join (text : Text) :
    ∃ blanks : Text, (∀ character ∈ blanks, isBlank character = true) ∧
      text = blanks ++ trimStart text := by
  refine ⟨text.takeWhile isBlank, ?_, List.takeWhile_append_dropWhile.symm⟩
  exact List.all_eq_true.mp List.all_takeWhile

theorem trimEnd_join (text : Text) :
    ∃ blanks : Text, (∀ character ∈ blanks, isBlank character = true) ∧
      text = trimEnd text ++ blanks := by
  obtain ⟨blanks, blank, equal⟩ := trimStart_join text.reverse
  refine ⟨blanks.reverse, ?_, ?_⟩
  · intro character member
    exact blank character (List.mem_reverse.mp member)
  · have reversed := congrArg List.reverse equal
    simpa [trimEnd, trimStart] using reversed

/-- Trimming takes blanks from both ends and nothing else. -/
theorem trim_join (text : Text) :
    ∃ leading trailing : Text,
      (∀ character ∈ leading, isBlank character = true) ∧
      (∀ character ∈ trailing, isBlank character = true) ∧
      text = leading ++ trim text ++ trailing := by
  obtain ⟨leading, leadingBlank, leadingJoin⟩ := trimStart_join text
  obtain ⟨trailing, trailingBlank, trailingJoin⟩ := trimEnd_join (trimStart text)
  refine ⟨leading, trailing, leadingBlank, trailingBlank, ?_⟩
  rw [List.append_assoc]
  exact leadingJoin.trans (congrArg (leading ++ ·) trailingJoin)

/-- What is kept stands in the text. -/
theorem trim_isInfix (text : Text) : trim text <:+: text := by
  rcases trim_join text with ⟨leading, trailing, _, _, joined⟩
  exact ⟨leading, trailing, joined.symm⟩

end Text
end PageComposer
