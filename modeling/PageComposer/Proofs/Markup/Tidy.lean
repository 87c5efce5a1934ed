import PageComposer.Proofs.Markup.Sound
import PageComposer.Scan.Tags

namespace PageComposer

/-!
# What a tag is made of

A tidy text may stand inside a comment.  Names and arguments are taken out of
the body of a tag at characters that separate, so they are tidy as well, and so
is everything that is put together from them with the same characters.
-/

namespace Tidy

variable {text more : Text}

theorem of_suffix (suffix : text <:+ more) (tidy : Tidy more) : Tidy text :=
  ⟨isPlain_of_suffix suffix tidy.plain, fun closed => tidy.unclosed (closed.trans suffix.isInfix)⟩

/-- What stands in front of a separator. -/
theorem of_separator {separator : Char} (separate : separates separator = true)
    (tidy : Tidy (text ++ separator :: more)) : Tidy text := by
  refine ⟨isPlain_of_separator separate tidy.plain, fun closed => tidy.unclosed ?_⟩
  exact closed.trans (List.prefix_append _ _).isInfix

theorem of_without (bracketless : '<' ∉ text) (blankless : ' ' ∉ text) : Tidy text := by
  refine ⟨isPlain_of_without_bracket bracketless, ?_⟩
  rintro ⟨before, after, joined⟩
  apply blankless
  rw [← joined]
  simp [tagClose]

theorem nil : Tidy [] :=
  of_without (by simp) (by simp)

/-- Two tidy texts around a character that is in no closing and opens nothing. -/
theorem append_cons {separator : Char} (foreign : separator ∉ tagClose)
    (bracketless : separator ≠ '<') (front : Tidy text) (back : Tidy more) :
    Tidy (text ++ separator :: more) := by
  refine ⟨?_, ?_⟩
  · apply isPlain_append front.plain
    exact isPlain_cons.mpr ⟨fun equal => absurd equal bracketless, back.plain⟩
  · intro closed
    rcases Text.isInfix_of_isInfix_append_cons foreign closed with inside | behind
    · exact front.unclosed inside
    · exact back.unclosed behind

/-- A tidy text behind one in which no closing can start. -/
theorem append_of_without (bracketless : '<' ∉ text) (blankless : ' ' ∉ text)
    (back : Tidy more) : Tidy (text ++ more) := by
  refine ⟨isPlain_append (isPlain_of_without_bracket bracketless) back.plain, ?_⟩
  intro closed
  exact back.unclosed (Text.infix_of_infix_append blankless closed)

theorem trim (tidy : Tidy text) : Tidy (Text.trim text) := by
  rcases Text.trim_join text with ⟨leading, trailing, _, trailingBlank, joined⟩
  have back : Tidy (Text.trim text ++ trailing) := by
    apply tidy.of_suffix
    exact ⟨leading, by rw [← List.append_assoc, ← joined]⟩
  cases trailing with
  | nil => rwa [List.append_nil] at back
  | cons blank others =>
      exact back.of_separator (separates_of_isBlank (trailingBlank blank List.mem_cons_self))

theorem cutAtChar? {separator : Char} (separate : separates separator = true) {before after : Text}
    (tidy : Tidy text) (cut : Text.cutAtChar? separator text = some (before, after)) :
    Tidy before ∧ Tidy after := by
  rw [Text.cutAtChar?_join cut] at tidy
  refine ⟨tidy.of_separator separate, tidy.of_suffix ?_⟩
  exact ⟨before ++ [separator], by simp⟩

/-- The text without a separator at its end, if there is one. -/
theorem getD_dropEnd? {separator : Char} (separate : separates separator = true)
    (tidy : Tidy text) : Tidy ((Text.dropEnd? [separator] text).getD text) := by
  cases dropped : Text.dropEnd? [separator] text with
  | none => exact tidy
  | some before =>
      rw [Text.dropEnd?_eq_some_iff.mp dropped] at tidy
      exact tidy.of_separator separate

theorem of_mem_splitOn {separator : Char} (separate : separates separator = true)
    (tidy : Tidy text) {part : Text} (member : part ∈ text.splitOn separator) : Tidy part := by
  rcases Text.field_of_mem_splitOn text member with ⟨before, after, joined, ends⟩
  have back : Tidy (part ++ after) := by
    apply tidy.of_suffix
    exact ⟨before, by rw [← List.append_assoc, ← joined]⟩
  rcases ends with empty | ⟨rest, equal⟩
  · rwa [empty, List.append_nil] at back
  · rw [equal] at back
    exact back.of_separator separate

theorem joinWith {separator : Char} (foreign : separator ∉ tagClose)
    (bracketless : separator ≠ '<') {parts : List Text} (each : ∀ part ∈ parts, Tidy part) :
    Tidy (Text.joinWith [separator] parts) := by
  induction parts with
  | nil => exact nil
  | cons first others inductionHypothesis =>
      rw [List.forall_mem_cons] at each
      cases others with
      | nil => simpa [Text.joinWith, List.intercalate] using each.1
      | cons second rest =>
          rw [Text.joinWith_cons_cons]
          exact each.1.append_cons foreign bracketless (inductionHypothesis each.2)

end Tidy

/-! ## Names -/

theorem name_isPrefix_ofContent (raw : Text) : (Body.ofContent raw).name <+: raw := by
  unfold Body.ofContent
  extract_lets named
  have shown : named <+: raw := by
    unfold named
    split
    · rename_i before after cut
      split
      · exact List.prefix_rfl
      · exact Text.isPrefix_of_cutAtChar? cut
    · exact List.prefix_rfl
  split
  · rename_i before inner cut
    split
    · exact shown
    · exact (Text.isPrefix_of_cutAtChar? cut).trans shown
  · exact shown

theorem name_isPrefix_ofColonForm (raw : Text) : (Body.ofColonForm raw).name <+: raw := by
  unfold Body.ofColonForm
  split
  · rename_i name args cut
    split
    · exact List.nil_prefix
    · exact Text.isPrefix_of_cutAtChar? cut
  · exact List.prefix_rfl

theorem name_isPrefix_of_ofCall {raw tag : Text} {body : Body}
    (taken : Body.ofCall raw tag = .ok body) : body.name <+: raw := by
  unfold Body.ofCall at taken
  dsimp only at taken
  split at taken
  · rename_i name inner found
    rcases Option.bind_eq_some_iff.mp found with ⟨⟨before, after⟩, cut, rest⟩
    rcases Option.bind_eq_some_iff.mp rest with ⟨other, _, equal⟩
    split at taken
    · cases taken
      cases equal
      exact Text.isPrefix_of_cutAtChar? cut
    · cases taken
  · cases taken
    exact name_isPrefix_ofColonForm raw

/-- A name is written at the front of its tag. -/
theorem name_isPrefix_of_ofRaw {kind : Kind} {raw tag : Text} {body : Body}
    (taken : Body.ofRaw kind raw tag = .ok body) : body.name <+: raw := by
  unfold Body.ofRaw at taken
  split at taken
  · cases taken
    exact name_isPrefix_ofContent raw
  · exact name_isPrefix_of_ofCall taken
  · exact name_isPrefix_of_ofCall taken
  all_goals
    cases taken
    exact List.prefix_rfl

/-! ## Bodies -/

/-- A name and arguments that may stand inside a comment. -/
structure TidyParts (name : Text) (args : List Text) : Prop where
  name : Tidy name
  args : ∀ arg ∈ args, Tidy arg

theorem tidyParts_plain {raw : Text} (tidy : Tidy raw) :
    TidyParts (Body.plain raw).name (Body.plain raw).args :=
  ⟨tidy, by simp [Body.plain]⟩

theorem tidy_of_mem_splitArgs {separator : Char} (separate : separates separator = true)
    {text : Text} (tidy : Tidy text) : ∀ arg ∈ Body.splitArgs separator text, Tidy arg := by
  intro arg member
  rcases List.mem_map.mp (List.mem_filter.mp member).1 with ⟨part, field, equal⟩
  rw [← equal]
  exact (tidy.of_mem_splitOn separate field).trim

theorem tidyParts_ofContent {raw : Text} (tidy : Tidy raw) :
    TidyParts (Body.ofContent raw).name (Body.ofContent raw).args := by
  have called {named before inner : Text} (namedTidy : Tidy named)
      (cut : Text.cutAtChar? '(' named = some (before, inner)) :
      TidyParts before [(Text.dropEnd? [')'] inner).getD inner] := by
    have parts := namedTidy.cutAtChar? (by decide) cut
    refine ⟨parts.1, ?_⟩
    intro arg member
    rw [List.mem_singleton.mp member]
    exact @Tidy.getD_dropEnd? _ ')' (by decide) parts.2
  unfold Body.ofContent
  cases colon : Text.cutAtChar? ':' raw with
  | none =>
      dsimp only
      split
      · rename_i before inner cut
        split
        · exact tidyParts_plain tidy
        · exact called tidy cut
      · exact tidyParts_plain tidy
  | some parts =>
      have namedTidy : Tidy (if parts.1.isEmpty then raw else parts.1) := by
        split
        · exact tidy
        · exact (@Tidy.cutAtChar? _ ':' (by decide) parts.1 parts.2 tidy colon).1
      dsimp only
      generalize (if parts.1.isEmpty then raw else parts.1) = named at namedTidy ⊢
      split
      · rename_i before inner cut
        split
        · exact tidyParts_plain namedTidy
        · exact called namedTidy cut
      · exact tidyParts_plain namedTidy

theorem tidyParts_ofColonForm {raw : Text} (tidy : Tidy raw) :
    TidyParts (Body.ofColonForm raw).name (Body.ofColonForm raw).args := by
  unfold Body.ofColonForm
  split
  · rename_i name args cut
    have parts := tidy.cutAtChar? (by decide) cut
    split
    · exact tidyParts_plain Tidy.nil
    · exact ⟨parts.1, tidy_of_mem_splitArgs (by decide) parts.2⟩
  · exact tidyParts_plain tidy

theorem tidyParts_ofCall {raw tag : Text} {body : Body} (tidy : Tidy raw)
    (accepted : Body.ofCall raw tag = .ok body) : TidyParts body.name body.args := by
  unfold Body.ofCall at accepted
  dsimp only at accepted
  split at accepted
  · rename_i name inner found
    split at accepted
    · cases accepted
      rcases Option.bind_eq_some_iff.mp found with ⟨⟨before, behind⟩, cut, closed⟩
      rcases Option.bind_eq_some_iff.mp closed with ⟨inside, dropped, equal⟩
      cases equal
      have parts := tidy.cutAtChar? (by decide) cut
      have insideTidy : Tidy inner := by
        have joined : behind = inner ++ [')'] := Text.dropEnd?_eq_some_iff.mp dropped
        have ended := parts.2
        rw [joined] at ended
        exact ended.of_separator (by decide)
      exact ⟨parts.1, tidy_of_mem_splitArgs (by decide) insideTidy⟩
    · cases accepted
  · cases accepted
    exact tidyParts_ofColonForm tidy

theorem tidyParts_ofRaw {kind : Kind} {raw tag : Text} {body : Body} (tidy : Tidy raw)
    (accepted : Body.ofRaw kind raw tag = .ok body) : TidyParts body.name body.args := by
  cases kind with
  | content =>
      cases accepted
      exact tidyParts_ofContent tidy
  | layout => exact tidyParts_ofCall tidy accepted
  | wrap => exact tidyParts_ofCall tidy accepted
  | file =>
      cases accepted
      exact tidyParts_plain tidy
  | linkCss =>
      cases accepted
      exact tidyParts_plain tidy
  | linkScript =>
      cases accepted
      exact tidyParts_plain tidy

end PageComposer
