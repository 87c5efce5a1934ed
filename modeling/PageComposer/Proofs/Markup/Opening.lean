import PageComposer.Attributes.Editable
import PageComposer.Attributes.Links
import PageComposer.Proofs.Text.Occurrence
import PageComposer.Region

namespace PageComposer

/-!
# What an opening angle bracket begins

In markup a `<` opens an element, a declaration or a comment.  Each of them
shows in the characters right behind the `<`, so that a text in which every
`<` is accounted for can be cut and joined without an opening being lost or
made at the seam.  `isPlain` is this condition without comments, and
`wellOpened` allows comments that are closed before the next one begins.

The characters that separate names and arguments inside a tag, and blanks,
never stand right behind such a `<`; a plain text therefore stays plain when it
is cut in front of one of them (`isPlain_of_separator`).
-/

/-- The opening of every comment. -/
def commentStart : Text := ['<', '!', '-', '-']

/-- A letter of any script: an ASCII letter, or a character beyond ASCII that is
no blank. -/
def isLetter (character : Char) : Bool :=
  character.isAlpha || (decide (0x80 ≤ character.toNat) && !Text.isBlank character)

/-- Whether a `<` in front of this text opens an element or a declaration. -/
def opensElement : Text -> Bool
  | '/' :: _ => true
  | '!' :: head :: _ => isLetter head
  | head :: _ => head.isAlpha
  | [] => false

/-- Whether a `<` in front of this text opens a comment that is closed before
the next one begins. -/
def opensComment (text : Text) : Bool :=
  match Text.dropStart? ['!', '-', '-'] text with
  | some inside =>
      Text.startsWith [' '] inside &&
        match Text.cut? tagClose inside with
        | some (body, _) => !Text.contains commentStart body
        | none => false
  | none => false

/-- Every `<` opens an element or a declaration. -/
def isPlain : Text -> Bool
  | [] => true
  | head :: rest => (head != '<' || opensElement rest) && isPlain rest

/-- Every `<` opens an element, a declaration or a comment that is closed before
the next one begins. -/
def wellOpened : Text -> Bool
  | [] => true
  | head :: rest => (head != '<' || opensElement rest || opensComment rest) && wellOpened rest

/-- A text without marked links, editable attributes and region comments, in
which every `<` is accounted for. -/
structure Clean (text : Text) : Prop where
  unlinked : ¬ linkMark <:+: text
  unedited : ¬ editableAttribute <:+: text
  unbegun : ¬ beginMarker <:+: text
  unended : ¬ endMarker <:+: text
  opened : wellOpened text = true

instance (text : Text) : Decidable (Clean text) :=
  decidable_of_iff
    (Text.contains linkMark text = false ∧ Text.contains editableAttribute text = false ∧
      Text.contains beginMarker text = false ∧ Text.contains endMarker text = false ∧
      wellOpened text = true)
    (by
      simp only [← Bool.not_eq_true, Text.contains_iff]
      constructor
      · rintro ⟨unlinked, unedited, unbegun, unended, opened⟩
        exact ⟨unlinked, unedited, unbegun, unended, opened⟩
      · rintro ⟨unlinked, unedited, unbegun, unended, opened⟩
        exact ⟨unlinked, unedited, unbegun, unended, opened⟩)

/-! ## Elements and declarations -/

/-- A character that cannot stand right behind the `<` of an element, or behind
the `<!` of a declaration. -/
def separates (character : Char) : Bool :=
  character != '/' && character != '!' && !isLetter character

theorem not_isAlpha_of_separates {character : Char} (separate : separates character = true) :
    character ≠ '/' ∧ character ≠ '!' ∧ character.isAlpha = false ∧ isLetter character = false := by
  simp only [separates, Bool.and_eq_true, bne_iff_ne, ne_eq, Bool.not_eq_true'] at separate
  have letter := separate.2
  simp only [isLetter, Bool.or_eq_false_iff] at letter
  exact ⟨separate.1.1, separate.1.2, letter.1, separate.2⟩

/-- Letters of ASCII stand within these bounds. -/
theorem toNat_of_isAlpha {character : Char} (alpha : character.isAlpha = true) :
    65 ≤ character.val.toNat ∧ character.val.toNat ≤ 122 := by
  rcases Bool.or_eq_true_iff.mp alpha with upper | lower
  · have bounds : 'A'.val ≤ character.val ∧ character.val ≤ 'Z'.val := of_decide_eq_true upper
    rw [UInt32.le_iff_toNat_le, UInt32.le_iff_toNat_le] at bounds
    have numbers : 65 ≤ character.val.toNat ∧ character.val.toNat ≤ 90 := bounds
    omega
  · have both := Bool.and_eq_true_iff.mp lower
    have first : 'a'.val ≤ character.val := of_decide_eq_true both.1
    have last : character.val ≤ 'z'.val := of_decide_eq_true both.2
    rw [UInt32.le_iff_toNat_le] at first last
    have numbers : 97 ≤ character.val.toNat ∧ character.val.toNat ≤ 122 := ⟨first, last⟩
    omega

theorem separates_of_isBlank {character : Char} (blank : Text.isBlank character = true) :
    separates character = true := by
  have notSlash : character ≠ '/' := by
    intro equal
    rw [equal] at blank
    exact absurd blank (by decide)
  have notBang : character ≠ '!' := by
    intro equal
    rw [equal] at blank
    exact absurd blank (by decide)
  have notAlpha : character.isAlpha = false := by
    apply Bool.eq_false_iff.mpr
    intro alpha
    simp only [Text.isBlank, Bool.or_eq_true, Bool.and_eq_true, beq_iff_eq, decide_eq_true_eq,
      Char.toNat] at blank
    have bounds := toNat_of_isAlpha alpha
    omega
  simp only [separates, isLetter, notAlpha, blank, Bool.not_true, Bool.and_false, Bool.or_false,
    Bool.not_false, Bool.and_true, Bool.and_eq_true, bne_iff_ne]
  exact ⟨notSlash, notBang⟩

theorem opensElement_cons {head : Char} (rest : Text) (notSlash : head ≠ '/')
    (notBang : head ≠ '!') : opensElement (head :: rest) = head.isAlpha := by
  unfold opensElement
  split
  · rename_i equal
    exact absurd (List.cons.inj equal).1 notSlash
  · rename_i equal
    exact absurd (List.cons.inj equal).1 notBang
  · rename_i equal
    rw [(List.cons.inj equal).1]
  · rename_i equal
    cases equal

theorem opensElement_append {text : Text} (opens : opensElement text = true) (more : Text) :
    opensElement (text ++ more) = true := by
  cases text with
  | nil => cases opens
  | cons head rest =>
      by_cases slash : head = '/'
      · subst slash
        rfl
      · by_cases bang : head = '!'
        · subst bang
          cases rest with
          | nil => exact absurd opens (by decide)
          | cons next others => exact opens
        · rw [opensElement_cons rest slash bang] at opens
          rw [List.cons_append, opensElement_cons _ slash bang]
          exact opens

theorem opensElement_of_separator {text : Text} {separator : Char} {more : Text}
    (separate : separates separator = true)
    (opens : opensElement (text ++ separator :: more) = true) : opensElement text = true := by
  rcases not_isAlpha_of_separates separate with ⟨separatorSlash, separatorBang, notAlpha, notLetter⟩
  cases text with
  | nil =>
      rw [List.nil_append, opensElement_cons more separatorSlash separatorBang, notAlpha] at opens
      cases opens
  | cons head rest =>
      by_cases slash : head = '/'
      · subst slash
        rfl
      · by_cases bang : head = '!'
        · subst bang
          cases rest with
          | nil =>
              change isLetter separator = true at opens
              rw [notLetter] at opens
              cases opens
          | cons next others => exact opens
        · rw [List.cons_append, opensElement_cons _ slash bang] at opens
          rw [opensElement_cons _ slash bang]
          exact opens

theorem isPlain_cons {head : Char} {rest : Text} :
    isPlain (head :: rest) = true ↔
      (head = '<' -> opensElement rest = true) ∧ isPlain rest = true := by
  rw [isPlain, Bool.and_eq_true, Bool.or_eq_true, bne_iff_ne]
  by_cases bracket : head = '<' <;> simp [bracket]

theorem isPlain_append {left right : Text} (first : isPlain left = true)
    (second : isPlain right = true) : isPlain (left ++ right) = true := by
  induction left with
  | nil => exact second
  | cons head rest inductionHypothesis =>
      have parts := isPlain_cons.mp first
      rw [List.cons_append]
      apply isPlain_cons.mpr
      exact ⟨fun bracket => opensElement_append (parts.1 bracket) right,
        inductionHypothesis parts.2⟩

theorem isPlain_of_suffix {text more : Text} (suffix : text <:+ more)
    (plain : isPlain more = true) : isPlain text = true := by
  rcases suffix with ⟨front, joined⟩
  subst joined
  induction front with
  | nil => exact plain
  | cons head rest inductionHypothesis => exact inductionHypothesis (isPlain_cons.mp plain).2

/-- A plain text stays plain when it is cut in front of a separator. -/
theorem isPlain_of_separator {text more : Text} {separator : Char}
    (separate : separates separator = true)
    (plain : isPlain (text ++ separator :: more) = true) : isPlain text = true := by
  induction text with
  | nil => rfl
  | cons head rest inductionHypothesis =>
      have parts := isPlain_cons.mp plain
      apply isPlain_cons.mpr
      exact ⟨fun bracket => opensElement_of_separator separate (parts.1 bracket),
        inductionHypothesis parts.2⟩

theorem isPlain_of_without_bracket {text : Text} (without : '<' ∉ text) : isPlain text = true := by
  induction text with
  | nil => rfl
  | cons head rest inductionHypothesis =>
      rw [List.mem_cons, not_or] at without
      apply isPlain_cons.mpr
      exact ⟨fun bracket => absurd bracket.symm without.1, inductionHypothesis without.2⟩

/-- No comment starts inside a plain text, whatever follows it. -/
theorem quiet_of_isPlain {text : Text} (plain : isPlain text = true) :
    Text.Quiet commentStart text := by
  intro back suffix nonempty rest leads
  cases back with
  | nil => exact nonempty rfl
  | cons head others =>
      rcases leads with ⟨after, joined⟩
      have here := isPlain_cons.mp (isPlain_of_suffix suffix plain)
      simp only [commentStart, List.cons_append, List.nil_append, List.cons.injEq] at joined
      have opens := here.1 joined.1.symm
      have behind := opensElement_append opens rest
      rw [← joined.2] at behind
      exact absurd behind (by simp [opensElement, isLetter])

end PageComposer
