import PageComposer.Proofs.Markup.Sound
import PageComposer.Proofs.Text.Replacing

namespace PageComposer

/-!
# Marked links in sound texts

A clean text has no marked link and no editable attribute, so reading it as a
document changes nothing.  When a wrapper is put around a clean text a marked
link can still arise at a seam.  Unless it is a relative one, whose value is
computed anew, it only loses its mark, and a sound text stays sound: what is
taken out follows a quote, and no opening of an element or a comment holds one.
-/

/-- The text with the mark of every marked link taken off. -/
def unlink (text : Text) : Text :=
  Text.replaceAll linkMark ['"'] text

/-- A marked link whose value is relative stands in the text. -/
def HasRelativeLink (text : Text) : Prop :=
  linkMark ++ climbingStart <:+: text ∨ linkMark ++ stayingStart <:+: text

instance (text : Text) : Decidable (HasRelativeLink text) :=
  decidable_of_iff
    (Text.contains (linkMark ++ climbingStart) text = true ∨
      Text.contains (linkMark ++ stayingStart) text = true)
    (by rw [Text.contains_iff, Text.contains_iff, HasRelativeLink])

theorem addressLinks_eq_self {site : Site} {document : Path} {start text : Text}
    (absent : ¬ linkMark ++ start <:+: text) :
    addressLinks site document start text = text := by
  simp only [addressLinks, Text.cutAll_of_absent absent]

theorem resolveLinks_eq_unlink {site : Site} {document : Path} {text : Text}
    (absolute : ¬ HasRelativeLink text) : resolveLinks site document text = unlink text := by
  unfold HasRelativeLink at absolute
  rw [not_or] at absolute
  unfold resolveLinks
  simp only [addressLinks_eq_self absolute.1, addressLinks_eq_self absolute.2]
  rfl

theorem prepareEditable_eq_self {site : Site} {document : Path} {text : Text}
    (absent : ¬ editableAttribute <:+: text) : prepareEditable site document text = text := by
  unfold prepareEditable
  rw [completeEditable]
  split
  · rfl
  · rename_i found
    rw [Text.cut?_eq_none_iff.mpr absent] at found
    cases found

theorem not_hasRelativeLink {text : Text} (absent : ¬ linkMark <:+: text) :
    ¬ HasRelativeLink text := by
  rintro (climbing | staying)
  · exact absent ((List.prefix_append _ _).isInfix.trans climbing)
  · exact absent ((List.prefix_append _ _).isInfix.trans staying)

theorem resolveLinks_eq_self {site : Site} {document : Path} {text : Text}
    (absent : ¬ linkMark <:+: text) : resolveLinks site document text = text := by
  rw [resolveLinks_eq_unlink (not_hasRelativeLink absent)]
  exact Text.replaceAll_eq_self absent

/-- A clean text is read as a document without a change. -/
theorem Clean.resolveLinks_prepareEditable {site : Site} {document : Path} {text : Text}
    (clean : Clean text) :
    resolveLinks site document (prepareEditable site document text) = text := by
  rw [prepareEditable_eq_self clean.unedited, resolveLinks_eq_self clean.unlinked]

/-! ## Taking the marks off -/

theorem unlink_nil : unlink [] = [] :=
  Text.replaceAll_eq_self (by decide)

theorem unlink_mark (rest : Text) : unlink (linkMark ++ rest) = '"' :: unlink rest :=
  Text.replaceAll_self_append (by decide) rest

theorem unlink_cons {head : Char} {rest : Text} (absent : ¬ linkMark <+: head :: rest) :
    unlink (head :: rest) = head :: unlink rest :=
  Text.replaceAll_cons (by decide) absent

theorem not_linkMark_isPrefix {head : Char} (other : head ≠ '"') (rest : Text) :
    ¬ linkMark <+: head :: rest := by
  intro leads
  exact other (List.cons_prefix_cons.mp leads).1.symm

/-- What starts a text without its marks and holds no quote starts the text. -/
theorem isPrefix_of_isPrefix_unlink {needle text : Text} (without : '"' ∉ needle)
    (leads : needle <+: unlink text) : needle <+: text := by
  induction needle generalizing text with
  | nil => exact List.nil_prefix
  | cons first others inductionHypothesis =>
      rw [List.mem_cons, not_or] at without
      by_cases marked : linkMark <+: text
      · rcases marked with ⟨rest, joined⟩
        rw [← joined, unlink_mark] at leads
        exact absurd (List.cons_prefix_cons.mp leads).1.symm without.1
      · cases text with
        | nil =>
            rw [unlink_nil] at leads
            exact leads
        | cons head rest =>
            rw [unlink_cons marked] at leads
            rcases List.cons_prefix_cons.mp leads with ⟨same, behind⟩
            exact List.cons_prefix_cons.mpr ⟨same, inductionHypothesis without.2 behind⟩

theorem isInfix_of_isInfix_unlink {needle : Text} (without : '"' ∉ needle) (text : Text)
    (occurs : needle <:+: unlink text) : needle <:+: text := by
  by_cases marked : linkMark <+: text
  · rcases marked with ⟨rest, joined⟩
    have behind : needle <:+: unlink rest -> needle <:+: text := by
      intro later
      have inside := isInfix_of_isInfix_unlink without rest later
      rw [← joined]
      exact inside.trans (List.suffix_append _ _).isInfix
    rw [← joined, unlink_mark] at occurs
    rcases List.infix_cons_iff.mp occurs with here | later
    · cases needle with
      | nil => exact List.nil_infix
      | cons first others =>
          rw [(List.cons_prefix_cons.mp here).1] at without
          exact absurd List.mem_cons_self without
    · exact behind later
  · match text with
    | [] =>
        rw [unlink_nil] at occurs
        exact occurs
    | head :: rest =>
        have kept := unlink_cons marked
        rw [kept] at occurs
        rcases List.infix_cons_iff.mp occurs with here | later
        · rw [← kept] at here
          exact (isPrefix_of_isPrefix_unlink without here).isInfix
        · exact (isInfix_of_isInfix_unlink without rest later).trans
            (List.suffix_cons head rest).isInfix
termination_by text.length
decreasing_by
  · rw [← joined]
    simp only [linkMark, List.length_append, List.length_cons, List.length_nil]
    omega
  · simp

/-- No mark reaches over a character that is not in it. -/
theorem unlink_append_cons {separator : Char} (foreign : separator ∉ linkMark) (left right : Text) :
    unlink (left ++ separator :: right) = unlink left ++ separator :: unlink right := by
  by_cases marked : linkMark <+: left
  · rcases marked with ⟨rest, joined⟩
    rw [← joined, List.append_assoc, unlink_mark, unlink_mark,
      unlink_append_cons foreign rest right]
    rfl
  · match left with
    | [] =>
        have other : separator ≠ '"' := by
          intro equal
          rw [equal] at foreign
          exact foreign (by decide)
        rw [List.nil_append, unlink_cons (not_linkMark_isPrefix other right), unlink_nil]
        rfl
    | head :: rest =>
        have absent : ¬ linkMark <+: head :: (rest ++ separator :: right) := by
          intro leads
          exact marked (@Text.isPrefix_of_isPrefix_append_cons _ _ (head :: rest) _ foreign leads)
        rw [List.cons_append, unlink_cons absent, unlink_cons marked,
          unlink_append_cons foreign rest right]
        rfl
termination_by left.length
decreasing_by
  · rw [← joined]
    simp only [linkMark, List.length_append, List.length_cons, List.length_nil]
    omega
  · simp

/-! ## Sound texts stay sound -/

theorem opensElement_unlink {text : Text} (opens : opensElement text = true) :
    opensElement (unlink text) = true := by
  cases text with
  | nil => cases opens
  | cons head rest =>
      have other : head ≠ '"' := by
        intro equal
        rw [equal, opensElement_cons rest (by decide) (by decide)] at opens
        exact absurd opens (by decide)
      rw [unlink_cons (not_linkMark_isPrefix other rest)]
      by_cases slash : head = '/'
      · subst slash
        rfl
      · by_cases bang : head = '!'
        · subst bang
          cases rest with
          | nil => exact absurd opens (by decide)
          | cons next more =>
              have letter : isLetter next = true := opens
              have noQuote : next ≠ '"' := by
                intro equal
                rw [equal] at letter
                exact absurd letter (by decide)
              rw [unlink_cons (not_linkMark_isPrefix noQuote more)]
              exact letter
        · rw [opensElement_cons _ slash bang] at opens ⊢
          exact opens

theorem unlink_comment (body rest : Text) :
    unlink (['!', '-', '-'] ++ (body ++ tagClose ++ rest)) =
      ['!', '-', '-'] ++ (unlink body ++ tagClose ++ unlink rest) := by
  have opening (text : Text) :
      unlink (['!', '-', '-'] ++ text) = ['!', '-', '-'] ++ unlink text := by
    simp only [List.cons_append, List.nil_append]
    rw [unlink_cons (not_linkMark_isPrefix (by decide) _),
      unlink_cons (not_linkMark_isPrefix (by decide) _),
      unlink_cons (not_linkMark_isPrefix (by decide) _)]
  have closing : unlink (['-', '-', '>'] ++ rest) = ['-', '-', '>'] ++ unlink rest := by
    simp only [List.cons_append, List.nil_append]
    rw [unlink_cons (not_linkMark_isPrefix (by decide) _),
      unlink_cons (not_linkMark_isPrefix (by decide) _),
      unlink_cons (not_linkMark_isPrefix (by decide) _)]
  have blank := @unlink_append_cons ' ' (by decide) body (['-', '-', '>'] ++ rest)
  rw [opening, List.append_assoc, List.append_assoc]
  change _ ++ unlink (body ++ ' ' :: (['-', '-', '>'] ++ rest)) = _
  rw [blank, closing]
  rfl

theorem opensComment_unlink {text : Text} (opens : opensComment text = true) :
    opensComment (unlink text) = true := by
  rcases opensComment_iff.mp opens with ⟨body, rest, joined, spaced, unclosed, single⟩
  apply opensComment_iff.mpr
  refine ⟨unlink body, unlink rest, by rw [joined, unlink_comment], ?_, ?_, ?_⟩
  · cases body with
    | nil =>
        rw [unlink_nil]
        exact spaced
    | cons head others =>
        have blank : ' ' = head :=
          (List.cons_prefix_cons.mp (List.isPrefixOf_iff_prefix.mp spaced)).1
        subst blank
        rw [unlink_cons (not_linkMark_isPrefix (by decide) others)]
        rfl
  · intro closed
    exact unclosed (isInfix_of_isInfix_unlink (by decide) body closed)
  · intro begun
    exact single (isInfix_of_isInfix_unlink (by decide) body begun)

theorem wellOpened_unlink (text : Text) (opened : wellOpened text = true) :
    wellOpened (unlink text) = true := by
  by_cases marked : linkMark <+: text
  · rcases marked with ⟨rest, joined⟩
    have behind : wellOpened rest = true := wellOpened_of_suffix ⟨linkMark, joined⟩ opened
    rw [← joined, unlink_mark]
    apply wellOpened_cons.mpr
    exact ⟨fun bracket => absurd bracket (by decide), wellOpened_unlink rest behind⟩
  · match text with
    | [] =>
        rw [unlink_nil]
        exact opened
    | head :: rest =>
        have parts := wellOpened_cons.mp opened
        rw [unlink_cons marked]
        apply wellOpened_cons.mpr
        refine ⟨fun bracket => ?_, wellOpened_unlink rest parts.2⟩
        exact (parts.1 bracket).imp opensElement_unlink opensComment_unlink
termination_by text.length
decreasing_by
  · rw [← joined]
    simp only [linkMark, List.length_append, List.length_cons, List.length_nil]
    omega
  · simp

theorem Sound.unlink {text : Text} (sound : Sound text) : Sound (unlink text) where
  unbegun begun := sound.unbegun (isInfix_of_isInfix_unlink (by decide) text begun)
  unended ended := sound.unended (isInfix_of_isInfix_unlink (by decide) text ended)
  opened := wellOpened_unlink text sound.opened

end PageComposer
