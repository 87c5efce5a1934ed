import PageComposer.Proofs.Markup.Links

namespace PageComposer

/-!
# Inert texts

Reading a text as a document completes its editable attributes and resolves its
marked links.  Each of the two looks for a word with a mark in it: an editable
attribute has a hyphen, and a marked link has a colon behind its opening.  An
inert text shows at every hyphen and every colon that the word is not there, or
that the attribute has a value, and it shows this by what stands in the text
itself.  Reading an inert text as a document changes nothing
(`Inert.resolveLinks_prepareEditable`).

Texts are put together and tags are replaced, so the text that shows it has to be
there afterwards.  What stands behind a bracket of a tag may be replaced, what
stands behind the end of a text is open, and blanks at an end may be taken off;
none of these counts (`speaksFrom`), and neither does what may be the beginning of
a bracket there.  That is why inert texts are closed under joining
(`Inert.append`), under taking a tag out (`Inert.around_tag`), and under trimming
(`Inert.trim`).
-/

/-- What a tag begins with, or what it ends with, read backwards. -/
structure Bracket where
  first : Char
  rest : Text
  fresh : first ∉ rest := by decide
  solid : Text.isBlank first = false := by decide

namespace Bracket

/-- The whole bracket. -/
def word (bracket : Bracket) : Text :=
  bracket.first :: bracket.rest

/-- A tag begins with this. -/
def opening : Bracket where
  first := '<'
  rest := ['!', '-', '-', ' ']

/-- A tag ends with this, read backwards. -/
def closing : Bracket where
  first := '>'
  rest := ['-', '-', ' ']

end Bracket

/-- Whether something is certain to stand in the text before a bracket of which so much is
still expected.  Blanks may be taken off, and then the bracket is expected again. -/
def speaksFrom (bracket : Bracket) : Text -> Text -> Bool
  | wanted :: others, head :: rest =>
      if head = wanted then speaksFrom bracket others rest
      else if Text.isBlank head then speaksFrom bracket bracket.word rest
      else if head = bracket.first then speaksFrom bracket bracket.rest rest
      else true
  | _, _ => false

/-- Whether something is certain to stand in the text before a bracket. -/
def speaks (bracket : Bracket) (text : Text) : Bool :=
  speaksFrom bracket bracket.word text

/-- Whether the text shows that it does not begin with the word. -/
def differs (bracket : Bracket) : Text -> Text -> Bool
  | wanted :: word, head :: rest =>
      if head = wanted then differs bracket word rest else speaks bracket (head :: rest)
  | _, _ => false

/-- What stands in front of the colon in a mark, read backwards. -/
def markBackwards : Text := ['s', 'p', '"']

/-- What stands in front of the hyphen in an editable attribute, read backwards. -/
def attributeBackwards : Text := ['a', 't', 'a', 'd']

/-- What stands behind the hyphen in an editable attribute. -/
def attributeForwards : Text := "editable".toList

/-- Whether the text behind a hyphen shows that an attribute there has a value. -/
def showsValue (after : Text) : Bool :=
  (Text.dropStart? (attributeForwards ++ ['=']) after).any (differs .opening ['"', '"'])

/-- Whether nothing is rewritten at a character.  The text in front of it comes
backwards. -/
def clearAt (before : Text) (character : Char) (after : Text) : Bool :=
  if character = ':' then differs .closing markBackwards before
  else if character = '-' then
    differs .closing attributeBackwards before || differs .opening attributeForwards after ||
      showsValue after
  else true

/-- Whether nothing is rewritten in the text when it stands behind `before`, which
comes backwards. -/
def inertBehind (before : Text) : Text -> Bool
  | [] => true
  | head :: after => clearAt before head after && inertBehind (head :: before) after

/-- A text in which nothing is rewritten, whatever it is put together with. -/
def Inert (text : Text) : Prop :=
  inertBehind [] text = true

instance (text : Text) : Decidable (Inert text) :=
  inferInstanceAs (Decidable (inertBehind [] text = true))

/-! ## What a text shows -/

section Showing

variable {bracket : Bracket} {expected word text more : Text}

theorem speaksFrom_append (shown : speaksFrom bracket expected text = true) (more : Text) :
    speaksFrom bracket expected (text ++ more) = true := by
  induction text generalizing expected with
  | nil => cases expected <;> cases shown
  | cons head rest inductionHypothesis =>
      cases expected with
      | nil => cases shown
      | cons wanted others =>
          rw [List.cons_append]
          rw [speaksFrom] at shown ⊢
          split at shown
          · rename_i same
            rw [if_pos same]
            exact inductionHypothesis shown
          · rename_i other
            rw [if_neg other]
            split at shown
            · rename_i blank
              rw [if_pos blank]
              exact inductionHypothesis shown
            · rename_i solid
              rw [if_neg solid]
              split at shown
              · rename_i again
                rw [if_pos again]
                exact inductionHypothesis shown
              · rename_i elsewhere
                rw [if_neg elsewhere]

/-- A text that never speaks, however much of the bracket is expected in front of it. -/
def Silent (bracket : Bracket) (text : Text) : Prop :=
  ∀ expected, expected <:+ bracket.word -> speaksFrom bracket expected text = false

theorem Silent.speaks_eq (silent : Silent bracket text) : speaks bracket text = false :=
  silent bracket.word (List.suffix_refl _)

theorem speaksFrom_of_append (silent : Silent bracket more) (begun : expected <:+ bracket.word)
    (shown : speaksFrom bracket expected (text ++ more) = true) :
    speaksFrom bracket expected text = true := by
  induction text generalizing expected with
  | nil =>
      rw [List.nil_append, silent expected begun] at shown
      cases shown
  | cons head rest inductionHypothesis =>
      cases expected with
      | nil => cases shown
      | cons wanted others =>
          rw [List.cons_append] at shown
          rw [speaksFrom] at shown ⊢
          split at shown
          · rename_i same
            rw [if_pos same]
            exact inductionHypothesis ((List.suffix_cons wanted others).trans begun) shown
          · rename_i other
            rw [if_neg other]
            split at shown
            · rename_i blank
              rw [if_pos blank]
              exact inductionHypothesis (List.suffix_refl _) shown
            · rename_i solid
              rw [if_neg solid]
              split at shown
              · rename_i again
                rw [if_pos again]
                exact inductionHypothesis (List.suffix_cons _ _) shown
              · rename_i elsewhere
                rw [if_neg elsewhere]

theorem silent_nil : Silent bracket [] := by
  intro expected _
  cases expected <;> rfl

theorem silent_of_blank {blanks : Text}
    (blank : ∀ character ∈ blanks, Text.isBlank character = true) : Silent bracket blanks := by
  induction blanks with
  | nil => exact silent_nil
  | cons head rest inductionHypothesis =>
      rw [List.forall_mem_cons] at blank
      have silent := inductionHypothesis blank.2
      intro expected begun
      cases expected with
      | nil => rfl
      | cons wanted others =>
          rw [speaksFrom]
          split
          · exact silent others ((List.suffix_cons wanted others).trans begun)
          · rw [if_pos blank.1]
            exact silent.speaks_eq

/-- A text that goes on with what is expected does not show otherwise. -/
theorem speaksFrom_self_append (bracket : Bracket) (expected rest : Text) :
    speaksFrom bracket expected (expected ++ rest) = false := by
  induction expected with
  | nil => rw [speaksFrom]; simp
  | cons wanted others inductionHypothesis =>
      rw [List.cons_append, speaksFrom, if_pos rfl]
      exact inductionHypothesis

/-- Whatever stands behind a bracket does not speak, and nor does the bracket. -/
theorem silent_word_append (bracket : Bracket) (rest : Text) :
    Silent bracket (bracket.word ++ rest) := by
  intro expected begun
  rcases List.suffix_cons_iff.mp begun with whole | inside
  · rw [whole]
    exact speaksFrom_self_append bracket bracket.word rest
  · cases expected with
    | nil => rfl
    | cons wanted others =>
        -- The bracket is not expected from its beginning, so it begins anew.
        have different : bracket.first ≠ wanted := by
          intro same
          exact bracket.fresh (same ▸ inside.subset List.mem_cons_self)
        rw [Bracket.word, List.cons_append, speaksFrom, if_neg different, bracket.solid,
          if_neg (by decide), if_pos rfl]
        exact speaksFrom_self_append bracket bracket.rest rest

/-- A word of characters that count. -/
def Solid (bracket : Bracket) (word : Text) : Prop :=
  ∀ character ∈ word, Text.isBlank character = false ∧ character ≠ bracket.first

instance (bracket : Bracket) (word : Text) : Decidable (Solid bracket word) :=
  decidable_of_iff
    (word.all (fun character => !Text.isBlank character && character != bracket.first) = true)
    (by simp [Solid])

theorem speaks_of_solid {head : Char} {rest : Text} (solid : Solid bracket (head :: rest))
    (text : Text) : speaks bracket (head :: rest ++ text) = true := by
  have first := solid head List.mem_cons_self
  rw [speaks, Bracket.word, List.cons_append, speaksFrom, if_neg first.2, first.1,
    if_neg (by decide), if_neg first.2]

theorem differs_append (shown : differs bracket word text = true) (more : Text) :
    differs bracket word (text ++ more) = true := by
  induction word generalizing text with
  | nil => cases shown
  | cons wanted others inductionHypothesis =>
      cases text with
      | nil => cases shown
      | cons head rest =>
          rw [List.cons_append]
          rw [differs] at shown ⊢
          split at shown
          · rename_i same
            rw [if_pos same]
            exact inductionHypothesis shown
          · rename_i other
            rw [if_neg other]
            exact speaksFrom_append shown more

theorem differs_of_append (solid : Solid bracket word) (silent : Silent bracket more)
    (shown : differs bracket word (text ++ more) = true) : differs bracket word text = true := by
  induction word generalizing text with
  | nil => cases shown
  | cons wanted others inductionHypothesis =>
      have first := solid wanted List.mem_cons_self
      cases text with
      | nil =>
          -- A character of the word would speak, and so would one that differs from it.
          rw [List.nil_append] at shown
          cases more with
          | nil => cases shown
          | cons head rest =>
              rw [differs] at shown
              split at shown
              · rename_i same
                have speaking := speaks_of_solid (List.forall_mem_singleton.mpr first) rest
                rw [← same, List.singleton_append, silent.speaks_eq] at speaking
                cases speaking
              · rw [silent.speaks_eq] at shown
                cases shown
      | cons head rest =>
          rw [List.cons_append] at shown
          rw [differs] at shown ⊢
          split at shown
          · rename_i same
            rw [if_pos same]
            exact inductionHypothesis
              (fun character member => solid character (List.mem_cons_of_mem _ member)) shown
          · rename_i other
            rw [if_neg other]
            exact speaksFrom_of_append silent (List.suffix_refl _) shown

/-- A text that begins with the word does not show otherwise. -/
theorem differs_self_append (bracket : Bracket) (word rest : Text) :
    differs bracket word (word ++ rest) = false := by
  induction word with
  | nil => rfl
  | cons wanted others inductionHypothesis =>
      rw [List.cons_append, differs, if_pos rfl]
      exact inductionHypothesis

theorem showsValue_iff {after : Text} :
    showsValue after = true ↔ ∃ value, after = attributeForwards ++ ['='] ++ value ∧
      differs .opening ['"', '"'] value = true := by
  unfold showsValue
  rw [Option.any_eq_true]
  constructor
  · rintro ⟨value, dropped, shown⟩
    exact ⟨value, Text.isPrefixOf?_eq_some_iff.mp dropped, shown⟩
  · rintro ⟨value, joined, shown⟩
    exact ⟨value, Text.isPrefixOf?_eq_some_iff.mpr joined, shown⟩

theorem showsValue_append {after : Text} (shown : showsValue after = true) (more : Text) :
    showsValue (after ++ more) = true := by
  rcases showsValue_iff.mp shown with ⟨value, joined, differing⟩
  apply showsValue_iff.mpr
  refine ⟨value ++ more, ?_, differs_append differing more⟩
  rw [joined, List.append_assoc]

theorem showsValue_of_append {after : Text} (silent : Silent .opening more)
    (shown : showsValue (after ++ more) = true) : showsValue after = true := by
  rcases showsValue_iff.mp shown with ⟨value, joined, differing⟩
  rcases List.append_eq_append_iff.mp joined with
    ⟨inside, begun, behind⟩ | ⟨rest, whole, behind⟩
  · -- The silent text cannot hold a part of the attribute.
    cases inside with
    | nil =>
        rw [List.nil_append] at behind
        rw [behind] at silent
        have impossible := @differs_of_append .opening _ [] value (by decide) silent differing
        cases impossible
    | cons head others =>
        have solid : Solid .opening (attributeForwards ++ ['=']) := by decide
        have part : Solid .opening (head :: others) := by
          intro character member
          apply solid character
          rw [begun]
          exact List.mem_append_right _ member
        have speaking := speaks_of_solid part value
        rw [← behind, silent.speaks_eq] at speaking
        cases speaking
  · rw [behind] at differing
    apply showsValue_iff.mpr
    exact ⟨rest, whole, differs_of_append (by decide) silent differing⟩

end Showing

/-! ## One character of a text -/

theorem clearAt_append {before after : Text} {head : Char}
    (clear : clearAt before head after = true) (front back : Text) :
    clearAt (before ++ front) head (after ++ back) = true := by
  unfold clearAt at clear ⊢
  by_cases colon : head = ':'
  · rw [if_pos colon] at clear ⊢
    exact differs_append clear front
  · rw [if_neg colon] at clear ⊢
    by_cases hyphen : head = '-'
    · rw [if_pos hyphen] at clear ⊢
      simp only [Bool.or_eq_true] at clear ⊢
      rcases clear with (former | later) | valued
      · exact Or.inl (Or.inl (differs_append former front))
      · exact Or.inl (Or.inr (differs_append later back))
      · exact Or.inr (showsValue_append valued back)
    · rw [if_neg hyphen]

theorem clearAt_of_append {before after front back : Text} {head : Char}
    (silentFront : Silent .closing front) (silentBack : Silent .opening back)
    (clear : clearAt (before ++ front) head (after ++ back) = true) :
    clearAt before head after = true := by
  unfold clearAt at clear ⊢
  by_cases colon : head = ':'
  · rw [if_pos colon] at clear ⊢
    exact differs_of_append (by decide) silentFront clear
  · rw [if_neg colon] at clear ⊢
    by_cases hyphen : head = '-'
    · rw [if_pos hyphen] at clear ⊢
      simp only [Bool.or_eq_true] at clear ⊢
      rcases clear with (former | later) | valued
      · exact Or.inl (Or.inl (differs_of_append (by decide) silentFront former))
      · exact Or.inl (Or.inr (differs_of_append (by decide) silentBack later))
      · exact Or.inr (showsValue_of_append silentBack valued)
    · rw [if_neg hyphen]

theorem inertBehind_iff {before text : Text} :
    inertBehind before text = true ↔ ∀ former head after, text = former ++ head :: after ->
      clearAt (former.reverse ++ before) head after = true := by
  induction text generalizing before with
  | nil => simp [inertBehind]
  | cons first rest inductionHypothesis =>
      rw [inertBehind, Bool.and_eq_true, inductionHypothesis]
      constructor
      · rintro ⟨here, behind⟩ former head after joined
        cases former with
        | nil =>
            cases joined
            exact here
        | cons next others =>
            cases joined
            have later := behind others head after rfl
            rwa [List.reverse_cons, List.append_assoc]
      · intro every
        refine ⟨every [] first rest rfl, ?_⟩
        intro former head after joined
        have later := every (first :: former) head after (by rw [joined, List.cons_append])
        rwa [List.reverse_cons, List.append_assoc] at later

theorem inert_iff {text : Text} :
    Inert text ↔ ∀ former head after, text = former ++ head :: after ->
      clearAt former.reverse head after = true := by
  unfold Inert
  rw [inertBehind_iff]
  simp only [List.append_nil]

/-! ## Putting inert texts together and taking them apart -/

/-- A text between the brackets of a tag. -/
def TagShaped (tag : Text) : Prop :=
  ∃ inside, tag = tagOpen ++ inside ++ tagClose

namespace Inert

theorem nil : Inert [] := rfl

theorem append {left right : Text} (first : Inert left) (second : Inert right) :
    Inert (left ++ right) := by
  rw [inert_iff] at first second ⊢
  intro former head after joined
  rcases List.append_eq_append_iff.mp joined with
    ⟨inside, within, behind⟩ | ⟨inside, within, behind⟩
  · -- The character stands in the second text.
    have clear := clearAt_append (second inside head after behind) left.reverse []
    rw [List.append_nil] at clear
    rw [within, List.reverse_append]
    exact clear
  · cases inside with
    | nil =>
        rw [List.nil_append] at behind
        have clear := clearAt_append (second [] head after behind.symm) left.reverse []
        rw [List.append_nil] at clear within
        rw [← within]
        exact clear
    | cons next others =>
        cases behind
        have clear := clearAt_append (first former head others within) [] right
        rw [List.append_nil] at clear
        exact clear

/-- Silent surroundings can be taken off. -/
theorem of_between {front text back : Text} (silentFront : Silent .closing front.reverse)
    (silentBack : Silent .opening back) (inert : Inert (front ++ text ++ back)) :
    Inert text := by
  rw [inert_iff] at inert ⊢
  intro former head after joined
  have clear := inert (front ++ former) head (after ++ back)
    (by rw [joined]; simp only [List.append_assoc, List.cons_append])
  rw [List.reverse_append] at clear
  exact clearAt_of_append silentFront silentBack clear

theorem trim {text : Text} (inert : Inert text) : Inert (Text.trim text) := by
  rcases Text.trim_join text with ⟨leading, trailing, leadingBlank, trailingBlank, joined⟩
  rw [joined] at inert
  refine of_between (silent_of_blank ?_) (silent_of_blank trailingBlank) inert
  intro character member
  exact leadingBlank character (List.mem_reverse.mp member)

/-- What stands around a tag is inert by itself. -/
theorem around_tag {before tag after : Text} (shaped : TagShaped tag)
    (inert : Inert (before ++ tag ++ after)) : Inert before ∧ Inert after := by
  rcases shaped with ⟨inside, spelled⟩
  subst spelled
  have closed (rest : Text) : Silent .closing (tagClose.reverse ++ rest) :=
    silent_word_append .closing rest
  constructor
  · apply @of_between [] before (tagOpen ++ (inside ++ tagClose ++ after)) silent_nil
      (silent_word_append .opening _)
    simpa only [List.nil_append, List.append_assoc] using inert
  · apply @of_between (before ++ (tagOpen ++ inside ++ tagClose)) after [] ?_ silent_nil
    · rw [List.append_nil]
      exact inert
    · rw [List.reverse_append, List.reverse_append, List.append_assoc]
      exact closed _

end Inert

/-! ## Reading an inert text as a document -/

theorem inertBehind_of_append {before front rest : Text}
    (inert : inertBehind before (front ++ rest) = true) :
    inertBehind (front.reverse ++ before) rest = true := by
  rw [inertBehind_iff] at inert ⊢
  intro former head after joined
  have clear := inert (front ++ former) head after (by rw [joined, List.append_assoc])
  rwa [List.reverse_append, List.append_assoc] at clear

/-- Every editable attribute of an inert text has a value. -/
theorem exists_value_of_inertBehind {before front after : Text}
    (inert : inertBehind before (front ++ editableAttribute ++ after) = true) :
    ∃ value, after = '=' :: value ∧ differs .opening ['"', '"'] value = true := by
  have spelled : editableAttribute = attributeBackwards.reverse ++ '-' :: attributeForwards := by
    decide +kernel
  have clear := inertBehind_iff.mp inert (front ++ attributeBackwards.reverse) '-'
    (attributeForwards ++ after)
    (by rw [spelled]; simp only [List.append_assoc, List.cons_append])
  rw [List.reverse_append, List.reverse_reverse, List.append_assoc] at clear
  unfold clearAt at clear
  rw [if_neg (by decide), if_pos rfl, differs_self_append, differs_self_append,
    Bool.false_or, Bool.false_or] at clear
  rcases showsValue_iff.mp clear with ⟨value, joined, shown⟩
  rw [List.append_assoc, List.append_cancel_left_eq] at joined
  exact ⟨value, joined, shown⟩

theorem completeEditable_of_inertBehind {completed text : Text} {before : Text}
    (inert : inertBehind before text = true) : completeEditable completed text = text := by
  fun_induction completeEditable completed text generalizing before with
  | case1 => rfl
  | case2 text front after found rest empty =>
      rw [Text.cut?_join found] at inert
      rcases exists_value_of_inertBehind inert with ⟨value, joined, shown⟩
      rw [Text.isPrefixOf?_eq_some_iff.mp empty] at joined
      have quotes : value = ['"', '"'] ++ rest := (List.cons.inj joined).2.symm
      rw [quotes, differs_self_append] at shown
      cases shown
  | case3 text front after found empty valued inductionHypothesis =>
      have joined := Text.cut?_join found
      rw [joined] at inert ⊢
      rw [inductionHypothesis (inertBehind_of_append inert)]
  | case4 text front after found empty valueless =>
      rw [Text.cut?_join found] at inert
      rcases exists_value_of_inertBehind inert with ⟨value, joined, shown⟩
      rw [joined] at valueless
      exact absurd rfl valueless

namespace Inert

variable {text : Text}

theorem not_linkMark_isInfix (inert : Inert text) : ¬ linkMark <:+: text := by
  rintro ⟨front, back, joined⟩
  have clear := inert_iff.mp inert (front ++ markBackwards.reverse) ':' back
    (by rw [← joined]; simp [linkMark, markBackwards])
  rw [List.reverse_append, List.reverse_reverse] at clear
  unfold clearAt at clear
  rw [if_pos rfl, differs_self_append] at clear
  cases clear

/-- An inert text is read as a document without a change. -/
theorem resolveLinks_prepareEditable (inert : Inert text) (site : Site) (document : Path) :
    resolveLinks site document (prepareEditable site document text) = text := by
  unfold prepareEditable
  rw [completeEditable_of_inertBehind inert, resolveLinks_eq_self inert.not_linkMark_isInfix]

/-- The brackets of an element show that a colon is not that of a mark. -/
example : Inert "<b>Tel</b>: 5".toList := by decide

end Inert
end PageComposer
