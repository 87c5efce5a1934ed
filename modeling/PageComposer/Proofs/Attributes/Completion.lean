import PageComposer.Attributes.Editable
import PageComposer.Proofs.Text.Field
import PageComposer.Proofs.Text.Rewriting

namespace PageComposer

/-!
# Completing editable attributes

Completing the attributes of a text is one rewriting of it: at every attribute
without a value, and nowhere else, the completed attribute is put in
(`completeEditable_eq_rewrite`).  The attribute does not overlap itself, so the
edits do not meet.

A completed attribute has a value and holds no second attribute, unless the
reference brings one in.  What is put in begins as what it replaces, so no
attribute arises at a seam, and completing the attributes once more changes
nothing (`completeEditable_again`).
-/

/-- What is done at the front of a text: an attribute there is completed if it
has an empty value, which is taken out with it, or none. -/
def completion (completed text : Text) : Option Text.Edit :=
  match Text.dropStart? editableAttribute text with
  | none => none
  | some after =>
      if Text.startsWith emptyValue after then
        some ⟨(editableAttribute ++ emptyValue).length, completed⟩
      else if Text.startsWith ['='] after then none
      else some ⟨editableAttribute.length, completed⟩

/-! ## One pass over the text -/

section Completing

variable {completed text before after : Text}

theorem completion_eq_none (elsewhere : ¬ editableAttribute <+: text) :
    completion completed text = none := by
  unfold completion
  rw [Text.dropStart?_eq_none_iff.mpr elsewhere]

theorem completion_attribute (after : Text) :
    completion completed (editableAttribute ++ after) =
      if Text.startsWith emptyValue after then
        some ⟨(editableAttribute ++ emptyValue).length, completed⟩
      else if Text.startsWith ['='] after then none
      else some ⟨editableAttribute.length, completed⟩ := by
  unfold completion
  rw [Text.dropStart?_append]

theorem silent_of_quiet (quiet : Text.Quiet editableAttribute text) (rest : Text) :
    Text.Silent (completion completed) text rest :=
  fun back suffix nonempty => completion_eq_none (quiet back suffix nonempty rest)

/-- The attribute starts with this letter. -/
theorem letter_isPrefix_of_isPrefix (leads : editableAttribute <+: text) : ['d'] <+: text :=
  (by decide +kernel : ['d'] <+: editableAttribute).trans leads

theorem editableAttribute_ne_nil : editableAttribute ≠ [] := by decide +kernel

/-- The attribute does not overlap itself. -/
theorem quiet_attribute : Text.Quiet editableAttribute editableAttribute.tail :=
  Text.quiet_of_apart (by decide +kernel)

theorem quiet_attribute_emptyValue :
    Text.Quiet editableAttribute (editableAttribute ++ emptyValue).tail :=
  Text.quiet_of_apart (by decide +kernel)

/-- No attribute starts in front of the first one, whatever stands behind that. -/
theorem silent_before (found : Text.cut? editableAttribute text = some (before, after))
    (more : Text) : Text.Silent (completion completed) before (editableAttribute ++ more) := by
  intro back suffix nonempty
  apply completion_eq_none
  intro leads
  rcases suffix with ⟨front, joined⟩
  have inside : editableAttribute <+: back ++ editableAttribute := by
    rw [← List.append_assoc] at leads
    exact List.prefix_of_prefix_length_le leads (List.prefix_append _ more) (by simp)
  rcases inside with ⟨rest, spelled⟩
  have occurs : text = front ++ editableAttribute ++ (rest ++ after) := by
    rw [Text.cut?_join found, ← joined, List.append_assoc front, ← spelled]
    simp only [List.append_assoc]
  have first := Text.cut?_first found occurs
  have positive := List.length_pos_iff.mpr nonempty
  rw [← joined, List.length_append] at first
  omega

theorem rewrite_completion_none (nothing : Text.cut? editableAttribute text = none) :
    Text.rewrite (completion completed) text = text := by
  have silent : Text.Silent (completion completed) text [] := by
    intro back suffix nonempty
    apply completion_eq_none
    rw [List.append_nil]
    intro leads
    exact Text.cut?_eq_none_iff.mp nothing (leads.isInfix.trans suffix.isInfix)
  have copied := Text.rewrite_silent silent
  rwa [List.append_nil, Text.rewrite_nil, List.append_nil] at copied

theorem rewrite_completion_found (found : Text.cut? editableAttribute text = some (before, after))
    (more : Text) :
    Text.rewrite (completion completed) (before ++ editableAttribute ++ more) =
      before ++ Text.rewrite (completion completed) (editableAttribute ++ more) := by
  rw [List.append_assoc, Text.rewrite_silent (silent_before found more)]

theorem rewrite_completion_empty (rest : Text) :
    Text.rewrite (completion completed) (editableAttribute ++ emptyValue ++ rest) =
      completed ++ Text.rewrite (completion completed) rest := by
  apply Text.rewrite_edit (by simp [emptyValue])
  · have here : Text.startsWith emptyValue (emptyValue ++ rest) = true :=
      List.isPrefixOf_iff_prefix.mpr (List.prefix_append emptyValue rest)
    rw [List.append_assoc, completion_attribute, if_pos here]
  · exact silent_of_quiet quiet_attribute_emptyValue rest

theorem rewrite_completion_valueless (nonempty : ¬ Text.startsWith emptyValue after = true)
    (valueless : ¬ Text.startsWith ['='] after = true) :
    Text.rewrite (completion completed) (editableAttribute ++ after) =
      completed ++ Text.rewrite (completion completed) after := by
  apply Text.rewrite_edit editableAttribute_ne_nil
  · rw [completion_attribute, if_neg nonempty, if_neg valueless]
  · exact silent_of_quiet quiet_attribute after

theorem rewrite_completion_valued (nonempty : ¬ Text.startsWith emptyValue after = true)
    (valued : Text.startsWith ['='] after = true) :
    Text.rewrite (completion completed) (editableAttribute ++ after) =
      editableAttribute ++ Text.rewrite (completion completed) after := by
  apply Text.rewrite_silent
  apply Text.Silent.of_tail
  · rw [completion_attribute, if_neg nonempty, if_pos valued]
  · exact silent_of_quiet quiet_attribute after

theorem not_startsWith_of_dropStart? {start text : Text}
    (nothing : Text.dropStart? start text = none) : ¬ Text.startsWith start text = true :=
  fun starts => Text.dropStart?_eq_none_iff.mp nothing (List.isPrefixOf_iff_prefix.mp starts)

/-- Completing the attributes of a text rewrites it. -/
theorem completeEditable_eq_rewrite (completed text : Text) :
    completeEditable completed text = Text.rewrite (completion completed) text := by
  fun_induction completeEditable completed text with
  | case1 text nothing => exact (rewrite_completion_none nothing).symm
  | case2 text before after found rest empty inductionHypothesis =>
      rw [Text.cut?_join found, rewrite_completion_found found,
        Text.isPrefixOf?_eq_some_iff.mp empty, ← List.append_assoc, rewrite_completion_empty,
        inductionHypothesis, List.append_assoc]
  | case3 text before after found empty valued inductionHypothesis =>
      rw [Text.cut?_join found, rewrite_completion_found found,
        rewrite_completion_valued (not_startsWith_of_dropStart? empty) valued,
        inductionHypothesis, List.append_assoc]
  | case4 text before after found empty valueless inductionHypothesis =>
      rw [Text.cut?_join found, rewrite_completion_found found,
        rewrite_completion_valueless (not_startsWith_of_dropStart? empty) valueless,
        inductionHypothesis, List.append_assoc]

end Completing

/-! ## A second pass -/

section Again

variable {reference : Text}

/-- What stands behind the name in a completed attribute. -/
def completedValue (reference : Text) : Text :=
  '=' :: '"' :: reference ++ '"' :: " contenteditable=\"true\"".toList ++ [' ']

theorem completedAttribute_eq (reference : Text) :
    completedAttribute reference = editableAttribute ++ completedValue reference := by
  have ending : "\" contenteditable=\"true\" ".toList =
      '"' :: " contenteditable=\"true\"".toList ++ [' '] := by decide +kernel
  unfold completedAttribute completedValue
  rw [ending]
  simp only [List.append_assoc, List.cons_append, List.nil_append]

/-- A text behind a quote or an equals sign is no part of an attribute. -/
theorem not_isInfix_cons {needle text : Text} {head : Char} (foreign : head ∉ needle)
    (absent : ¬ needle <:+: text) : ¬ needle <:+: head :: text := by
  intro occurs
  rcases @Text.isInfix_of_isInfix_append_cons head needle [] text foreign occurs with none | later
  · rw [List.infix_nil.mp none] at absent
    exact absent List.nil_infix
  · exact absent later

/-- No attribute starts in a completed one behind its name. -/
theorem quiet_completedValue (unmarked : ¬ editableAttribute <:+: reference) :
    Text.Quiet editableAttribute (completedValue reference) := by
  have equals : '=' ∉ editableAttribute := by decide +kernel
  have quote : '"' ∉ editableAttribute := by decide +kernel
  have blank : ' ' ∉ editableAttribute := by decide +kernel
  have trailing : ¬ editableAttribute <:+: " contenteditable=\"true\"".toList := by
    rw [← Text.contains_iff]
    decide +kernel
  apply Text.quiet_concat blank
  apply not_isInfix_cons equals
  apply not_isInfix_cons quote
  intro occurs
  exact (Text.isInfix_of_isInfix_append_cons quote occurs).elim unmarked trailing

/-- An attribute stays where it is, completed or not. -/
theorem editableAttribute_isPrefix_rewrite (after : Text) :
    editableAttribute <+: Text.rewrite (completion (completedAttribute reference))
      (editableAttribute ++ after) := by
  rw [completedAttribute_eq]
  by_cases empty : Text.startsWith emptyValue after = true
  · rcases List.isPrefixOf_iff_prefix.mp empty with ⟨rest, joined⟩
    rw [← joined, ← List.append_assoc, rewrite_completion_empty, List.append_assoc]
    exact List.prefix_append _ _
  · by_cases valued : Text.startsWith ['='] after = true
    · rw [rewrite_completion_valued empty valued]
      exact List.prefix_append _ _
    · rw [rewrite_completion_valueless empty valued, List.append_assoc]
      exact List.prefix_append _ _

/-- A completed text begins with a word that lacks the first letter of the attribute
only if the text does. -/
theorem isPrefix_of_isPrefix_completion {needle text : Text} (foreign : 'd' ∉ needle)
    (leads : needle <+: Text.rewrite (completion (completedAttribute reference)) text) :
    needle <+: text := by
  induction needle generalizing text with
  | nil => exact List.nil_prefix
  | cons first others inductionHypothesis =>
      rw [List.mem_cons, not_or] at foreign
      by_cases marked : editableAttribute <+: text
      · rcases marked with ⟨after, joined⟩
        have marks := @editableAttribute_isPrefix_rewrite reference after
        rw [joined] at marks
        have begins := letter_isPrefix_of_isPrefix marks
        have same := List.prefix_of_prefix_length_le begins leads (by simp)
        exact absurd (List.cons_prefix_cons.mp same).1 foreign.1
      · cases text with
        | nil =>
            rw [Text.rewrite_nil] at leads
            exact leads
        | cons head rest =>
            rw [Text.rewrite_cons (completion_eq_none marked)] at leads
            rcases List.cons_prefix_cons.mp leads with ⟨same, behind⟩
            exact List.cons_prefix_cons.mpr ⟨same, inductionHypothesis foreign.2 behind⟩

/-- A completed attribute is not completed again. -/
theorem rewrite_completion_completed (nonempty : reference ≠ [])
    (unquoted : reference.head? ≠ some '"') (unmarked : ¬ editableAttribute <:+: reference)
    (rest : Text) :
    Text.rewrite (completion (completedAttribute reference))
        (completedAttribute reference ++ rest) =
      completedAttribute reference ++
        Text.rewrite (completion (completedAttribute reference)) rest := by
  have full : ¬ Text.startsWith emptyValue (completedValue reference ++ rest) = true := by
    cases reference with
    | nil => exact absurd rfl nonempty
    | cons head others =>
        intro starts
        have leads := List.isPrefixOf_iff_prefix.mp starts
        simp only [completedValue, emptyValue, List.cons_append, List.cons_prefix_cons] at leads
        exact unquoted (congrArg some leads.2.2.1.symm)
  have valued : Text.startsWith ['='] (completedValue reference ++ rest) = true := rfl
  have copied := @rewrite_completion_valued (completedAttribute reference) _ full valued
  rw [Text.rewrite_silent (silent_of_quiet (quiet_completedValue unmarked) rest),
    ← List.append_assoc, ← List.append_assoc, ← completedAttribute_eq] at copied
  exact copied

/-- What is found to have a value still has one when the text behind is completed. -/
theorem rewrite_completion_keeps_value {after : Text}
    (full : ¬ Text.startsWith emptyValue after = true)
    (valued : Text.startsWith ['='] after = true) :
    ¬ Text.startsWith emptyValue
        (Text.rewrite (completion (completedAttribute reference)) after) = true ∧
      Text.startsWith ['=']
        (Text.rewrite (completion (completedAttribute reference)) after) = true := by
  rcases List.isPrefixOf_iff_prefix.mp valued with ⟨value, joined⟩
  subst joined
  have elsewhere : ¬ editableAttribute <+: '=' :: value := by
    intro leads
    have letter := (List.cons_prefix_cons.mp (letter_isPrefix_of_isPrefix leads)).1
    exact absurd letter (by decide)
  rw [List.singleton_append, Text.rewrite_cons (completion_eq_none elsewhere)]
  refine ⟨?_, rfl⟩
  intro starts
  apply full
  have quotes := (List.cons_prefix_cons.mp (List.isPrefixOf_iff_prefix.mp starts)).2
  apply List.isPrefixOf_iff_prefix.mpr
  exact List.cons_prefix_cons.mpr ⟨rfl, isPrefix_of_isPrefix_completion (by decide) quotes⟩

/-- A text that is completed stays as it is. -/
theorem completeEditable_again (nonempty : reference ≠ []) (unquoted : reference.head? ≠ some '"')
    (unmarked : ¬ editableAttribute <:+: reference) (text : Text) :
    completeEditable (completedAttribute reference)
        (completeEditable (completedAttribute reference) text) =
      completeEditable (completedAttribute reference) text := by
  have completes {text before after : Text}
      (found : Text.cut? editableAttribute text = some (before, after)) (rest : Text) :
      Text.rewrite (completion (completedAttribute reference))
          (before ++ completedAttribute reference ++ rest) =
        before ++ completedAttribute reference ++
          Text.rewrite (completion (completedAttribute reference)) rest := by
    have passed := @rewrite_completion_found (completedAttribute reference) _ _ _ found
      (completedValue reference ++ rest)
    simp only [List.append_assoc] at passed
    rw [← List.append_assoc editableAttribute, ← completedAttribute_eq] at passed
    rw [List.append_assoc, passed, rewrite_completion_completed nonempty unquoted unmarked,
      List.append_assoc]
  rw [completeEditable_eq_rewrite _ (completeEditable _ _)]
  fun_induction completeEditable (completedAttribute reference) text with
  | case1 text nothing => exact rewrite_completion_none nothing
  | case2 text before after found rest empty inductionHypothesis =>
      rw [completes found, inductionHypothesis]
  | case3 text before after found empty valued inductionHypothesis =>
      have keeps := @rewrite_completion_keeps_value reference _
        (not_startsWith_of_dropStart? empty) valued
      rw [← completeEditable_eq_rewrite] at keeps
      rw [rewrite_completion_found found, rewrite_completion_valued keeps.1 keeps.2,
        inductionHypothesis, List.append_assoc]
  | case4 text before after found empty valueless inductionHypothesis =>
      rw [completes found, inductionHypothesis]

/-- Preparing a document completes exactly its attributes without a value, all at
once.  Doing it again changes nothing, if the reference to the document does not
make the completed attribute look empty and holds no attribute itself. -/
theorem prepareEditable_rewrites (site : Site) (document : Path) (text : Text) :
    prepareEditable site document text =
        Text.rewrite (completion (completedAttribute (editableReference site document))) text ∧
      (editableReference site document ≠ [] ->
        (editableReference site document).head? ≠ some '"' ->
        ¬ editableAttribute <:+: editableReference site document ->
        prepareEditable site document (prepareEditable site document text) =
          prepareEditable site document text) :=
  ⟨completeEditable_eq_rewrite _ text,
    fun nonempty unquoted unmarked => completeEditable_again nonempty unquoted unmarked text⟩

set_option maxRecDepth 100000 in
/-- Of four attributes two have a value, one of them the name of the next. -/
theorem prepareEditable_rewrites_adjoining :
    let site := Listing.empty.toSite (.atRoot ⟨"/site".toList⟩)
    let document : Path := ⟨"/site/pages/about.html".toList⟩
    let text := ("<p data-editable=\"\"></p><i data-editable=\"keep\"></i>" ++
      "<b data-editable=data-editable>").toList
    let prepared := ("<p data-editable=\"pages/about\" contenteditable=\"true\" ></p>" ++
      "<i data-editable=\"keep\"></i>" ++
      "<b data-editable=data-editable=\"pages/about\" contenteditable=\"true\" >").toList
    (editableReference site document ≠ [] ∧ (editableReference site document).head? ≠ some '"' ∧
        ¬ editableAttribute <:+: editableReference site document) ∧
      prepareEditable site document text = prepared ∧
      prepareEditable site document (prepareEditable site document text) = prepared := by
  intro site document text prepared
  have unmarked : ¬ editableAttribute <:+: editableReference site document := by
    rw [← Text.contains_iff]
    decide +kernel
  have once : prepareEditable site document text = prepared := by decide +kernel
  have again := (prepareEditable_rewrites site document text).2 (by decide +kernel)
    (by decide +kernel) unmarked
  exact ⟨⟨by decide +kernel, by decide +kernel, unmarked⟩, once, again.trans once⟩

end Again
end PageComposer
