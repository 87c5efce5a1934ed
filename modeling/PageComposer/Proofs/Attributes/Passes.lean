import PageComposer.Proofs.Markup.Links

namespace PageComposer

/-!
# Passes over marked links

A mark starts with a quote, and the value of a link ends at the next one.  So each pass
over the links of a text works on the fields between its quotes, one by one: a field that
is followed by a quote is a link or not by itself, and what a pass puts in for it cannot
reach the quote on either side (`addressLinks_quoted`, `unlink_quoted`).

The last field is followed by no quote, and a link in it stays open.  What stands behind a
text has a part in its passes only if it closes such a link or completes a mark.  In a
sealed text there is nothing to close and nothing to complete, and its links are resolved
as if nothing stood behind it (`resolveLinks_sealed_append`).
-/

/-- A mark without its quote. -/
def linkWord : Text := ['p', 's', ':']

theorem linkMark_eq : linkMark = '"' :: linkWord := rfl

/-- Every field behind a quote. -/
def quoted (fields : List Text) : Text :=
  fields.flatMap ('"' :: ·)

theorem quoted_cons (field : Text) (others : List Text) (rest : Text) :
    quoted (field :: others) ++ rest = '"' :: (field ++ (quoted others ++ rest)) := by
  simp [quoted]

/-- A quote comes behind any field. -/
theorem quoted_append_cons (fields : List Text) (rest : Text) :
    ∃ more, quoted fields ++ '"' :: rest = '"' :: more := by
  cases fields with
  | nil => exact ⟨rest, rfl⟩
  | cons field others => exact ⟨_, quoted_cons field others _⟩

theorem closed_of_mem {field : Text} {fields : List Text} (member : field ∈ fields) (rest : Text) :
    ∃ after, '"' :: (field ++ '"' :: after) <:+ quoted fields ++ '"' :: rest := by
  rcases List.append_of_mem member with ⟨former, later, equal⟩
  rcases quoted_append_cons later rest with ⟨after, closing⟩
  refine ⟨after, quoted former, ?_⟩
  rw [equal, ← closing, ← quoted_cons]
  simp [quoted]

/-- A text falls into fields at its quotes. -/
theorem exists_fields (text : Text) : ∃ first fields, text = first ++ quoted fields ∧
    '"' ∉ first ∧ ∀ field ∈ fields, '"' ∉ field := by
  induction text with
  | nil => exact ⟨[], [], rfl, by simp, by simp⟩
  | cons head rest inductionHypothesis =>
      rcases inductionHypothesis with ⟨first, fields, joined, unquoted, each⟩
      by_cases quote : head = '"'
      · refine ⟨[], first :: fields, ?_, by simp, List.forall_mem_cons.mpr ⟨unquoted, each⟩⟩
        rw [joined, quote, quoted, quoted, List.flatMap_cons]
        rfl
      · refine ⟨head :: first, fields, by rw [joined]; rfl, ?_, each⟩
        rw [List.mem_cons, not_or]
        exact ⟨fun equal => quote equal.symm, unquoted⟩

/-! ## Where marks start -/

section Marks

variable {start field front rest : Text}

theorem linkMark_isPrefix_iff {text : Text} : linkMark <+: '"' :: text ↔ linkWord <+: text := by
  rw [linkMark_eq, List.cons_prefix_cons]
  exact and_iff_right rfl

/-- In front of the next quote a mark stands in the field itself. -/
theorem isPrefix_field_iff (unquoted : '"' ∉ start) :
    linkMark ++ start <+: '"' :: (field ++ '"' :: rest) ↔ linkWord ++ start <+: field := by
  rw [linkMark_eq, List.cons_append, List.cons_prefix_cons]
  have foreign : '"' ∉ linkWord ++ start := by
    rw [List.mem_append, not_or]
    exact ⟨by decide, unquoted⟩
  constructor
  · exact fun both => Text.isPrefix_of_isPrefix_append_cons foreign both.2
  · exact fun leads => ⟨rfl, leads.trans (List.prefix_append field _)⟩

/-- No mark starts in a text without a quote. -/
theorem not_isPrefix_of_unquoted (unquoted : '"' ∉ front) {back : Text} (suffix : back <:+ front)
    (nonempty : back ≠ []) : ¬ linkMark ++ start <+: back ++ rest := by
  intro leads
  cases back with
  | nil => exact nonempty rfl
  | cons head others =>
      have same := (List.cons_prefix_cons.mp leads).1
      exact unquoted (suffix.subset (same ▸ List.mem_cons_self))

theorem passes_unquoted (unquoted : '"' ∉ front) : Text.Passes (linkMark ++ start) front rest :=
  Text.passes_of_absent fun _ suffix => not_isPrefix_of_unquoted unquoted suffix

theorem passes_unquoted_mark (unquoted : '"' ∉ front) : Text.Passes linkMark front rest :=
  @passes_unquoted [] front rest unquoted

theorem passes_cons (absent : ¬ linkMark ++ start <+: '"' :: (field ++ rest))
    (unquoted : '"' ∉ field) : Text.Passes (linkMark ++ start) ('"' :: field) rest := by
  apply Text.passes_of_absent
  intro back suffix nonempty leads
  rcases List.suffix_cons_iff.mp suffix with whole | later
  · rw [whole] at leads
    exact absent leads
  · exact not_isPrefix_of_unquoted unquoted later nonempty leads

end Marks

/-! ## A pass from the front -/

/-- Links are resolved in three passes. -/
theorem resolveLinks_eq (site : Site) (document : Path) (text : Text) :
    resolveLinks site document text =
      unlink (addressLinks site document stayingStart
        (addressLinks site document climbingStart text)) :=
  rfl

section Pass

variable {site : Site} {document : Path} {start : Text}

/-- What stands behind the first link of a pass is done before it. -/
theorem addressLinks_of_found {text before after : Text}
    (found : Text.cut? (linkMark ++ start) text = some (before, after)) :
    addressLinks site document start text =
      before ++ addressLink site document start (addressLinks site document start after) := by
  have nonempty : 0 < (linkMark ++ start).length := by simp [linkMark]
  have behind : addressLinks.addressAfter site document start
        (Text.cutAll (linkMark ++ start) after).1 (Text.cutAll (linkMark ++ start) after).2 =
      addressLink site document start (addressLinks site document start after) := by
    cases next : Text.cut? (linkMark ++ start) after with
    | none =>
        have absent := Text.cut?_eq_none_iff.mp next
        rw [addressLinks_eq_self absent, Text.cutAll_of_absent absent]
        rfl
    | some pieces =>
        unfold addressLinks
        rw [Text.cutAll_of_found nonempty next]
        rfl
  rw [← behind]
  unfold addressLinks
  rw [Text.cutAll_of_found nonempty found]

/-- A text that no link of the pass starts in is left alone. -/
theorem addressLinks_passes {front rest : Text}
    (passes : Text.Passes (linkMark ++ start) front rest) :
    addressLinks site document start (front ++ rest) =
      front ++ addressLinks site document start rest := by
  cases found : Text.cut? (linkMark ++ start) rest with
  | none =>
      have absent := Text.cut?_eq_none_iff.mp found
      rw [addressLinks_eq_self absent, addressLinks_eq_self (passes.not_isInfix absent)]
  | some pieces =>
      have behind : Text.cut? (linkMark ++ start) (front ++ rest) =
          some (front ++ pieces.1, pieces.2) := by
        rw [passes, found]
        rfl
      rw [addressLinks_of_found behind, addressLinks_of_found found, List.append_assoc]

/-- A quote at the front is kept. -/
theorem exists_addressLinks_quote (rest : Text) :
    ∃ more, addressLinks site document start ('"' :: rest) = '"' :: more := by
  cases found : Text.cut? (linkMark ++ start) ('"' :: rest) with
  | none => exact ⟨rest, addressLinks_eq_self (Text.cut?_eq_none_iff.mp found)⟩
  | some pieces =>
      have joined := Text.cut?_join found
      rw [addressLinks_of_found found]
      cases before : pieces.1 with
      | nil =>
          rw [List.nil_append]
          unfold addressLink
          split
          · exact ⟨_, rfl⟩
          · exact ⟨_, rfl⟩
      | cons head others =>
          rw [before] at joined
          exact ⟨_, by rw [(List.cons.inj joined).1]; rfl⟩

/-! ## Fields -/

/-- What a pass makes of a field. -/
def addressField (site : Site) (document : Path) (start field : Text) : Text :=
  match Text.dropStart? linkWord field with
  | some value => if Text.startsWith start value then linkAddress site document value else field
  | none => field

theorem addressField_link (value : Text) :
    addressField site document start (linkWord ++ (start ++ value)) =
      linkAddress site document (start ++ value) := by
  have starts : Text.startsWith start (start ++ value) = true :=
    List.isPrefixOf_iff_prefix.mpr (List.prefix_append start value)
  unfold addressField
  rw [Text.dropStart?_append]
  exact if_pos starts

theorem addressField_of_not_link {field : Text} (other : ¬ linkWord ++ start <+: field) :
    addressField site document start field = field := by
  unfold addressField
  split
  · rename_i value dropped
    apply if_neg
    intro starts
    rcases List.isPrefixOf_iff_prefix.mp starts with ⟨rest, joined⟩
    apply other
    rw [Text.isPrefixOf?_eq_some_iff.mp dropped, ← joined, ← List.append_assoc]
    exact List.prefix_append _ _
  · rfl

/-- A pass changes the fields in front of a quote one by one. -/
theorem addressLinks_quoted (unquoted : '"' ∉ start) {fields : List Text}
    (each : ∀ field ∈ fields, '"' ∉ field) (rest : Text) :
    addressLinks site document start (quoted fields ++ '"' :: rest) =
      quoted (fields.map (addressField site document start)) ++
        addressLinks site document start ('"' :: rest) := by
  induction fields with
  | nil => rfl
  | cons field others inductionHypothesis =>
      have within := List.forall_mem_cons.mp each
      have behind := inductionHypothesis within.2
      rw [List.map_cons, quoted_cons, quoted_cons]
      by_cases link : linkWord ++ start <+: field
      · rcases link with ⟨value, joined⟩
        rw [List.append_assoc] at joined
        subst joined
        have noValue : '"' ∉ start ++ value := fun inside =>
          within.1 (List.mem_append_right linkWord inside)
        have noQuote : '"' ∉ value := fun inside => noValue (List.mem_append_right start inside)
        have found : Text.cut? (linkMark ++ start)
            ('"' :: (linkWord ++ (start ++ value) ++ (quoted others ++ '"' :: rest))) =
              some ([], value ++ (quoted others ++ '"' :: rest)) := by
          have here := Text.cut?_self_append (linkMark ++ start)
            (value ++ (quoted others ++ '"' :: rest))
          simpa only [linkMark_eq, List.append_assoc, List.cons_append] using here
        rcases @exists_addressLinks_quote site document start rest with ⟨kept, keeps⟩
        rcases quoted_append_cons (others.map (addressField site document start)) kept with
          ⟨more, closing⟩
        rw [addressLinks_of_found found, List.nil_append,
          addressLinks_passes (passes_unquoted noQuote), behind, keeps, closing,
          addressField_link]
        unfold addressLink
        rw [← List.append_assoc start, Text.cutAtChar?_append_cons noValue]
        rfl
      · rcases quoted_append_cons others rest with ⟨more, closing⟩
        have absent : ¬ linkMark ++ start <+: '"' :: (field ++ (quoted others ++ '"' :: rest)) := by
          rw [closing, isPrefix_field_iff unquoted]
          exact link
        have passed := @addressLinks_passes site document start _ _ (passes_cons absent within.1)
        rw [List.cons_append, behind] at passed
        rw [passed, addressField_of_not_link link]
        rfl

end Pass

/-- What taking the marks off makes of a field. -/
def unmarkField (field : Text) : Text :=
  (Text.dropStart? linkWord field).getD field

theorem unlink_passes {front rest : Text} (passes : Text.Passes linkMark front rest) :
    unlink (front ++ rest) = front ++ unlink rest :=
  Text.replaceAll_passes (by decide) passes

/-- The marks are taken off the fields one by one. -/
theorem unlink_quoted {fields : List Text} (each : ∀ field ∈ fields, '"' ∉ field) (rest : Text) :
    unlink (quoted fields ++ '"' :: rest) =
      quoted (fields.map unmarkField) ++ unlink ('"' :: rest) := by
  induction fields with
  | nil => rfl
  | cons field others inductionHypothesis =>
      have within := List.forall_mem_cons.mp each
      have behind := inductionHypothesis within.2
      rw [List.map_cons, quoted_cons, quoted_cons]
      unfold unmarkField
      cases dropped : Text.dropStart? linkWord field with
      | some value =>
          have joined := Text.isPrefixOf?_eq_some_iff.mp dropped
          have noQuote : '"' ∉ value := fun inside =>
            within.1 (joined ▸ List.mem_append_right linkWord inside)
          rw [joined, List.append_assoc, ← List.cons_append, ← linkMark_eq, unlink_mark,
            unlink_passes (passes_unquoted_mark noQuote), behind]
          rfl
      | none =>
          rcases quoted_append_cons others rest with ⟨more, closing⟩
          have absent : ¬ linkMark ++ [] <+: '"' :: (field ++ (quoted others ++ '"' :: rest)) := by
            rw [closing, isPrefix_field_iff (by simp), List.append_nil]
            exact Text.dropStart?_eq_none_iff.mp dropped
          have passed := unlink_passes (passes_cons absent within.1)
          rw [List.cons_append, behind] at passed
          rw [passed]
          rfl

/-! ## Behind the last quote -/

section Last

variable {site : Site} {document : Path} {start last : Text}

theorem addressLinks_unquoted {text : Text} (unquoted : '"' ∉ text) :
    addressLinks site document start text = text := by
  apply addressLinks_eq_self
  intro occurs
  exact unquoted (occurs.subset List.mem_cons_self)

/-- A pass leaves the last field as it is, as it is not closed. -/
theorem addressLinks_last (startUnquoted : '"' ∉ start) (unquoted : '"' ∉ last) :
    addressLinks site document start ('"' :: last) = '"' :: last := by
  by_cases link : linkWord ++ start <+: last
  · rcases link with ⟨value, joined⟩
    subst joined
    have noQuote : '"' ∉ value := fun inside => unquoted (List.mem_append_right _ inside)
    have noEnd : '"' ∉ start ++ value := by
      rw [List.mem_append, not_or]
      exact ⟨startUnquoted, noQuote⟩
    have found := Text.cut?_self_append (linkMark ++ start) value
    change Text.cut? (linkMark ++ start) ('"' :: (linkWord ++ start ++ value)) = _ at found
    rw [addressLinks_of_found found, addressLinks_unquoted noQuote]
    unfold addressLink
    rw [Text.cutAtChar?_eq_none_iff.mpr noEnd]
    rfl
  · have absent : ¬ linkMark ++ start <+: '"' :: (last ++ []) := by
      rw [List.append_nil, linkMark_eq, List.cons_append, List.cons_prefix_cons]
      exact fun both => link both.2
    have passed := @addressLinks_passes site document start _ _ (passes_cons absent unquoted)
    have nothing := @addressLinks_unquoted site document start [] List.not_mem_nil
    rwa [nothing, List.append_nil] at passed

theorem unlink_unquoted {text : Text} (unquoted : '"' ∉ text) : unlink text = text := by
  apply Text.replaceAll_eq_self
  intro occurs
  exact unquoted (occurs.subset List.mem_cons_self)

theorem unlink_last (unquoted : '"' ∉ last) : unlink ('"' :: last) = '"' :: unmarkField last := by
  unfold unmarkField
  cases dropped : Text.dropStart? linkWord last with
  | some value =>
      have joined : last = linkWord ++ value := Text.isPrefixOf?_eq_some_iff.mp dropped
      subst joined
      have noQuote : '"' ∉ value := fun inside => unquoted (List.mem_append_right linkWord inside)
      rw [← List.cons_append, ← linkMark_eq, unlink_mark, unlink_unquoted noQuote]
      rfl
  | none =>
      have absent : ¬ linkMark <+: '"' :: last := by
        rw [linkMark_isPrefix_iff]
        exact Text.dropStart?_eq_none_iff.mp dropped
      rw [unlink_cons absent, unlink_unquoted unquoted]
      rfl

end Last

/-- A text is taken apart behind its last quote, if it has one. -/
theorem unquoted_or_exists_last (text : Text) : '"' ∉ text ∨
    ∃ first fields last, text = first ++ (quoted fields ++ '"' :: last) ∧ '"' ∉ first ∧
      (∀ field ∈ fields, '"' ∉ field) ∧ '"' ∉ last := by
  rcases exists_fields text with ⟨first, fields, joined, unquoted, each⟩
  rcases List.eq_nil_or_concat fields with none | ⟨former, last, equal⟩
  · rw [none] at joined
    rw [joined]
    exact Or.inl (by simpa [quoted] using unquoted)
  · rw [List.concat_eq_append] at equal
    rw [equal] at each joined
    have both := List.forall_mem_append.mp each
    refine Or.inr ⟨first, former, last, ?_, unquoted, both.1, both.2 last List.mem_cons_self⟩
    rw [joined]
    simp [quoted]

/-! ## Sealed texts -/

/-- Nothing that stands behind the text closes a link in it or completes a mark. -/
def Sealed (text : Text) : Prop :=
  '"' ∉ text ∨ ∃ front last, text = front ++ '"' :: last ∧ '"' ∉ last ∧ Text.Apart linkWord last

theorem sealed_of_closed {text : Text} (closed : ∀ after, linkMark ++ after <:+ text -> '"' ∈ after)
    (clear : Text.EndsClear linkMark text) : Sealed text := by
  rcases unquoted_or_exists_last text with unquoted | ⟨first, fields, last, joined, _, _, unquoted⟩
  · exact Or.inl unquoted
  · rw [← List.append_assoc] at joined
    have ends : '"' :: last <:+ text := ⟨_, joined.symm⟩
    refine Or.inr ⟨_, last, joined, unquoted, ?_, ?_⟩
    · rintro ⟨after, spelled⟩
      rw [← spelled, ← List.cons_append, ← linkMark_eq] at ends
      exact unquoted (spelled ▸ List.mem_append_right linkWord (closed after ends))
    · intro begins
      have broken : '"' :: last <+: linkMark := List.cons_prefix_cons.mpr ⟨rfl, begins⟩
      exact clear _ broken (List.cons_ne_nil _ _) ends

/-- Whether all links of a text are closed can be looked up at each place of it. -/
theorem closed_of_tails {text : Text}
    (closed : ∀ back ∈ text.tails, ∀ after ∈ Text.dropStart? linkMark back, '"' ∈ after) :
    ∀ after, linkMark ++ after <:+ text -> '"' ∈ after :=
  fun after suffix =>
    closed _ ((List.mem_tails _ _).mpr suffix) after (Text.dropStart?_append linkMark after)

section Behind

variable {site : Site} {document : Path} {start text rest : Text}

theorem passes_last {last : Text} (unquoted : '"' ∉ last) (apart : Text.Apart linkWord last) :
    Text.Passes (linkMark ++ start) ('"' :: last) rest := by
  apply passes_cons _ unquoted
  intro leads
  have mark := (List.prefix_append linkMark start).trans leads
  rw [linkMark_isPrefix_iff] at mark
  exact apart.not_isPrefix_append rest mark

/-- A pass over a sealed text does not see what stands behind it, and seals the text
again. -/
theorem exists_addressLinks_sealed (startUnquoted : '"' ∉ start) (isSealed : Sealed text) :
    ∃ addressed, Sealed addressed ∧ ∀ rest, ¬ linkMark <:+: rest ->
      addressLinks site document start (text ++ rest) = addressed ++ rest := by
  have stays {rest : Text} (absent : ¬ linkMark <:+: rest) :
      addressLinks site document start rest = rest :=
    addressLinks_eq_self fun occurs => absent ((List.prefix_append _ _).isInfix.trans occurs)
  rcases isSealed with unquoted | ⟨front, last, joined, unquoted, apart⟩
  · refine ⟨text, Or.inl unquoted, fun rest absent => ?_⟩
    rw [addressLinks_passes (passes_unquoted unquoted), stays absent]
  · rcases exists_fields front with ⟨first, fields, spelled, noQuote, each⟩
    refine ⟨first ++ quoted (fields.map (addressField site document start)) ++ '"' :: last,
      Or.inr ⟨_, last, rfl, unquoted, apart⟩, fun rest absent => ?_⟩
    have behind : addressLinks site document start ('"' :: (last ++ rest)) =
        '"' :: (last ++ rest) := by
      rw [← List.cons_append, addressLinks_passes (passes_last unquoted apart), stays absent]
    rw [joined, spelled, List.append_assoc, List.append_assoc, List.cons_append,
      addressLinks_passes (passes_unquoted noQuote), addressLinks_quoted startUnquoted each, behind]
    simp only [List.append_assoc, List.cons_append]

theorem exists_unlink_sealed (isSealed : Sealed text) :
    ∃ unlinked, ∀ rest, ¬ linkMark <:+: rest -> unlink (text ++ rest) = unlinked ++ rest := by
  rcases isSealed with unquoted | ⟨front, last, joined, unquoted, apart⟩
  · refine ⟨text, fun rest absent => ?_⟩
    rw [unlink_passes (passes_unquoted_mark unquoted)]
    exact congrArg (text ++ ·) (Text.replaceAll_eq_self absent)
  · rcases exists_fields front with ⟨first, fields, spelled, noQuote, each⟩
    refine ⟨first ++ quoted (fields.map unmarkField) ++ '"' :: last, fun rest absent => ?_⟩
    have behind : unlink ('"' :: (last ++ rest)) = '"' :: (last ++ rest) := by
      rw [← List.cons_append, unlink_passes (@passes_last [] rest last unquoted apart)]
      exact congrArg ('"' :: last ++ ·) (Text.replaceAll_eq_self absent)
    rw [joined, spelled, List.append_assoc, List.append_assoc, List.cons_append,
      unlink_passes (passes_unquoted_mark noQuote), unlink_quoted each, behind]
    simp only [List.append_assoc, List.cons_append]

/-- The links of a sealed text are resolved as if nothing stood behind it. -/
theorem resolveLinks_sealed_append (isSealed : Sealed text) (absent : ¬ linkMark <:+: rest) :
    resolveLinks site document (text ++ rest) = resolveLinks site document text ++ rest := by
  rcases @exists_addressLinks_sealed site document climbingStart text (by decide) isSealed with
    ⟨climbed, sealedClimbed, climbs⟩
  rcases @exists_addressLinks_sealed site document stayingStart climbed (by decide)
    sealedClimbed with ⟨stayed, sealedStayed, stays⟩
  rcases exists_unlink_sealed sealedStayed with ⟨unlinked, unlinks⟩
  have whole (rest : Text) (absent : ¬ linkMark <:+: rest) :
      resolveLinks site document (text ++ rest) = unlinked ++ rest := by
    rw [resolveLinks_eq, climbs rest absent, stays rest absent, unlinks rest absent]
  have alone := whole [] (by decide)
  rw [List.append_nil, List.append_nil] at alone
  rw [whole rest absent, alone]

/-- A text in which no mark starts is left in front of the others. -/
theorem resolveLinks_quiet_append (quiet : Text.Quiet linkMark text) :
    resolveLinks site document (text ++ rest) = text ++ resolveLinks site document rest := by
  have passes {start rest : Text} : Text.Passes (linkMark ++ start) text rest :=
    Text.cut?_quiet_append (quiet.of_isPrefix (List.prefix_append linkMark start)) rest
  rw [resolveLinks_eq, addressLinks_passes passes, addressLinks_passes passes,
    unlink_passes (Text.cut?_quiet_append quiet _)]
  rfl

end Behind
end PageComposer
