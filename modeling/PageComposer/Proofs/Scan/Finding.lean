import PageComposer.Proofs.Layout.Arguments
import PageComposer.Proofs.Scan.Meeting

namespace PageComposer

/-!
# What a scan finds, and what it stops at

A scan for one kind reads a text from the left.  The next tag begins where the
opening of the kind first occurs and ends with the first closing behind that
opening (`ReadUpTo`).  The tags that are read cover every occurrence of the
opening (`scanKindFrom_covers`).

Three things can be wrong with a tag: it is never closed, it names nothing, or it
mixes its arguments between parentheses (`TagFault`).  They are told from the text
alone, without reading a tag.  The scan fails at the first tag that has a fault,
with the failure for that fault, and for no other reason
(`scanKindFrom_eq_error_iff`).
-/

/-! ## Tags with faults -/

/-- A tag names nothing: there is nothing in it, or its name ends where it starts. -/
inductive Nameless : Kind -> Text -> Prop
  | empty (kind : Kind) : Nameless kind []
  | cut {kind : Kind} {raw : Text} {args : List Text} {style : ArgsStyle}
      (called : kind = .layout ∨ kind = .wrap) (written : LayoutBody raw [] args style)
      (agreeing : style = .call -> ¬ Mixed args) : Nameless kind raw

/-- What is wrong with the body of a closed tag. -/
inductive BodyFault (document : Path) (kind : Kind) (raw : Text) : Failure -> Prop
  | mixed {name : Text} {args : List Text} (called : kind = .layout ∨ kind = .wrap)
      (written : LayoutBody raw name args .call) (mixed : Mixed args) :
      BodyFault document kind raw (.mixedArguments (kind.opening ++ raw ++ tagClose))
  | nameless (nameless : Nameless kind raw) :
      BodyFault document kind raw (.emptyName kind document)

/-- What is wrong with the tag that a text starts with. -/
inductive TagFault (document : Path) (kind : Kind) : Text -> Failure -> Prop
  | unterminated {inside : Text} (unclosed : ¬ tagClose <:+: inside) :
      TagFault document kind (kind.opening ++ inside)
        (.unterminated (Text.firstLine (kind.opening ++ inside)) document)
  | body {raw more : Text} {failure : Failure} (unclosed : ¬ tagClose <:+: raw)
      (fault : BodyFault document kind raw failure) :
      TagFault document kind (kind.opening ++ raw ++ tagClose ++ more) failure

/-! ## What is told of a body by its text -/

/-- A body in the form of a layout tag gives its name, unless its arguments are mixed in a
call. -/
theorem LayoutBody.ofCall_name {raw name : Text} {args : List Text} {style : ArgsStyle}
    (written : LayoutBody raw name args style) (agreeing : style = .call -> ¬ Mixed args)
    (tag : Text) : ∃ body, Body.ofCall raw tag = .ok body ∧ body.name = name := by
  by_cases named : name = []
  · subst named
    cases written with
    | @call _ inner bare =>
        have inside : Text.dropEnd? [')'] (inner ++ [')']) = some inner :=
          Text.dropEnd?_eq_some_iff.mpr rfl
        refine ⟨Body.withArgs [] (Body.splitArgs ';' inner) .call, ?_, rfl⟩
        unfold Body.ofCall
        rw [Text.cutAtChar?_append_cons bare]
        simp only [Option.bind_eq_bind, Option.bind_some, inside, Option.pure_def]
        rw [argumentsAgree_of_not_mixed (agreeing rfl)]
        rfl
    | @colon _ inner bare noCall =>
        refine ⟨Body.plain [], ?_, rfl⟩
        rw [ofCall_of_not_parenthesized noCall, Body.ofColonForm,
          Text.cutAtChar?_append_cons bare]
        rfl
    | plain bare noCall =>
        refine ⟨Body.plain [], ?_, rfl⟩
        rw [ofCall_of_not_parenthesized noCall, ofColonForm_of_no_colon bare]
  · exact ⟨_, written.ofCall_of_agreeing named agreeing tag, rfl⟩

theorem ofCall_cases (raw tag : Text) :
    (∃ name args, LayoutBody raw name args .call ∧ Mixed args ∧
      Body.ofCall raw tag = .error (.mixedArguments tag)) ∨
    ∃ name args style body, LayoutBody raw name args style ∧ (style = .call -> ¬ Mixed args) ∧
      Body.ofCall raw tag = .ok body ∧ body.name = name := by
  rcases exists_layoutBody raw with ⟨name, args, style, written⟩
  by_cases mixed : style = .call ∧ Mixed args
  · rw [mixed.1] at written
    exact Or.inl ⟨name, args, written, mixed.2, written.ofCall_of_mixed mixed.2 tag⟩
  · rw [not_and] at mixed
    rcases written.ofCall_name mixed tag with ⟨body, taken, named⟩
    exact Or.inr ⟨name, args, style, body, written, mixed, taken, named⟩

/-- Separators at the front of a content tag belong to its name, so that only an empty tag
has an empty name. -/
theorem eq_nil_of_ofContent_name {raw : Text} (nothing : (Body.ofContent raw).name = []) :
    raw = [] := by
  have kept {before whole : Text} (empty : (if before.isEmpty then whole else before) = []) :
      whole = [] := by
    split at empty
    · exact empty
    · rename_i nonempty
      exact absurd (List.isEmpty_iff.mpr empty) nonempty
  unfold Body.ofContent at nothing
  dsimp only at nothing
  split at nothing
  · split at nothing
    · split at nothing
      · exact kept nothing
      · exact nothing
    · rename_i nonempty
      exact absurd (List.isEmpty_iff.mpr nothing) nonempty
  · split at nothing
    · exact kept nothing
    · exact nothing

section Body

variable {kind : Kind} {raw tag : Text}

theorem exists_mixed_of_ofRaw {failure : Failure}
    (refused : Body.ofRaw kind raw tag = .error failure) :
    failure = .mixedArguments tag ∧ (kind = .layout ∨ kind = .wrap) ∧
      ∃ name args, LayoutBody raw name args .call ∧ Mixed args := by
  have called (refused : Body.ofCall raw tag = .error failure) :
      failure = .mixedArguments tag ∧
        ∃ name args, LayoutBody raw name args .call ∧ Mixed args := by
    rcases ofCall_cases raw tag with
      ⟨name, args, written, mixed, failed⟩ | ⟨_, _, _, body, _, _, taken, _⟩
    · rw [failed] at refused
      exact ⟨(Except.error.inj refused).symm, name, args, written, mixed⟩
    · rw [taken] at refused
      cases refused
  cases kind with
  | content | file | linkCss | linkScript => cases refused
  | layout => exact ⟨(called refused).1, Or.inl rfl, (called refused).2⟩
  | wrap => exact ⟨(called refused).1, Or.inr rfl, (called refused).2⟩

theorem nameless_of_ofRaw {body : Body} (taken : Body.ofRaw kind raw tag = .ok body)
    (nothing : body.name = []) : Nameless kind raw := by
  have called (taken : Body.ofCall raw tag = .ok body) :
      ∃ args style, LayoutBody raw [] args style ∧ (style = .call -> ¬ Mixed args) := by
    rcases ofCall_cases raw tag with
      ⟨_, _, _, _, failed⟩ | ⟨name, args, style, other, written, agreeing, read, named⟩
    · rw [failed] at taken
      cases taken
    · rw [read] at taken
      cases taken
      rw [named] at nothing
      exact ⟨args, style, nothing ▸ written, agreeing⟩
  cases kind with
  | content =>
      cases taken
      rw [eq_nil_of_ofContent_name nothing]
      exact .empty _
  | layout =>
      rcases called taken with ⟨args, style, written, agreeing⟩
      exact .cut (Or.inl rfl) written agreeing
  | wrap =>
      rcases called taken with ⟨args, style, written, agreeing⟩
      exact .cut (Or.inr rfl) written agreeing
  | file | linkCss | linkScript =>
      cases taken
      rw [show raw = [] from nothing]
      exact .empty _

theorem Nameless.exists_body (nameless : Nameless kind raw) (tag : Text) :
    ∃ body, Body.ofRaw kind raw tag = .ok body ∧ body.name = [] := by
  cases nameless with
  | empty => cases kind <;> exact ⟨_, rfl, rfl⟩
  | cut called written agreeing =>
      rcases written.ofCall_name agreeing tag with ⟨body, taken, nothing⟩
      rcases called with isLayout | isWrap
      · rw [isLayout]
        exact ⟨body, taken, nothing⟩
      · rw [isWrap]
        exact ⟨body, taken, nothing⟩

variable {site : Site} {document : Path} {start : Nat}

/-- A tag is refused for what is wrong with its body, wherever it stands. -/
theorem readTag_eq_error_iff {failure : Failure} :
    readTag site document kind start raw = .error failure ↔
      BodyFault document kind raw failure := by
  constructor
  · intro refused
    unfold readTag at refused
    dsimp only at refused
    split at refused
    · rename_i other untaken
      cases refused
      rcases exists_mixed_of_ofRaw untaken with ⟨same, called, name, args, written, mixed⟩
      rw [same]
      exact .mixed called written mixed
    · rename_i body taken
      split at refused
      · rename_i nothing
        cases refused
        exact .nameless (nameless_of_ofRaw taken (List.isEmpty_iff.mp nothing))
      · cases refused
  · intro fault
    unfold readTag
    dsimp only
    cases fault with
    | mixed called written mixed =>
        have untaken := written.ofCall_of_mixed mixed (kind.opening ++ raw ++ tagClose)
        rcases called with isLayout | isWrap
        · subst isLayout
          simp only [Body.ofRaw, untaken]
        · subst isWrap
          simp only [Body.ofRaw, untaken]
    | nameless nameless =>
        rcases nameless.exists_body (kind.opening ++ raw ++ tagClose) with ⟨body, taken, nothing⟩
        simp only [taken, nothing, List.isEmpty_nil, if_true]

theorem absoluteName_ne_nil {name : Text} (nonempty : name ≠ []) :
    absoluteName site document name ≠ [] := by
  unfold absoluteName
  split
  · dsimp only
    split
    · rename_i slashed
      intro nothing
      rw [nothing] at slashed
      cases slashed
    · exact List.cons_ne_nil _ _
  · exact nonempty

theorem readTag_name_ne_nil {placeholder : Placeholder}
    (accepted : readTag site document kind start raw = .ok placeholder) :
    placeholder.name ≠ [] := by
  rcases readTag_name accepted with ⟨body, _, named, equal⟩
  rw [equal]
  exact absoluteName_ne_nil named

end Body

/-! ## Reading from the left -/

/-- Tags with these bodies are read from a text, and `rest` is still to be read. -/
inductive ReadUpTo (kind : Kind) : Text -> List Text -> Text -> Prop
  | start (text : Text) : ReadUpTo kind text [] text
  | tag {gap raw more rest : Text} {bodies : List Text} (between : ¬ kind.opening <:+: gap)
      (unclosed : ¬ tagClose <:+: raw) (behind : ReadUpTo kind more bodies rest) :
      ReadUpTo kind (gap ++ (kind.opening ++ raw ++ tagClose ++ more)) (raw :: bodies) rest

/-- Read from the left, a text has tags without faults and then one with a fault. -/
def FirstFault (document : Path) (kind : Kind) (text : Text) (failure : Failure) : Prop :=
  ∃ bodies gap rest, ReadUpTo kind text bodies (gap ++ rest) ∧
    (∀ raw ∈ bodies, ∀ earlier, ¬ BodyFault document kind raw earlier) ∧
    ¬ kind.opening <:+: gap ∧ TagFault document kind rest failure

variable {site : Site} {document : Path} {kind : Kind} {offset : Nat} {text : Text}

theorem FirstFault.behind {gap raw more : Text} {failure : Failure}
    (between : ¬ kind.opening <:+: gap) (unclosed : ¬ tagClose <:+: raw)
    (sound : ∀ earlier, ¬ BodyFault document kind raw earlier)
    (fault : FirstFault document kind more failure) :
    FirstFault document kind (gap ++ (kind.opening ++ raw ++ tagClose ++ more)) failure := by
  rcases fault with ⟨bodies, last, rest, read, former, absent, fault⟩
  exact ⟨raw :: bodies, last, rest, .tag between unclosed read,
    List.forall_mem_cons.mpr ⟨sound, former⟩, absent, fault⟩

theorem firstFault_of_scanKindFrom {failure : Failure}
    (failed : scanKindFrom site document kind offset text = .error failure) :
    FirstFault document kind text failure := by
  have opens : kind.opening ≠ [] := by cases kind <;> decide
  fun_induction scanKindFrom site document kind offset text with
  | case1 => cases failed
  | case2 offset text before inside opened closed =>
      cases failed
      rw [Text.cut?_join opened, List.append_assoc]
      exact ⟨[], before, _, .start _, by simp, Text.not_isInfix_of_cut? opened opens,
        .unterminated (Text.cut?_eq_none_iff.mp closed)⟩
  | case3 offset text before inside opened raw rest closed inductionHypothesis =>
      have between := Text.not_isInfix_of_cut? opened opens
      have unclosed := Text.not_isInfix_of_cut? closed (List.cons_ne_nil _ _)
      have joined : text = before ++ (kind.opening ++ raw ++ tagClose ++ rest) := by
        rw [Text.cut?_join opened, Text.cut?_join closed]
        simp only [List.append_assoc]
      rw [joined]
      rcases bind_eq_error_iff.mp failed with refused | ⟨placeholder, accepted, continued⟩
      · exact ⟨[], before, _, .start _, by simp, between,
          .body unclosed (readTag_eq_error_iff.mp refused)⟩
      · refine .behind between unclosed (fun earlier fault => ?_) ?_
        · rw [readTag_eq_error_iff.mpr fault] at accepted
          cases accepted
        · apply inductionHypothesis placeholder
          rcases bind_eq_error_iff.mp continued with later | ⟨others, _, impossible⟩
          · exact later
          · cases impossible

theorem scanKindFrom_unclosed {inside : Text} (unclosed : ¬ tagClose <:+: inside) :
    scanKindFrom site document kind offset (kind.opening ++ inside) =
      .error (.unterminated (Text.firstLine (kind.opening ++ inside)) document) := by
  have opened := Text.cut?_self_append kind.opening inside
  have closed := Text.cut?_eq_none_iff.mpr unclosed
  rw [scanKindFrom]
  split
  · rename_i nothing
    rw [opened] at nothing
    cases nothing
  · rename_i equal
    rw [opened] at equal
    cases equal
    split
    · rfl
    · rename_i equal
      rw [closed] at equal
      cases equal

/-- Behind a gap without an opening a scan reads the tag that stands there. -/
theorem scanKindFrom_gap_tag {gap raw : Text} (between : ¬ kind.opening <:+: gap)
    (unclosed : ¬ tagClose <:+: raw) (more : Text) :
    scanKindFrom site document kind offset
        (gap ++ (kind.opening ++ raw ++ tagClose ++ more)) =
      (do
        let placeholder <- readTag site document kind (offset + Text.byteSize gap) raw
        let others <- scanKindFrom site document kind placeholder.stop more
        return placeholder :: others) := by
  rw [scanKindFrom_skip, scanKindFrom_tag_append unclosed]
  rw [List.append_assoc, List.append_assoc]
  exact passes_opening between _

theorem TagFault.scanKindFrom_eq {gap rest : Text} {failure : Failure}
    (fault : TagFault document kind rest failure) (between : ¬ kind.opening <:+: gap) :
    scanKindFrom site document kind offset (gap ++ rest) = .error failure := by
  cases fault with
  | @unterminated inside unclosed =>
      rw [scanKindFrom_skip (passes_opening between inside)]
      exact scanKindFrom_unclosed unclosed
  | @body raw more _ unclosed fault =>
      rw [scanKindFrom_gap_tag between unclosed, readTag_eq_error_iff.mpr fault]
      rfl

/-- A scan fails exactly at the first tag that has a fault. -/
theorem scanKindFrom_eq_error_iff {failure : Failure} :
    scanKindFrom site document kind offset text = .error failure ↔
      FirstFault document kind text failure := by
  refine ⟨firstFault_of_scanKindFrom, ?_⟩
  rintro ⟨bodies, gap, rest, read, former, between, fault⟩
  generalize joined : gap ++ rest = left at read
  induction read generalizing offset with
  | start text =>
      rw [← joined]
      exact fault.scanKindFrom_eq between
  | @tag front raw more left bodies absent unclosed _ inductionHypothesis =>
      rw [List.forall_mem_cons] at former
      rw [scanKindFrom_gap_tag absent unclosed]
      cases taken : readTag site document kind (offset + Text.byteSize front) raw with
      | error other => exact absurd (readTag_eq_error_iff.mp taken) (former.1 other)
      | ok placeholder =>
          dsimp only [bind, Except.bind]
          rw [inductionHypothesis former.2 joined]

/-! ## The tags that are found -/

/-- No occurrence of the opening is passed over: each of them starts inside a tag that is
found. -/
theorem scanKindFrom_covers {placeholders : List Placeholder}
    (scanned : scanKindFrom site document kind offset text = .ok placeholders) {front back : Text}
    (occurs : text = front ++ kind.opening ++ back) :
    ∃ placeholder ∈ placeholders, placeholder.start ≤ offset + Text.byteSize front ∧
      offset + Text.byteSize front < placeholder.stop := by
  fun_induction scanKindFrom site document kind offset text
    generalizing placeholders front with
  | case1 offset text absent =>
      exact absurd ⟨front, back, occurs.symm⟩ (Text.cut?_eq_none_iff.mp absent)
  | case2 => cases scanned
  | case3 offset text before inside opened raw rest closed inductionHypothesis =>
      rcases bind_eq_ok_iff.mp scanned with ⟨placeholder, accepted, continued⟩
      rcases bind_eq_ok_iff.mp continued with ⟨others, later, equal⟩
      cases equal
      have span := readTag_span accepted
      have joined : text = before ++ placeholder.tag ++ rest := by
        rw [Text.cut?_join opened, Text.cut?_join closed, span.2.2]
        simp only [List.append_assoc]
      by_cases within : offset + Text.byteSize front < placeholder.stop
      · refine ⟨placeholder, List.mem_cons_self, ?_, within⟩
        have leads : before <+: front := by
          refine @List.prefix_of_prefix_length_le _ _ _ text ?_ ?_ ?_
          · exact ⟨placeholder.tag ++ rest, by rw [joined, List.append_assoc]⟩
          · exact ⟨kind.opening ++ back, by rw [occurs, List.append_assoc]⟩
          · exact Text.cut?_first opened occurs
        rcases leads with ⟨more, equal⟩
        rw [span.1, ← equal, Text.byteSize_append]
        omega
      · have passed : before ++ placeholder.tag <+: front := by
          refine @Text.isPrefix_of_byteSize_le _ _ text ?_ ?_ ?_
          · exact ⟨rest, joined.symm⟩
          · exact ⟨kind.opening ++ back, by rw [occurs, List.append_assoc]⟩
          · rw [Text.byteSize_append]
            omega
        rcases passed with ⟨further, equal⟩
        have behind : rest = further ++ kind.opening ++ back := by
          rw [← equal, joined] at occurs
          simpa only [List.append_assoc, List.append_cancel_left_eq] using occurs
        rcases inductionHypothesis placeholder later behind with ⟨tag, member, starts, stops⟩
        have moved : offset + Text.byteSize front = placeholder.stop + Text.byteSize further := by
          rw [← equal, span.2.1]
          simp only [Text.byteSize_append]
          omega
        rw [moved]
        exact ⟨tag, List.mem_cons_of_mem _ member, starts, stops⟩

/-- A scan finds the tags of its kind and nothing else.  If it succeeds, its spans come one
behind the other and delimit whole tags, each closed by the first closing in it, and every
opening in the text starts inside one of them.  It fails exactly at the first tag with a
fault. -/
theorem scanKind_finds (site : Site) (document : Path) (kind : Kind) (text : Text) :
    (∀ placeholders, scanKind site document kind text = .ok placeholders ->
      placeholders.Pairwise (fun former later => former.stop ≤ later.start) ∧
      (∀ tag ∈ placeholders, ∃ front raw back,
        text = front ++ tag.tag ++ back ∧ tag.tag = kind.opening ++ raw ++ tagClose ∧
        ¬ tagClose <:+: raw ∧ tag.start = Text.byteSize front ∧
        tag.stop = Text.byteSize (front ++ tag.tag) ∧ tag.name ≠ []) ∧
      (∀ front back, text = front ++ kind.opening ++ back ->
        ∃ tag ∈ placeholders, tag.start ≤ Text.byteSize front ∧
          Text.byteSize front < tag.stop)) ∧
    ∀ failure, scanKind site document kind text = .error failure ↔
      FirstFault document kind text failure := by
  refine ⟨fun placeholders scanned => ?_, fun failure => scanKindFrom_eq_error_iff⟩
  have laid := scanKindFrom_laid scanned
  refine ⟨laid.ordered, fun tag member => ?_, fun front back occurs => ?_⟩
  · rcases laid.stands tag member with ⟨front, back, joined, starts, stops⟩
    rcases scanKindFrom_member scanned tag member with ⟨start, raw, unclosed, accepted⟩
    rw [Nat.zero_add] at starts
    refine ⟨front, raw, back, joined, (readTag_span accepted).2.2, unclosed, starts, ?_,
      readTag_name_ne_nil accepted⟩
    rw [stops, starts, Text.byteSize_append]
  · simpa only [Nat.zero_add] using scanKindFrom_covers scanned occurs

/-- An opening inside of a tag, behind a character of two bytes. -/
def reopenedText : Text := "é<!-- file:a<!-- file:b -->".toList

/-- The one tag of the text. -/
def reopenedTag : Placeholder where
  name := "a<!-- file:b".toList
  kind := .file
  start := 2
  stop := 28
  tag := "<!-- file:a<!-- file:b -->".toList
  args := []
  style := .none
  document := ⟨"/site/index.html".toList⟩

/-- A tag that names nothing, in front of one that is never closed. -/
def unnamedText : Text := "<!-- wrap:/frame --><!-- wrap:(a;b) --><!-- wrap:".toList

theorem scanKind_finds_reopened :
    (∃ tag ∈ [reopenedTag], tag.start ≤ 13 ∧ 13 < tag.stop) ∧
      FirstFault ⟨"/site/index.html".toList⟩ .wrap unnamedText
        (.emptyName .wrap ⟨"/site/index.html".toList⟩) := by
  have scanned : scanKind (Listing.empty.toSite (.atRoot ⟨"/site".toList⟩))
      ⟨"/site/index.html".toList⟩ .file reopenedText = .ok [reopenedTag] := by
    decide +kernel
  have refused : scanKind (Listing.empty.toSite (.atRoot ⟨"/site".toList⟩))
      ⟨"/site/index.html".toList⟩ .wrap unnamedText =
      .error (.emptyName .wrap ⟨"/site/index.html".toList⟩) := by
    decide +kernel
  have found := (scanKind_finds _ _ _ _).1 _ scanned
  constructor
  · exact found.2.2 "é<!-- file:a".toList "b -->".toList (by decide)
  · exact ((scanKind_finds _ _ _ _).2 _).mp refused

end PageComposer
