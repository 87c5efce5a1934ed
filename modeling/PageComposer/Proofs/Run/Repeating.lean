import Mathlib.Data.List.Pairwise
import PageComposer.Proofs.Decompile.Rereading
import PageComposer.Proofs.Run.Degradation
import PageComposer.Proofs.Scan.Finding

namespace PageComposer

/-!
# What a block repeats of its tag

The block for a reference that leads to no file repeats the name of the tag, and the comments
around a region repeat its arguments too.  Whether a scan finds the opening of a tag in what
is put in is therefore a matter of what is repeated, and of nothing else
(`Placeholder.opening_isInfix_degraded_iff`).

A run that ends well had no tag inside of another one, so no opening of another kind is
repeated.  The opening of its own kind may be: a tag ends at the first closing, and may hold
its own opening again (`Composer.degraded_opens_iff`).
-/

/-! ## Openings in texts that are put together -/

namespace Kind

variable {kind : Kind}

theorem opening_eq_concat (kind : Kind) :
    ∃ front, kind.opening = front ++ [':'] ∧ ':' ∉ front :=
  ⟨tagOpen ++ kind.name, rfl, by cases kind <;> decide⟩

/-- An opening inside of an element or a comment stands in what is between its brackets. -/
theorem opening_isInfix_enclosed_iff {front inner back : Text}
    (absent : ¬ kind.opening <+: '<' :: (front ++ (inner ++ back))) (unopened : '<' ∉ front)
    (unended : ':' ∉ back) :
    kind.opening <:+: '<' :: (front ++ (inner ++ back)) ↔ kind.opening <:+: inner := by
  rcases kind.opening_eq_cons with ⟨tail, opened, _⟩
  rcases kind.opening_eq_concat with ⟨start, ended, _⟩
  constructor
  · intro occurs
    rcases List.infix_cons_iff.mp occurs with here | inside
    · exact absurd here absent
    · rw [opened] at inside
      have behind := Text.infix_of_infix_append unopened inside
      rw [← opened, ended] at behind
      rw [ended]
      exact Text.isInfix_of_isInfix_append unended behind
  · intro inside
    exact inside.trans ⟨'<' :: front, back, by simp⟩

theorem opening_isInfix_errorBlock_iff {words name : Text} (unopened : '<' ∉ words) :
    kind.opening <:+: errorBlock (words ++ name) ↔ kind.opening <:+: name := by
  have spelled : errorBlock (words ++ name) =
      '<' :: ("div style=\"background-color: #f08080\">".toList ++ words ++
        (name ++ "</div>".toList)) := by
    unfold errorBlock
    simp only [List.append_assoc]
    rfl
  rw [spelled]
  refine opening_isInfix_enclosed_iff ?_ ?_ (by decide)
  · intro leads
    have second := (List.cons_prefix_cons.mp leads).2
    exact absurd (List.cons_prefix_cons.mp second).1 (by decide)
  · rw [List.mem_append, not_or]
    exact ⟨by decide, unopened⟩

theorem opening_isInfix_comment_iff {marker : Text} (apart : Text.Apart kind.opening marker)
    {rest : Text} (spelled : marker = '<' :: rest) (unopened : '<' ∉ rest)
    (placeholder : Placeholder) :
    kind.opening <:+: marker ++ placeholder.definition ++ tagClose ↔
      kind.opening <:+: placeholder.writtenBody := by
  have unopenedName : '<' ∉ placeholder.kind.name := by
    cases placeholder.kind <;> decide
  have joined : marker ++ placeholder.definition ++ tagClose =
      '<' :: (rest ++ placeholder.kind.name ++ ['-'] ++ (placeholder.writtenBody ++ tagClose)) := by
    rw [spelled, placeholder.definition_eq]
    simp [Placeholder.writtenBody]
  have absent := apart.not_isPrefix_append (placeholder.definition ++ tagClose)
  rw [← List.append_assoc] at absent
  rw [joined] at absent ⊢
  exact opening_isInfix_enclosed_iff absent (by simp [unopened, unopenedName]) (by decide)

theorem opening_isInfix_beginTag_iff (placeholder : Placeholder) :
    kind.opening <:+: beginTag placeholder.definition ↔
      kind.opening <:+: placeholder.writtenBody :=
  opening_isInfix_comment_iff (by cases kind <;> decide) rfl (by decide) placeholder

theorem opening_isInfix_endTag_iff (placeholder : Placeholder) :
    kind.opening <:+: endTag placeholder.definition ↔
      kind.opening <:+: placeholder.writtenBody :=
  opening_isInfix_comment_iff (by cases kind <;> decide) rfl (by decide) placeholder

/-- The comments around a region are closed before it and behind it. -/
theorem opening_isInfix_region_iff {placeholder : Placeholder} {element : Text} :
    kind.opening <:+: placeholder.region true ('<' :: element) ↔
      kind.opening <:+: placeholder.writtenBody ∨ kind.opening <:+: '<' :: element := by
  rcases kind.opening_eq_cons with ⟨tail, opened, once⟩
  have ending : ∃ rest, endTag placeholder.definition = '<' :: rest := ⟨_, rfl⟩
  rcases ending with ⟨rest, ended⟩
  unfold Placeholder.region
  rw [if_pos rfl, ended, opened, Text.isInfix_append_cons_iff once,
    Text.isInfix_append_cons_iff once, ← ended, ← opened, opening_isInfix_beginTag_iff,
    opening_isInfix_endTag_iff]
  exact ⟨fun occurs => occurs.elim id Or.inl, Or.inl⟩

end Kind

/-! ## What is repeated -/

namespace Placeholder

/-- The block that stands in for a reference that leads to no file. -/
def missingBlock (placeholder : Placeholder) : Text :=
  if placeholder.kind = .layout then unprocessedLayout placeholder
  else unprocessedBlock placeholder

/-- What is put in for such a reference.  The block of a wrap is no region. -/
def degraded (placeholder : Placeholder) (options : Options) : Text :=
  if placeholder.kind = .wrap then placeholder.missingBlock
  else placeholder.region options.markRegions placeholder.missingBlock

/-- What is repeated there of the tag. -/
def repeated (placeholder : Placeholder) (options : Options) : Text :=
  if placeholder.kind ≠ .wrap ∧ options.markRegions = true then placeholder.writtenBody
  else placeholder.name

variable {placeholder : Placeholder} {options : Options} {kind : Kind}

theorem opening_isInfix_missingBlock_iff :
    kind.opening <:+: placeholder.missingBlock ↔ kind.opening <:+: placeholder.name := by
  have unopened (words : Text) (plain : '<' ∉ words) :
      '<' ∉ words ++ (placeholder.kind.name ++ [':']) := by
    have unopenedName : '<' ∉ placeholder.kind.name := by
      cases placeholder.kind <;> decide
    simp [plain, unopenedName]
  have labelled (words : Text) : words ++ placeholder.label =
      words ++ (placeholder.kind.name ++ [':']) ++ placeholder.name := by
    simp [label]
  unfold missingBlock unprocessedLayout unprocessedBlock
  split
  · rw [labelled]
    exact Kind.opening_isInfix_errorBlock_iff (unopened _ (by decide))
  · rw [labelled]
    exact Kind.opening_isInfix_errorBlock_iff (unopened _ (by decide))

/-- What is put in holds an opening exactly if what is repeated does. -/
theorem opening_isInfix_degraded_iff :
    kind.opening <:+: placeholder.degraded options ↔
      kind.opening <:+: placeholder.repeated options := by
  have inName : kind.opening <:+: placeholder.name -> kind.opening <:+: placeholder.writtenBody :=
    fun occurs => occurs.trans (List.prefix_append _ _).isInfix
  have starts : ∃ element, placeholder.missingBlock = '<' :: element := by
    unfold missingBlock
    split <;> exact ⟨_, rfl⟩
  rcases starts with ⟨element, spelled⟩
  unfold degraded repeated
  by_cases isWrap : placeholder.kind = .wrap
  · rw [if_pos isWrap, if_neg fun both => both.1 isWrap]
    exact opening_isInfix_missingBlock_iff
  · rw [if_neg isWrap]
    cases marks : options.markRegions with
    | false =>
        rw [if_neg (by simp)]
        exact opening_isInfix_missingBlock_iff
    | true =>
        rw [if_pos ⟨isWrap, rfl⟩, spelled, Kind.opening_isInfix_region_iff, ← spelled,
          opening_isInfix_missingBlock_iff]
        exact ⟨fun occurs => occurs.elim id inName, Or.inl⟩

end Placeholder

/-! ## What a tag holds -/

section Tag

variable {kind : Kind} {raw name : Text} {args : List Text} {style : ArgsStyle}

/-- An opening in the arguments as they are written again stands in the tag as it was
written. -/
theorem LayoutBody.opening_isInfix (written : LayoutBody raw name args style)
    {placeholder : Placeholder} (sameName : placeholder.name = name)
    (sameArgs : placeholder.args = args)
    (sameStyle : placeholder.args ≠ [] -> placeholder.style = style)
    (occurs : kind.opening <:+: placeholder.writtenBody) : kind.opening <:+: raw := by
  have foreign (separator : Char) (other : separator = '(' ∨ separator = ')' ∨ separator = ';' ∨
      separator = ',') : separator ∉ kind.opening := by
    rcases other with equal | equal | equal | equal <;> subst equal <;> cases kind <;> decide
  have nonempty : kind.opening ≠ [] := List.cons_ne_nil _ _
  have inName : kind.opening <:+: name -> kind.opening <:+: raw :=
    fun inside => inside.trans written.isPrefix.isInfix
  have inArgs {separator : Char} (outside : separator ∉ kind.opening)
      (inside : kind.opening <:+: Text.joinWith [separator] args) : kind.opening <:+: raw := by
    rcases Text.isInfix_of_isInfix_joinWith outside nonempty inside with ⟨arg, member, within⟩
    exact within.trans (written.arg_isInfix arg member)
  unfold Placeholder.writtenBody at occurs
  rw [sameName] at occurs
  by_cases none : placeholder.args = []
  · rw [Placeholder.argsSuffix_of_nil none, List.append_nil] at occurs
    exact inName occurs
  · have sameStyle := sameStyle none
    cases written with
    | call _ =>
        rw [Placeholder.argsSuffix_of_call none sameStyle, sameArgs] at occurs
        rcases Text.isInfix_of_isInfix_append_cons (foreign '(' (by simp)) occurs with
          here | behind
        · exact inName here
        · rcases Text.isInfix_of_isInfix_append_cons (foreign ')' (by simp)) behind with
            inside | beyond
          · exact inArgs (foreign ';' (by simp)) inside
          · exact absurd (List.infix_nil.mp beyond) nonempty
    | @colon _ inner _ _ =>
        rw [Placeholder.argsSuffix_of_colon none sameStyle, sameArgs] at occurs
        rcases kind.opening_eq_concat with ⟨front, ended, once⟩
        rw [ended] at occurs ⊢
        rcases Text.isInfix_of_isInfix_append_last once occurs with here | inside
        · exact here.trans ⟨[], inner, by simp⟩
        · rw [← ended] at inside ⊢
          exact inArgs (foreign ',' (by simp)) inside
    | plain _ _ => exact absurd sameArgs none

/-- What is repeated of a tag that names no relative path stands in the tag as it was
written. -/
theorem opening_isInfix_of_repeated {site : Site} {document : Path} {start : Nat}
    {placeholder : Placeholder} {options : Options}
    (held : placeholder.kind = .file ∨ placeholder.kind = .layout ∨ placeholder.kind = .wrap)
    (accepted : readTag site document placeholder.kind start raw = .ok placeholder)
    (absolute : isRelativeName raw = false)
    (occurs : kind.opening <:+: placeholder.repeated options) : kind.opening <:+: raw := by
  rcases readTag_eq_ok_iff.mp accepted with ⟨body, taken, named, equal⟩
  have nameOf (leads : body.name <+: raw) : placeholder.name = body.name := by
    rw [equal]
    apply absoluteName_of_absolute
    rw [← Bool.not_eq_true] at absolute ⊢
    exact fun relative => absolute (isRelativeName_of_isPrefix leads relative)
  have argsOf : placeholder.args = body.args := by rw [equal]
  have styleOf : placeholder.style = body.style := by rw [equal]
  have inName (leads : body.name <+: raw) (inside : kind.opening <:+: placeholder.name) :
      kind.opening <:+: raw := by
    rw [nameOf leads] at inside
    exact inside.trans leads.isInfix
  unfold Placeholder.repeated at occurs
  rcases held with isFile | isLayout | isWrap
  · rw [isFile] at taken
    cases taken
    have whole : placeholder.writtenBody = placeholder.name := by
      rw [Placeholder.writtenBody, Placeholder.argsSuffix_of_nil argsOf, List.append_nil]
    rw [whole, ite_self] at occurs
    exact inName List.prefix_rfl occurs
  · rw [isLayout] at taken
    rcases exists_layoutBody_of_ofCall taken named with ⟨args, style, written, _, whole⟩
    split at occurs
    · refine written.opening_isInfix (nameOf written.isPrefix) ?_ ?_ occurs
      · rw [argsOf, whole]
        rfl
      · intro some
        rw [argsOf, whole] at some
        rw [styleOf, whole]
        exact if_neg fun none => some (List.isEmpty_iff.mp none)
    · exact inName written.isPrefix occurs
  · rw [isWrap] at taken
    rcases exists_layoutBody_of_ofCall taken named with ⟨_, _, written, _, _⟩
    rw [if_neg fun both => both.1 isWrap] at occurs
    exact inName written.isPrefix occurs

end Tag

/-- The reference of a tag is relative to the document. -/
def Placeholder.isRelative (placeholder : Placeholder) : Bool :=
  isRelativeName (placeholder.tag.drop placeholder.kind.opening.length)

theorem Placeholder.isRelativeName_of_isRelative (placeholder : Placeholder) {raw : Text}
    (spelled : placeholder.tag = placeholder.kind.opening ++ raw ++ tagClose)
    (direct : placeholder.isRelative = false) : isRelativeName raw = false := by
  rw [isRelative, spelled, List.append_assoc, List.drop_left] at direct
  rw [← Bool.not_eq_true] at direct ⊢
  exact fun relative =>
    direct (isRelativeName_of_isPrefix (List.prefix_append raw tagClose) relative)

namespace Composer

variable {composer : Composer} {template : Path} {options : Options} {document : Text}
  {placeholders : List Placeholder} {includes : Includes} {result : Text × Includes}
  {tag : Placeholder}

/-- Where a run ends well no tag holds the opening of another kind. -/
theorem kind_eq_of_opening_isInfix (scanned : composer.scan template document = .ok placeholders)
    (finished : composer.run template options document placeholders includes = .ok result)
    (member : tag ∈ placeholders) {raw : Text}
    (spelled : tag.tag = tag.kind.opening ++ raw ++ tagClose) {kind : Kind}
    (wanted : kind ∈ composer.kinds) (occurs : kind.opening <:+: raw) : kind = tag.kind := by
  by_contra different
  rcases scan_stands scanned tag member with ⟨before, after, joined, starts, stops⟩
  rcases occurs with ⟨front, back, split⟩
  rcases exists_scanKind_of_scan scanned with ⟨found, read, equal⟩
  have image := List.mem_map_of_mem (f := fun kind => scanKind composer.site template kind document)
    wanted
  rw [mapM_eq_ok_iff.mp read] at image
  rcases List.mem_map.mp image with ⟨list, listed, ofKind⟩
  have standing : document = before ++ tag.kind.opening ++ front ++ kind.opening ++
      (back ++ tagClose ++ after) := by
    rw [joined, spelled, ← split]
    simp only [List.append_assoc]
  rcases scanKindFrom_covers ofKind.symm standing with ⟨other, within, startsIn, stopsIn⟩
  have otherMember : other ∈ placeholders := by
    rw [equal, List.mem_mergeSort]
    exact List.mem_flatten.mpr ⟨list, listed, within⟩
  have distinct : tag ≠ other := by
    intro same
    rcases scanKindFrom_member ofKind.symm other within with ⟨_, _, _, accepted⟩
    exact different (same ▸ readTag_kind accepted).symm
  have symmetric : Std.Symm fun left right : Placeholder =>
      left.stop ≤ right.start ∨ right.stop ≤ left.start := ⟨fun _ _ => Or.symm⟩
  have apart := (disjoint_of_run (fun placeholder found => scan_start_lt_stop scanned found)
    finished).forall member otherMember distinct
  have sizes := congrArg Text.byteSize spelled
  rw [← split] at sizes
  have opening : 0 < Text.byteSize kind.opening := by cases kind <;> decide
  simp only [Text.byteSize_append] at sizes startsIn stopsIn
  omega

section Missing

variable {failure : Failure} (lost : failure.isResolution = true)
  (missed : composer.site.Misses tag failure)
include lost missed

theorem step_of_missing (held : tag.kind = .file ∨ tag.kind = .layout) (state : RunState) :
    composer.step template options state tag =
      .ok (state.put tag (tag.degraded options)) := by
  unfold step Placeholder.degraded Placeholder.missingBlock
  rcases held with isFile | isLayout
  · rw [isFile]
    dsimp only
    rw [fileText_of_missing lost missed]
    rfl
  · rw [isLayout]
    dsimp only
    rw [layoutText_of_missing lost missed]
    rfl

theorem applyWrap_degraded (isWrap : tag.kind = .wrap) (page : Text) :
    applyWrap composer.site tag page = .ok (tag.replaceIn page (tag.degraded options)) := by
  rw [applyWrap_of_missing lost missed]
  unfold Placeholder.degraded Placeholder.missingBlock
  rw [if_pos isWrap, if_neg (by rw [isWrap]; decide)]
  rfl

end Missing

/-- A tag that leads to no file is replaced by a block in which a scan finds an opening exactly
if one is repeated from the tag.  Unless the reference is relative, that can only be the
opening of the tag itself, written in it again. -/
theorem degraded_opens_iff {listing : Listing} {addressing : Addressing}
    (sited : composer.site = listing.toSite addressing)
    (scanned : composer.scan template document = .ok placeholders)
    (finished : composer.run template options document placeholders includes = .ok result)
    (member : tag ∈ placeholders)
    (held : tag.kind = .file ∨ tag.kind = .layout ∨ tag.kind = .wrap) {failure : Failure}
    (missed : composer.site.Misses tag failure) :
    (tag.kind ≠ .wrap -> ∀ state, composer.step template options state tag =
      .ok (state.put tag (tag.degraded options))) ∧
    (tag.kind = .wrap -> ∀ start stop page,
      let kept : Placeholder := { tag with start := start, stop := stop }
      applyWrap composer.site kept page = .ok (kept.replaceIn page (tag.degraded options))) ∧
    (∀ kind : Kind,
      kind.opening <:+: tag.degraded options ↔ kind.opening <:+: tag.repeated options) ∧
    (tag.isRelative = false ->
      ((∃ kind ∈ composer.kinds, kind.opening <:+: tag.degraded options) ↔
        tag.kind.opening <:+: tag.repeated options)) := by
  have lost : failure.isResolution = true := by
    rw [sited] at missed
    exact (listing.toSite_resolving addressing).isResolution missed
  refine ⟨?_, ?_, fun kind => Placeholder.opening_isInfix_degraded_iff, ?_⟩
  · intro notWrap state
    exact step_of_missing lost missed
      (held.imp_right fun other => other.resolve_right notWrap) state
  · intro isWrap start stop page kept
    -- What a reference leads to does not depend on where its tag stands.
    have missedKept : composer.site.Misses kept failure := by
      rw [sited] at missed ⊢
      exact missed
    exact applyWrap_degraded lost missedKept isWrap page
  · intro direct
    rcases mem_scanKind_of_scan scanned member with ⟨own, wanted, found, read, within⟩
    rcases scanKindFrom_member read tag within with ⟨start, raw, _, accepted⟩
    have sameKind := readTag_kind accepted
    subst sameKind
    have spelled := (readTag_span accepted).2.2
    have absolute := tag.isRelativeName_of_isRelative spelled direct
    constructor
    · rintro ⟨kind, configured, occurs⟩
      rw [Placeholder.opening_isInfix_degraded_iff] at occurs
      have inRaw := opening_isInfix_of_repeated held accepted absolute occurs
      rw [kind_eq_of_opening_isInfix scanned finished member spelled configured inRaw] at occurs
      exact occurs
    · intro occurs
      exact ⟨_, wanted, Placeholder.opening_isInfix_degraded_iff.mpr occurs⟩

/-- A composer of a site without files. -/
def emptyComposer : Composer where
  site := Listing.empty.toSite (.atRoot ⟨"/site".toList⟩)

/-- A layout that is not there. -/
def goneLayout : Placeholder where
  name := "/gone".toList
  kind := .layout
  start := 0
  stop := 28
  tag := "<!-- layout:/gone(a=\'x\') -->".toList
  args := ["a=\'x\'".toList]
  style := .call
  document := ⟨"/site/index.html".toList⟩

set_option maxRecDepth 100000 in
/-- Its block holds no opening, and neither do the comments around it. -/
theorem degraded_opens_iff_gone :
    goneLayout.args ≠ [] ∧
      ¬ ∃ kind ∈ emptyComposer.kinds, kind.opening <:+: goneLayout.degraded ⟨100, true⟩ := by
  have scanned : emptyComposer.scan ⟨"/site/index.html".toList⟩ goneLayout.tag =
      .ok [goneLayout] := by decide +kernel
  have finished : emptyComposer.run ⟨"/site/index.html".toList⟩ ⟨100, true⟩ goneLayout.tag
      [goneLayout] {} = .ok (goneLayout.degraded ⟨100, true⟩, {}) := by decide +kernel
  have missed : emptyComposer.site.Misses goneLayout (.unresolved .layout "/gone".toList
      "no file at `/site/gone.html`".toList) := Or.inl (by decide +kernel)
  have opens := degraded_opens_iff rfl scanned finished List.mem_cons_self
    (Or.inr (Or.inl rfl)) missed
  refine ⟨by decide, ?_⟩
  rw [opens.2.2.2 (by decide +kernel)]
  decide +kernel

/-- A part that is not there, by a name that opens another part. -/
def reopeningTag : Placeholder where
  name := "/a<!-- file:/b".toList
  kind := .file
  start := 0
  stop := 28
  tag := "<!-- file:/a<!-- file:/b -->".toList
  args := []
  style := .none
  document := ⟨"/site/index.html".toList⟩

set_option maxRecDepth 100000 in
/-- The block of the part opens a tag that is never closed, and the composition fails. -/
theorem degraded_reopens :
    emptyComposer.scan ⟨"/site/index.html".toList⟩ reopeningTag.tag = .ok [reopeningTag] ∧
      emptyComposer.site.Misses reopeningTag (.unresolved .file reopeningTag.name
        "no file at `/site/a<!-- file:/b.html`".toList) ∧
      emptyComposer.run ⟨"/site/index.html".toList⟩ {} reopeningTag.tag [reopeningTag] {} =
        .ok (reopeningTag.degraded {}, {}) ∧
      Kind.file.opening <:+: reopeningTag.degraded {} ∧
      emptyComposer.scan ⟨"/site/index.html".toList⟩ (reopeningTag.degraded {}) =
        .error (.unterminated "<!-- file:/b</div>".toList ⟨"/site/index.html".toList⟩) ∧
      emptyComposer.composeWith ⟨"/site/index.html".toList⟩ reopeningTag.tag {} =
        .error (.unterminated "<!-- file:/b</div>".toList ⟨"/site/index.html".toList⟩) := by
  refine ⟨?_, Or.inl ?_, ?_, ?_, ?_, ?_⟩ <;> decide +kernel

end Composer

end PageComposer
