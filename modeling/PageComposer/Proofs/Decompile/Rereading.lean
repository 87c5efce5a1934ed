import PageComposer.Proofs.Decompile.Restoration
import PageComposer.Proofs.Layout.Rejoining
import PageComposer.Proofs.Scan.Single

namespace PageComposer

/-!
# Reading a canonical tag

A region is collapsed into the canonical tag of its placeholder, which is written from
what was read: the name as it counts from the root of the site, and the arguments
trimmed and without the blank ones.  It need not be read as it was meant.  A colon form
that had a blank or an empty argument at its end may now end in a parenthesis and be
taken for a call, a name that had a colon loses its empty call, and a folder may have
separators in its name.  Where nothing of this happens the canonical tag is legible, and
it is read as its placeholder exactly then (`scan_canonicalTag_iff`).
-/

/-! ## Names that were read -/

section Names

variable {site : Site} {document : Path} {name front : Text}

theorem isRelativeName_of_isPrefix (leads : front <+: name)
    (relative : isRelativeName front = true) : isRelativeName name = true := by
  simp only [isRelativeName, Text.startsWith, Bool.or_eq_true, List.isPrefixOf_iff_prefix] at *
  exact relative.imp (·.trans leads) (·.trans leads)

theorem isRelativeName_slash (rest : Text) : isRelativeName ('/' :: rest) = false :=
  rfl

/-- A name that counts from the root of the site is not relative any more. -/
theorem isRelativeName_absoluteName : isRelativeName (absoluteName site document name) = false := by
  unfold absoluteName
  split
  · dsimp only
    split
    · rename_i slashed
      rcases List.isPrefixOf_iff_prefix.mp slashed with ⟨rest, equal⟩
      rw [← equal]
      exact isRelativeName_slash rest
    · exact isRelativeName_slash _
  · rename_i absolute
    exact Bool.eq_false_iff.mpr absolute

end Names

namespace Placeholder

/-- The body of the canonical tag. -/
def writtenBody (placeholder : Placeholder) : Text :=
  placeholder.name ++ placeholder.argsSuffix

theorem argsSuffix_of_nil {placeholder : Placeholder} (none : placeholder.args = []) :
    placeholder.argsSuffix = [] := by
  rw [argsSuffix, none]

theorem argsSuffix_of_call {placeholder : Placeholder} (some : placeholder.args ≠ [])
    (style : placeholder.style = .call) :
    placeholder.argsSuffix = '(' :: (Text.joinWith [';'] placeholder.args ++ [')']) := by
  cases args : placeholder.args with
  | nil => exact absurd args some
  | cons first others => rw [argsSuffix, args, style]; rfl

theorem argsSuffix_of_colon {placeholder : Placeholder} (some : placeholder.args ≠ [])
    (style : placeholder.style = .colon) :
    placeholder.argsSuffix = ':' :: Text.joinWith [','] placeholder.args := by
  cases args : placeholder.args with
  | nil => exact absurd args some
  | cons first others => rw [argsSuffix, args, style]

/-- What is known of the placeholder of a file or a layout that was read from a tag. -/
structure WasRead (placeholder : Placeholder) : Prop where
  absolute : isRelativeName placeholder.name = false
  named : placeholder.name ≠ []
  unclosed : ∀ arg ∈ placeholder.args, ¬ tagClose <:+: arg
  style : placeholder.style = .none ↔ placeholder.args = []
  file : placeholder.kind = .file -> placeholder.args = []
  call : placeholder.style = .call -> ¬ Mixed placeholder.args ∧
    Body.splitArgs ';' (Text.joinWith [';'] placeholder.args) = placeholder.args
  colon : placeholder.style = .colon ->
    Body.splitArgs ',' (Text.joinWith [','] placeholder.args) = placeholder.args

/-- The canonical tag of a placeholder is read the way it was written.  No part of its name
is taken for the closing of the tag, for arguments or for the start of arguments, and no
arguments behind a colon are taken for those of a call. -/
structure Legible (placeholder : Placeholder) : Prop where
  closes : ¬ tagClose <:+: placeholder.name
  call : placeholder.kind = .layout -> placeholder.style = .call -> '(' ∉ placeholder.name
  colon : placeholder.kind = .layout -> placeholder.style ≠ .call ->
    ':' ∉ placeholder.name ∧ ¬ Parenthesized (placeholder.name ++ placeholder.argsSuffix)

/-- Both placeholders ask for the same. -/
structure Restates (again placeholder : Placeholder) : Prop where
  kind : again.kind = placeholder.kind
  name : again.name = placeholder.name
  args : again.args = placeholder.args
  style : again.style = placeholder.style

end Placeholder

section Reading

variable {site : Site} {document : Path} {kind : Kind} {start : Nat} {raw : Text}
  {placeholder : Placeholder}

theorem wasRead_of_readTag (held : kind = .file ∨ kind = .layout) (unclosed : ¬ tagClose <:+: raw)
    (accepted : readTag site document kind start raw = .ok placeholder) :
    placeholder.WasRead := by
  rcases readTag_eq_ok_iff.mp accepted with ⟨body, taken, named, equal⟩
  have absolute : isRelativeName placeholder.name = false := by
    rw [equal]
    exact isRelativeName_absoluteName
  have present := readTag_name_ne_nil accepted
  rcases held with isFile | isLayout
  · subst isFile
    cases taken
    subst equal
    constructor <;> simp_all [Body.plain]
  · subst isLayout
    rcases exists_layoutBody_of_ofCall taken named with ⟨args, style, written, agreeing, same⟩
    rcases written.splitArgs_joinWith with ⟨call, colon, plain⟩
    have argsEqual : placeholder.args = args := by
      rw [equal, same]
      rfl
    have styleEqual : placeholder.style = if args.isEmpty then .none else style := by
      rw [equal, same]
      rfl
    have isLayout : placeholder.kind = .layout := by rw [equal]
    refine ⟨absolute, present, ?_, ?_, by simp [isLayout], ?_, ?_⟩
    · rw [argsEqual]
      exact fun arg member closed => unclosed (closed.trans (written.arg_isInfix arg member))
    · rw [argsEqual, styleEqual]
      cases args with
      | nil => simp
      | cons first others => simpa using fun isNone => plain isNone
    · rw [argsEqual, styleEqual]
      intro isCall
      split at isCall
      · cases isCall
      · exact ⟨agreeing isCall, call isCall⟩
    · rw [argsEqual, styleEqual]
      intro isColon
      split at isColon
      · cases isColon
      · exact colon isColon

end Reading

namespace Placeholder.WasRead

variable {placeholder : Placeholder}

/-- The arguments are written in one of three ways. -/
theorem argsSuffix_cases (wasRead : placeholder.WasRead) :
    (placeholder.style = .none ∧ placeholder.args = [] ∧ placeholder.argsSuffix = []) ∨
    (placeholder.style = .call ∧ placeholder.args ≠ [] ∧
      placeholder.argsSuffix = '(' :: (Text.joinWith [';'] placeholder.args ++ [')'])) ∨
    (placeholder.style = .colon ∧ placeholder.args ≠ [] ∧
      placeholder.argsSuffix = ':' :: Text.joinWith [','] placeholder.args) := by
  have given (style : placeholder.style ≠ .none) : placeholder.args ≠ [] :=
    fun nothing => style (wasRead.style.mpr nothing)
  cases style : placeholder.style with
  | none =>
      have nothing := wasRead.style.mp style
      exact Or.inl ⟨rfl, nothing, argsSuffix_of_nil nothing⟩
  | call =>
      have some := given (by simp [style])
      exact Or.inr (Or.inl ⟨rfl, some, argsSuffix_of_call some style⟩)
  | colon =>
      have some := given (by simp [style])
      exact Or.inr (Or.inr ⟨rfl, some, argsSuffix_of_colon some style⟩)

theorem writtenBody_absolute (wasRead : placeholder.WasRead) :
    isRelativeName placeholder.writtenBody = false := by
  have behind {separator : Char} (rest : Text) (other : separator ∉ ['.', '.', '/']) :
      isRelativeName (placeholder.name ++ separator :: rest) = false := by
    rw [Bool.eq_false_iff]
    intro relative
    apply Bool.eq_false_iff.mp wasRead.absolute
    simp only [isRelativeName, Text.startsWith, Bool.or_eq_true, List.isPrefixOf_iff_prefix]
      at relative ⊢
    refine relative.imp (Text.isPrefix_of_isPrefix_append_cons fun member => other ?_)
      (Text.isPrefix_of_isPrefix_append_cons other)
    exact List.mem_cons_of_mem _ member
  unfold writtenBody
  rcases wasRead.argsSuffix_cases with ⟨_, _, suffix⟩ | ⟨_, _, suffix⟩ | ⟨_, _, suffix⟩ <;>
    rw [suffix]
  · rw [List.append_nil]
    exact wasRead.absolute
  · exact behind _ (by decide)
  · exact behind _ (by decide)

theorem writtenBody_unclosed (wasRead : placeholder.WasRead)
    (closes : ¬ tagClose <:+: placeholder.name) : ¬ tagClose <:+: placeholder.writtenBody := by
  have joined (separator : Char) (foreign : separator ∉ tagClose) :
      ¬ tagClose <:+: Text.joinWith [separator] placeholder.args := by
    intro closed
    rcases Text.isInfix_of_isInfix_joinWith foreign (List.cons_ne_nil _ _) closed with
      ⟨arg, member, inside⟩
    exact wasRead.unclosed arg member inside
  unfold writtenBody
  rcases wasRead.argsSuffix_cases with ⟨_, _, suffix⟩ | ⟨_, _, suffix⟩ | ⟨_, _, suffix⟩ <;>
    rw [suffix]
  · rwa [List.append_nil]
  · intro closed
    rcases Text.isInfix_of_isInfix_append_cons (by decide) closed with inName | behind
    · exact closes inName
    · rcases Text.isInfix_of_isInfix_append_cons (by decide) behind with inArgs | ended
      · exact joined ';' (by decide) inArgs
      · exact absurd (List.infix_nil.mp ended) (List.cons_ne_nil _ _)
  · intro closed
    rcases Text.isInfix_of_isInfix_append_cons (by decide) closed with inName | inArgs
    · exact closes inName
    · exact joined ',' (by decide) inArgs

/-- A legible layout tag is taken apart where it was put together. -/
theorem layoutBody (wasRead : placeholder.WasRead) (legible : placeholder.Legible)
    (isLayout : placeholder.kind = .layout) :
    LayoutBody placeholder.writtenBody placeholder.name placeholder.args placeholder.style := by
  rcases wasRead.argsSuffix_cases with
    ⟨style, args, suffix⟩ | ⟨style, _, suffix⟩ | ⟨style, _, suffix⟩
  · have bare := legible.colon isLayout (by simp [style])
    rw [suffix, List.append_nil] at bare
    rw [writtenBody, suffix, args, style, List.append_nil]
    exact .plain bare.1 bare.2
  · have written := @LayoutBody.call _ (Text.joinWith [';'] placeholder.args)
      (legible.call isLayout style)
    rw [(wasRead.call style).2] at written
    rwa [writtenBody, suffix, style]
  · have bare := legible.colon isLayout (by simp [style])
    rw [suffix] at bare
    have written := LayoutBody.colon bare.1 bare.2
    rw [wasRead.colon style] at written
    rwa [writtenBody, suffix, style]

/-- Only a legible layout tag is taken apart like that. -/
theorem legible_of_layoutBody (wasRead : placeholder.WasRead)
    (closes : ¬ tagClose <:+: placeholder.name) {style : ArgsStyle}
    (written : LayoutBody placeholder.writtenBody placeholder.name placeholder.args style)
    (same : placeholder.args ≠ [] -> placeholder.style = style) : placeholder.Legible := by
  have notCall (other : style ≠ .call) : placeholder.style ≠ .call := by
    intro isCall
    by_cases nothing : placeholder.args = []
    · rw [wasRead.style.mpr nothing] at isCall
      cases isCall
    · exact other ((same nothing).symm.trans isCall)
  generalize body : placeholder.writtenBody = raw at written
  generalize args : placeholder.args = given at written
  cases written with
  | call bare =>
      refine ⟨closes, fun _ _ => bare, fun _ other => absurd (same fun nothing => ?_) other⟩
      rw [writtenBody, argsSuffix_of_nil nothing] at body
      simp at body
  | colon bare noCall =>
      refine ⟨closes, fun _ isCall => absurd isCall (notCall (by simp)), fun _ _ => ⟨bare, ?_⟩⟩
      rwa [← body] at noCall
  | plain bare noCall =>
      refine ⟨closes, fun _ isCall => absurd isCall (notCall (by simp)), fun _ _ => ⟨bare, ?_⟩⟩
      rwa [← body] at noCall

end Placeholder.WasRead

section Rereading

variable {site : Site} {document : Path} {start : Nat} {raw : Text}
  {placeholder again : Placeholder}

namespace Placeholder.WasRead

/-- A name that is read from the front of the canonical tag is not relative. -/
theorem name_of_readTag (wasRead : placeholder.WasRead)
    (leads : raw <+: placeholder.writtenBody)
    (accepted : readTag site document placeholder.kind start raw = .ok again) :
    ∃ body, Body.ofRaw placeholder.kind raw (placeholder.kind.opening ++ raw ++ tagClose) =
        .ok body ∧ body.name ≠ [] ∧ body.name <+: raw ∧ again.name = body.name ∧
        again.args = body.args ∧ again.style = body.style := by
  rcases readTag_eq_ok_iff.mp accepted with ⟨body, taken, named, equal⟩
  have inside := name_isPrefix_of_ofRaw taken
  have absolute : isRelativeName body.name = false := by
    rw [Bool.eq_false_iff]
    intro relative
    exact Bool.eq_false_iff.mp wasRead.writtenBody_absolute
      (isRelativeName_of_isPrefix (inside.trans leads) relative)
  refine ⟨body, taken, named, inside, ?_, ?_, ?_⟩ <;> rw [equal]
  exact absoluteName_of_absolute absolute

/-- Read as a whole, only a legible tag is read as its placeholder. -/
theorem legible_of_readTag (wasRead : placeholder.WasRead)
    (held : placeholder.kind = .file ∨ placeholder.kind = .layout)
    (closes : ¬ tagClose <:+: placeholder.name)
    (accepted : readTag site document placeholder.kind start placeholder.writtenBody = .ok again)
    (restates : again.Restates placeholder) : placeholder.Legible := by
  rcases wasRead.name_of_readTag List.prefix_rfl accepted with
    ⟨body, taken, named, _, name, args, style⟩
  rcases held with isFile | isLayout
  · exact ⟨closes, by simp [isFile], by simp [isFile]⟩
  · rw [isLayout] at taken
    rcases exists_layoutBody_of_ofCall taken named with ⟨given, form, written, _, equal⟩
    rw [← name, restates.name] at written
    have sameArgs : placeholder.args = given := by
      rw [← restates.args, args, equal]
      rfl
    rw [← sameArgs] at written
    refine wasRead.legible_of_layoutBody closes written fun some => ?_
    rw [← restates.style, style, equal, Body.withArgs, ← sameArgs, if_neg]
    exact fun nothing => some (List.isEmpty_iff.mp nothing)

/-- A legible tag is read as its placeholder. -/
theorem readTag_of_legible (wasRead : placeholder.WasRead)
    (held : placeholder.kind = .file ∨ placeholder.kind = .layout) (legible : placeholder.Legible) :
    ∃ again, readTag site document placeholder.kind start placeholder.writtenBody = .ok again ∧
      again.Restates placeholder := by
  have absolute : absoluteName site document placeholder.name = placeholder.name :=
    absoluteName_of_absolute wasRead.absolute
  have read {body : Body}
      (taken : Body.ofRaw placeholder.kind placeholder.writtenBody
        (placeholder.kind.opening ++ placeholder.writtenBody ++ tagClose) = .ok body)
      (name : body.name = placeholder.name) (args : body.args = placeholder.args)
      (style : body.style = placeholder.style) :
      ∃ again, readTag site document placeholder.kind start placeholder.writtenBody = .ok again ∧
        again.Restates placeholder := by
    refine ⟨_, readTag_eq_ok_iff.mpr ⟨body, taken, name ▸ wasRead.named, rfl⟩, rfl, ?_, args, style⟩
    rw [name]
    exact absolute
  rcases held with isFile | isLayout
  · have nothing := wasRead.file isFile
    apply @read (Body.plain placeholder.writtenBody)
    · rw [isFile]
      rfl
    · rw [writtenBody, argsSuffix_of_nil nothing, List.append_nil]
      rfl
    · exact nothing.symm
    · exact (wasRead.style.mpr nothing).symm
  · have written := wasRead.layoutBody legible isLayout
    apply @read (Body.withArgs placeholder.name placeholder.args placeholder.style)
    · rw [isLayout]
      exact written.ofCall_of_agreeing wasRead.named (fun isCall => (wasRead.call isCall).1) _
    · rfl
    · rfl
    · unfold Body.withArgs
      cases args : placeholder.args with
      | nil => exact (wasRead.style.mpr args).symm
      | cons => rfl

end Placeholder.WasRead

/-- Scanned for its own kind, a canonical tag is read as its placeholder exactly if it is
legible. -/
theorem Placeholder.WasRead.scanKind_canonicalTag_iff (wasRead : placeholder.WasRead)
    (held : placeholder.kind = .file ∨ placeholder.kind = .layout) :
    (∃ again, scanKind site document placeholder.kind placeholder.canonicalTag = .ok [again] ∧
      again.Restates placeholder) ↔ placeholder.Legible := by
  constructor
  · rintro ⟨again, scanned, restates⟩
    rw [canonicalTag, List.append_assoc] at scanned
    rcases exists_readTag_of_scanKind scanned with ⟨raw, rest, closed, accepted⟩
    have joined := Text.cut?_join closed
    have leads : raw <+: placeholder.writtenBody := by
      refine List.prefix_of_prefix_length_le ?_ (List.prefix_append _ tagClose)
        (Text.cut?_first closed (List.append_nil _).symm)
      exact ⟨tagClose ++ rest, by rw [← List.append_assoc]; exact joined.symm⟩
    rcases wasRead.name_of_readTag leads accepted with ⟨_, _, _, inside, name, _, _⟩
    rw [← name, restates.name] at inside
    have closes : ¬ tagClose <:+: placeholder.name := fun within =>
      Text.not_isInfix_of_cut? closed (List.cons_ne_nil _ _) (within.trans inside.isInfix)
    have whole := Text.cut?_tagClose_append (wasRead.writtenBody_unclosed closes) []
    rw [List.append_nil] at whole
    have same := Option.some.inj (closed.symm.trans whole)
    cases same
    exact wasRead.legible_of_readTag held closes accepted restates
  · intro legible
    rcases wasRead.readTag_of_legible held legible with ⟨again, accepted, restates⟩
    refine ⟨again, ?_, restates⟩
    have read := @scanKindFrom_tag_append site document placeholder.kind 0 _
      (wasRead.writtenBody_unclosed legible.closes) []
    rw [List.append_nil, accepted] at read
    dsimp only [bind, Except.bind] at read
    rw [scanKindFrom_nil] at read
    exact read

end Rereading

/-- The canonical tag of a file or a layout that was found in a document is found again as
the same one, and as the only one, exactly if it is legible, its kind is looked for once and
none of the other kinds that are looked for opens in it. -/
theorem scan_canonicalTag_iff {site : Site} {document : Path} {kinds again : List Kind}
    {text : Text} {placeholders : List Placeholder} {placeholder : Placeholder}
    (scanned : scan site document kinds text = .ok placeholders)
    (member : placeholder ∈ placeholders)
    (held : placeholder.kind = .file ∨ placeholder.kind = .layout) :
    (∃ tag, scan site document again placeholder.canonicalTag = .ok [tag] ∧
        tag.Restates placeholder) ↔
      placeholder.Legible ∧ ∃ before after, again = before ++ placeholder.kind :: after ∧
        ∀ kind ∈ before ++ after, ¬ kind.opening <:+: placeholder.canonicalTag := by
  rcases mem_scanKind_of_scan scanned member with ⟨kind, _, found, read, within⟩
  rcases scanKindFrom_member read placeholder within with ⟨start, raw, unclosed, accepted⟩
  have same := readTag_kind accepted
  rw [← same] at accepted
  have wasRead := wasRead_of_readTag held unclosed accepted
  rw [← @Placeholder.WasRead.scanKind_canonicalTag_iff site document _ wasRead held]
  constructor
  · rintro ⟨tag, rescanned, restates⟩
    rcases scan_eq_singleton_iff.mp rescanned with ⟨single, others⟩
    rw [restates.kind] at single others
    exact ⟨⟨tag, single, restates⟩, others⟩
  · rintro ⟨⟨tag, single, restates⟩, others⟩
    rw [← restates.kind] at single others
    exact ⟨tag, scan_eq_singleton_iff.mpr ⟨single, others⟩, restates⟩

/-- A site without files. -/
def emptySite : Site :=
  Listing.empty.toSite (.atRoot ⟨"/site".toList⟩)

/-- A call with more blanks and separators than it needs. -/
def looseCall : Placeholder where
  name := "/base".toList
  kind := .layout
  start := 1
  stop := 38
  tag := "<!-- layout:/base( a=/x;; b=(1) ) -->".toList
  args := ["a=/x".toList, "b=(1)".toList]
  style := .call
  document := ⟨"/site/index.html".toList⟩

theorem scan_canonicalTag_of_looseCall :
    scan emptySite ⟨"/site/index.html".toList⟩ [.layout] ('-' :: looseCall.tag) =
        .ok [looseCall] ∧
      looseCall ∈ [looseCall] ∧ (looseCall.kind = .file ∨ looseCall.kind = .layout) ∧
      looseCall.canonicalTag = "<!-- layout:/base(a=/x;b=(1)) -->".toList ∧
      ∃ tag, scan emptySite ⟨"/site/index.html".toList⟩ [.file, .layout] looseCall.canonicalTag =
        .ok [tag] ∧ tag.Restates looseCall := by
  have scanned : scan emptySite ⟨"/site/index.html".toList⟩ [.layout] ('-' :: looseCall.tag) =
      .ok [looseCall] := by decide +kernel
  have legible : looseCall.Legible :=
    ⟨by decide, fun _ _ => by decide, fun _ other => absurd rfl other⟩
  refine ⟨scanned, List.mem_singleton_self _, Or.inr rfl, by decide, ?_⟩
  apply (scan_canonicalTag_iff scanned (List.mem_singleton_self _) (Or.inr rfl)).mpr
  exact ⟨legible, [.file], [], rfl, by decide⟩

/-- A colon form with a blank at its end. -/
def blankEnded : Placeholder where
  name := "/base".toList
  kind := .layout
  start := 0
  stop := 36
  tag := "<!-- layout:/base:file:/note(1)  -->".toList
  args := ["file:/note(1)".toList]
  style := .colon
  document := ⟨"/site/index.html".toList⟩

/-- Without the blank it ends in a parenthesis and is taken for a call. -/
theorem canonicalTag_of_blankEnded_is_call :
    scan emptySite ⟨"/site/index.html".toList⟩ [.file, .layout] blankEnded.tag =
        .ok [blankEnded] ∧
      ¬ ∃ tag, scan emptySite ⟨"/site/index.html".toList⟩ [.file, .layout]
          blankEnded.canonicalTag = .ok [tag] ∧ tag.Restates blankEnded := by
  have scanned : scan emptySite ⟨"/site/index.html".toList⟩ [.file, .layout]
      blankEnded.canonicalTag = .ok [{ blankEnded with
        name := "/base:file:/note".toList
        stop := 35
        tag := "<!-- layout:/base:file:/note(1) -->".toList
        args := ["1".toList]
        style := .call }] := by decide +kernel
  refine ⟨by decide +kernel, ?_⟩
  rintro ⟨tag, again, restates⟩
  rw [scanned] at again
  cases again
  exact absurd restates.style (by decide)

end PageComposer
