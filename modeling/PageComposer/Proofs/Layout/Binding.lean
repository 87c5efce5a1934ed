import PageComposer.Proofs.Layout.Filling
import PageComposer.Proofs.Scan.Meeting

namespace PageComposer

/-!
# What a layout tag is replaced by

The arguments of a layout tag and the slots of its layout are both known before
anything is filled.  `Fills` says which value each slot receives and what the
filled layout is.  It holds of every tag whose arguments agree, in each of the
ways to write them down, and a tag whose arguments do not agree is refused
(`Composer.layoutText_fills`).
-/

namespace Composer

/-- What a layout tag is replaced by when its slots receive `values`. -/
structure Fills (composer : Composer) (tag : Placeholder) (contents : Text)
    (slots : List Placeholder) (values : List (Option Text)) : Prop where
  sizes : values.length = slots.length
  byPosition : (∀ arg ∈ tag.args, isNamedArgument arg = false) -> Aligned tag.args values
  byName : (∀ arg ∈ tag.args, isNamedArgument arg = true) -> Keyed tag.args slots values
  /-- All slots are replaced at once, and everything else is kept. -/
  success : ∀ body, composer.layoutText tag = .ok body ↔
    ∃ texts, List.Forall₂ (Filled composer) (slots.zip values) texts ∧
      body = Text.trim (substitute (slots.zip texts) (Text.trim contents))
  /-- The filled layout is put in place of the tag. -/
  inserted : ∀ body, composer.layoutText tag = .ok body -> ∀ template options state,
    composer.step template options state tag =
      .ok (state.put tag (tag.region options.markRegions body))
  /-- Of the slots that cannot be filled the last one is reported. -/
  untyped : ∀ former slot value part later,
    slots.zip values = former ++ (slot, some value) :: later ->
    (∀ other ∈ later, ∃ text, Filled composer other text) ->
    FirstUntyped composer value part ->
    composer.layoutText tag = .error (.missingTypePrefix (reportedPart value part))

variable {composer : Composer} {tag : Placeholder} {path : Path} {contents : Text}
  {slots : List Placeholder}

theorem LayoutRead.exists_fills (layout : LayoutRead composer tag path contents slots)
    (isLayout : tag.kind = .layout) (uniform : ¬ Mixed tag.args) :
    ∃ values, Fills composer tag contents slots values := by
  rcases exists_mode_of_not_mixed uniform tag.tag with ⟨mode, detected, received⟩
  refine ⟨slotValues mode tag.args slots, length_slotValues mode tag.args slots, (received slots).1,
    (received slots).2, fun body => layoutText_eq_ok_iff layout detected, ?_, ?_⟩
  · intro body filled template options state
    unfold step
    rw [isLayout]
    dsimp only
    rw [filled]
    rfl
  · intro former slot value part later split filled first
    exact layoutText_of_firstUntyped layout detected split filled first

/-- Named arguments with distinct keys may come in any order. -/
theorem LayoutRead.layoutText_of_perm (layout : LayoutRead composer tag path contents slots)
    {other : Placeholder} (located : composer.site.locate other = .ok path)
    (same : other.args.Perm tag.args) (named : ∀ arg ∈ tag.args, isNamedArgument arg = true)
    (distinct : DistinctKeys tag.args) :
    composer.layoutText other = composer.layoutText tag := by
  have otherLayout : LayoutRead composer other path contents slots :=
    ⟨located, layout.read, layout.scanned⟩
  rw [otherLayout.layoutText_eq, layout.layoutText_eq]
  by_cases empty : tag.args = []
  · rw [empty] at same
    rw [empty, same.eq_nil]
    rfl
  · have otherNamed : ∀ arg ∈ other.args, isNamedArgument arg = true :=
      fun arg member => named arg (same.mem_iff.mp member)
    have otherNonempty : other.args ≠ [] :=
      fun equal => empty (List.nil_perm.mp (equal ▸ same))
    rw [detect_of_uniform tag.tag empty named, detect_of_uniform other.tag otherNonempty otherNamed]
    change (composer.fillSlots .byName other.args slots.reverse.zipIdx _ >>= _) =
      composer.fillSlots .byName tag.args slots.reverse.zipIdx _ >>= _
    rw [fillSlots_congr (boundValue?_of_perm distinct same)]

/-- A layout tag with named and positional arguments is refused: between
parentheses it cannot be read where it stands, and behind a colon it cannot be
resolved.  Every other tag is read with the arguments that it gives, which find
their slots by name or by position. -/
theorem layoutText_fills (composer : Composer) (document : Path) {raw name : Text}
    {args : List Text} {style : ArgsStyle} (written : LayoutBody raw name args style)
    (named : name ≠ []) :
    (style = .call -> Mixed args -> ¬ tagClose <:+: raw -> ∀ before earlier after,
      scanKind composer.site document .layout before = .ok earlier ->
      scanKind composer.site document .layout
          (before ++ (Kind.layout.opening ++ raw ++ tagClose ++ after)) =
        .error (.mixedArguments (Kind.layout.opening ++ raw ++ tagClose))) ∧
    ((style = .call -> ¬ Mixed args) -> ∀ start, ∃ tag,
      readTag composer.site document .layout start raw = .ok tag ∧ tag.args = args ∧
      ∀ path contents slots, LayoutRead composer tag path contents slots ->
        (Mixed args -> ∀ template options state, composer.step template options state tag =
          .error (.mixedArguments (Kind.layout.opening ++ raw ++ tagClose))) ∧
        (¬ Mixed args -> ∃ values, Fills composer tag contents slots values) ∧
        ((∀ arg ∈ args, isNamedArgument arg = true) -> DistinctKeys args ->
          ∀ other, composer.site.locate other = .ok path -> other.args.Perm args ->
            composer.layoutText other = composer.layoutText tag)) := by
  constructor
  · intro call mixed unclosed before earlier after scanned
    subst call
    unfold scanKind at scanned ⊢
    rw [scanKindFrom_append_tag scanned unclosed, written.readTag_of_mixed mixed]
    rfl
  · intro agreeing start
    rcases written.exists_readTag composer.site document start named agreeing with
      ⟨tag, accepted, isLayout, spelled, given⟩
    refine ⟨tag, accepted, given, fun path contents slots layout => ⟨?_, ?_, ?_⟩⟩
    · intro mixed template options state
      rw [← given] at mixed
      unfold step
      rw [isLayout]
      dsimp only
      rw [layoutText_of_mixed layout mixed, spelled]
      rfl
    · intro uniform
      rw [← given] at uniform
      exact layout.exists_fills isLayout uniform
    · intro allNamed distinct other located same
      rw [← given] at allNamed distinct same
      exact layout.layoutText_of_perm located same allNamed distinct

/-- A layout with two slots. -/
def pairSite : Listing :=
  ⟨[(⟨"/site/pair.html".toList⟩,
    "<p><!-- content:left -->|<!-- content:right --></p>\n".toList)]⟩

def pairComposer : Composer where
  site := pairSite.toSite (.atRoot ⟨"/site".toList⟩)

/-- A tag with an argument more than there are slots. -/
def surplusTag : Placeholder where
  name := "/pair".toList
  kind := .layout
  start := 0
  stop := 42
  tag := "<!-- layout:/pair('x';'y','z';file:/a) -->".toList
  args := ["'x'".toList, "'y','z'".toList, "file:/a".toList]
  style := .call
  document := ⟨"/site/index.html".toList⟩

/-- The slots of the layout. -/
def pairSlots : List Placeholder :=
  let slot (name : Text) (start stop : Nat) : Placeholder :=
    { name := name, kind := .content, start := start, stop := stop
      tag := Kind.content.opening ++ name ++ tagClose, args := [], style := .none
      document := ⟨"/site/pair.html".toList⟩ }
  [slot "left".toList 3 24, slot "right".toList 25 47]

set_option maxRecDepth 100000 in
theorem layoutText_fills_last_slots :
    LayoutBody "/pair('x';'y','z';file:/a)".toList "/pair".toList surplusTag.args .call ∧
      readTag pairComposer.site ⟨"/site/index.html".toList⟩ .layout 0
        "/pair('x';'y','z';file:/a)".toList = .ok surplusTag ∧
      pairComposer.layoutText surplusTag = .ok "<p>yz|<!-- file:/a --></p>".toList := by
  have written : LayoutBody "/pair('x';'y','z';file:/a)".toList "/pair".toList surplusTag.args
      .call := @LayoutBody.call "/pair".toList "'x';'y','z';file:/a".toList (by decide)
  have positional : ∀ arg ∈ surplusTag.args, isNamedArgument arg = false := by decide
  have uniform : ¬ Mixed surplusTag.args := by
    rw [← argumentsAgree_eq_false_iff]
    decide
  have accepted : readTag pairComposer.site ⟨"/site/index.html".toList⟩ .layout 0
      "/pair('x';'y','z';file:/a)".toList = .ok surplusTag := by decide +kernel
  have layout : LayoutRead pairComposer surplusTag ⟨"/site/pair.html".toList⟩
      "<p><!-- content:left -->|<!-- content:right --></p>\n".toList pairSlots :=
    ⟨by decide +kernel, by decide +kernel, by decide +kernel⟩
  rcases (layoutText_fills pairComposer ⟨"/site/index.html".toList⟩ written (by decide)).2
    (fun _ => uniform) 0 with ⟨tag, read, _, resolved⟩
  rw [accepted] at read
  cases read
  rcases (resolved _ _ _ layout).2.1 uniform with ⟨values, fills⟩
  have aligned := fills.byPosition positional
  have last := aligned.received 0 (by decide) (by rw [fills.sizes]; decide)
  have former := aligned.received 1 (by decide) (by rw [fills.sizes]; decide)
  rw [fills.sizes] at last former
  have received : values = [some "'y','z'".toList, some "file:/a".toList] := by
    rcases List.length_eq_two.mp fills.sizes with ⟨first, second, equal⟩
    subst equal
    have firstValue : some first = some (some "'y','z'".toList) := former
    have secondValue : some second = some (some "file:/a".toList) := last
    rw [Option.some.inj firstValue, Option.some.inj secondValue]
  refine ⟨written, accepted, (fills.success _).mpr
    ⟨["yz".toList, "<!-- file:/a -->".toList], ?_, by decide +kernel⟩⟩
  rw [received]
  have literal : ValueMarkup pairComposer (some "'y','z'".toList) "yz".toList :=
    bindValues_eq_ok_iff.mp (by decide +kernel)
  have reference : ValueMarkup pairComposer (some "file:/a".toList) "<!-- file:/a -->".toList :=
    bindValues_eq_ok_iff.mp (by decide +kernel)
  exact .cons ⟨_, literal, .bare (by decide)⟩ (.cons ⟨_, reference, .bare (by decide)⟩ .nil)

end Composer
end PageComposer
