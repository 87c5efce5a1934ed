import PageComposer.Proofs.Path.Characters
import PageComposer.Proofs.Path.Markup

namespace PageComposer

/-!
# Addresses and absolute names

The paths of a site are made of characters that mean nothing in markup
(`Plainly`).  Under such paths the absolute form of a tidy name is tidy again
(`tidy_absoluteName`), so a tag can be written anew with the name that it was
read with.
-/

/-- A letter, a digit, or one of the marks that paths are made of. -/
def isPathCharacter (character : Char) : Bool :=
  isLetter character || character.isDigit || ['/', '.', '-', '_'].contains character

/-- A text of path characters. -/
def Plainly (text : Text) : Prop :=
  ∀ character ∈ text, isPathCharacter character = true

instance (text : Text) : Decidable (Plainly text) :=
  decidable_of_iff (text.all isPathCharacter = true) List.all_eq_true

theorem Plainly.without {text : Text} (plainly : Plainly text) : '<' ∉ text ∧ ' ' ∉ text := by
  refine ⟨fun bracket => ?_, fun blank => ?_⟩
  · exact absurd (plainly _ bracket) (by decide)
  · exact absurd (plainly _ blank) (by decide)

theorem Plainly.tidy {text : Text} (plainly : Plainly text) : Tidy text :=
  Tidy.of_without plainly.without.1 plainly.without.2

/-! ## Paths below a directory -/

theorem IsMarkupSegments.dropFillerEnd {segments : List Text}
    (markup : IsMarkupSegments segments) : Path.dropFillerEnd segments = segments := by
  unfold Path.dropFillerEnd
  cases reversed : segments.reverse with
  | nil => rw [List.reverse_eq_nil_iff.mp reversed]; rfl
  | cons last before =>
      have ends : segments.getLast? = some last := by
        rw [List.getLast?_eq_head?_reverse, reversed]
        rfl
      have kept := (not_isFiller_of_suffixed (markup.last last ends).1).1
      rw [List.dropWhile_cons_of_neg (by simp [kept]), ← reversed, List.reverse_reverse]

theorem IsMarkupPath.relativeTo? {path base rest : Path} (markup : IsMarkupPath path.text)
    (below : path.relativeTo? base = some rest) : Tidy rest.text := by
  have segments : IsMarkupSegments path.segments := markup.behind_start.splitOn
  unfold Path.relativeTo? at below
  split at below
  · split at below
    · cases below
      change Tidy (path.start.text ++ Text.joinWith ['/'] (Path.dropFillerEnd path.segments))
      rw [segments.dropFillerEnd, Path.segments, Text.joinWith, List.intercalate_splitOn,
        start_text_append_drop]
      exact markup.tidy
    · cases below
      have inside := segments.of_suffix ((List.dropWhile_suffix Path.isFiller).trans
        (dropParts_suffix (base.parts.length - path.start.parts.length) path.segments))
      change Tidy (Text.joinWith ['/'] (Path.dropFillerEnd _))
      rw [inside.dropFillerEnd]
      by_cases empty : List.dropWhile Path.isFiller
          (Path.dropParts (base.parts.length - path.start.parts.length) path.segments) = []
      · rw [empty]
        exact Tidy.nil
      · exact (inside.joinWith empty).tidy
  · cases below

theorem opensElement_map {change : Char -> Char} (text : Text)
    (kept : ∀ character, character.isAlpha = true ∨ character = '/' ∨ character = '!' ->
      change character = character)
    (letters : ∀ character, isLetter character = true -> isLetter (change character) = true)
    (opens : opensElement text = true) : opensElement (text.map change) = true := by
  cases text with
  | nil => cases opens
  | cons head rest =>
      by_cases slash : head = '/'
      · subst slash
        rw [List.map_cons, kept _ (by simp)]
        rfl
      · by_cases bang : head = '!'
        · subst bang
          cases rest with
          | nil => exact absurd opens (by decide)
          | cons next others =>
              rw [List.map_cons, List.map_cons, kept _ (by simp)]
              exact letters next opens
        · rw [opensElement_cons _ slash bang] at opens
          rw [List.map_cons, kept _ (Or.inl opens), opensElement_cons _ slash bang]
          exact opens

theorem isInfix_of_isInfix_map {change : Char -> Char} {needle text : Text}
    (kept : ∀ character, change character ∈ needle -> change character = character)
    (occurs : needle <:+: text.map change) : needle <:+: text := by
  rcases occurs with ⟨front, back, joined⟩
  rcases List.map_eq_append_iff.mp joined.symm with ⟨before, last, split, first, _⟩
  rcases List.map_eq_append_iff.mp first with ⟨former, inner, frontSplit, _, image⟩
  have same : inner.map change = inner.map id := by
    apply List.map_congr_left
    intro character member
    exact kept character (image ▸ List.mem_map_of_mem member)
  rw [List.map_id] at same
  refine ⟨former, last, ?_⟩
  rw [split, frontSplit, ← image, same]

/-- A text stays tidy under a change of characters that keeps what opens an element and
makes no character of a bracket. -/
theorem Tidy.map {change : Char -> Char}
    (kept : ∀ character, character.isAlpha = true ∨ character = '/' ∨ character = '!' ->
      change character = character)
    (letters : ∀ character, isLetter character = true -> isLetter (change character) = true)
    (made : ∀ character, change character ∈ '<' :: tagClose -> change character = character)
    {text : Text} (tidy : Tidy text) : Tidy (text.map change) := by
  refine ⟨?_, fun closed => tidy.unclosed (isInfix_of_isInfix_map ?_ closed)⟩
  · have plain := tidy.plain
    clear tidy
    induction text with
    | nil => rfl
    | cons head rest inductionHypothesis =>
        have parts := isPlain_cons.mp plain
        rw [List.map_cons]
        apply isPlain_cons.mpr
        refine ⟨fun bracket => ?_, inductionHypothesis parts.2⟩
        apply opensElement_map rest kept letters
        apply parts.1
        rw [← made head (bracket ▸ List.mem_cons_self), bracket]
  · exact fun character inside => made character (List.mem_cons_of_mem _ inside)

theorem Tidy.shown {stray : Stray} {text : Text} (tidy : Tidy text) : Tidy (stray.shown text) := by
  apply tidy.map
  · intro character usual
    have ascii : character.toNat < 128 := by
      rcases usual with letter | rfl | rfl
      · exact Nat.lt_of_le_of_lt (toNat_of_isAlpha letter).2 (by decide)
      · decide
      · decide
    have text : stray.isText [character] = true :=
      Stray.isText_of_ascii (List.forall_mem_singleton.mpr ascii)
    exact List.singleton_inj.mp (Stray.shown_of_isText text)
  · intro character letter
    split
    · decide
    · exact letter
  · intro character made
    split at made
    · exact absurd made (by decide)
    · rename_i text
      exact if_neg text

/-- Turning backslashes into slashes keeps a text tidy. -/
theorem Tidy.slashed {stray : Stray} {path : Path} (tidy : Tidy path.text) :
    Tidy (Addressing.slashed stray path) := by
  have other {character : Char} (different : character ≠ '\\') :
      (if character = '\\' then '/' else character) = character :=
    if_neg different
  apply tidy.shown.map
  · intro character usual
    apply other
    rintro rfl
    exact absurd usual (by decide)
  · intro character letter
    rw [other]
    · exact letter
    · rintro rfl
      exact absurd letter (by decide)
  · intro character made
    split at made
    · exact absurd made (by decide)
    · rename_i different
      exact other different

/-! ## Addresses -/

/-- The root and the named directories have plain paths and names. -/
structure Addressing.IsPlain (addressing : Addressing) : Prop where
  root : Plainly addressing.root.text
  named : ∀ entry ∈ addressing.named, Plainly entry.1 ∧ Plainly entry.2.text

instance (addressing : Addressing) : Decidable addressing.IsPlain :=
  decidable_of_iff
    (Plainly addressing.root.text ∧
      ∀ entry ∈ addressing.named, Plainly entry.1 ∧ Plainly entry.2.text)
    ⟨fun both => ⟨both.1, both.2⟩, fun plain => ⟨plain.root, plain.named⟩⟩

theorem Tidy.cons_slash {text : Text} (tidy : Tidy text) : Tidy ('/' :: text) :=
  Tidy.nil.append_cons (by decide) (by decide) tidy

theorem IsMarkupPath.address {addressing : Addressing} (plain : addressing.IsPlain) {path : Path}
    (markup : IsMarkupPath path.text) : Tidy (addressing.address path) := by
  have normal := markup.normalize
  unfold Addressing.address
  dsimp only
  split
  · rename_i found below
    rcases List.exists_of_findSome?_eq_some below with ⟨entry, member, inside⟩
    rcases Option.map_eq_some_iff.mp inside with ⟨rest, relative, equal⟩
    have name := (plain.named entry (Addressing.mem_deepestFirst.mp member)).1
    have behind : Tidy (Addressing.slashed addressing.stray rest) :=
      (normal.relativeTo? relative).slashed
    rw [← equal, List.cons_append]
    exact (name.tidy.append_cons (by decide) (by decide) behind).cons_slash
  · split
    · rename_i rest relative
      exact (normal.relativeTo? relative).slashed.cons_slash
    · exact normal.tidy.slashed

/-! ## Folders and absolute names -/

theorem plainly_start (start : Path.Start) : Plainly start.text :=
  Text.Only.start (by decide) (by decide) start

theorem Plainly.folder {path : Path} (plainly : Plainly path.text) : Plainly path.folder.text :=
  Text.Only.folder (by decide) (by decide) plainly

theorem isMarkupPath_join {base : Path} (plainly : Plainly base.text) {name : Text}
    (tidy : Tidy name) : IsMarkupPath (base.join ⟨name ++ markupSuffix⟩).text := by
  have named : IsMarkupPath (name ++ markupSuffix) := by
    refine ⟨?_, List.suffix_append _ _⟩
    exact tidy.append_cons (by decide) (by decide) (Tidy.of_without (by decide) (by decide))
  have without := plainly.without
  unfold Path.join
  split
  · exact named
  · split
    · exact ⟨Tidy.append_of_without without.1 without.2 named.tidy,
        named.suffixed.trans (List.suffix_append _ _)⟩
    · refine ⟨Tidy.append_of_without without.1 without.2 named.cons_slash.tidy, ?_⟩
      exact named.cons_slash.suffixed.trans (List.suffix_append _ _)

/-- The absolute form of a tidy name is tidy. -/
theorem tidy_absoluteName {site : Site} {addressing : Addressing}
    (served : site.address = addressing.address) (plain : addressing.IsPlain) {document : Path}
    (plainly : Plainly document.text) {name : Text} (tidy : Tidy name) :
    Tidy (absoluteName site document name) := by
  unfold absoluteName
  split
  · have address : Tidy (site.address
        (document.folder.join ⟨name ++ markupSuffix⟩).normalize) := by
      rw [served]
      exact (isMarkupPath_join plainly.folder tidy).normalize.address plain
    dsimp only
    generalize site.address (document.folder.join ⟨name ++ markupSuffix⟩).normalize = text
      at address ⊢
    have short : Tidy ((Text.dropEnd? markupSuffix text).getD text) := by
      cases dropped : Text.dropEnd? markupSuffix text with
      | none => exact address
      | some before =>
          rw [Text.dropEnd?_eq_some_iff.mp dropped] at address
          exact @Tidy.of_separator before _ '.' (by decide) address
    split
    · exact short
    · exact short.cons_slash
  · exact tidy

/-! ## Paths with the parts of a listed one -/

/-- What a path holds besides slashes and dots shows in its parts. -/
theorem mem_parts_of_mem_text {path : Path} {character : Char} (member : character ∈ path.text) :
    isPathCharacter character = true ∨
      ∃ segment, Part.name segment ∈ path.parts ∧ character ∈ segment := by
  rw [← start_text_append_drop path, List.mem_append] at member
  rcases member with starts | behind
  · exact Or.inl (plainly_start path.start character starts)
  · rw [← @List.intercalate_splitOn _ (path.text.drop path.start.text.length) _ _ '/'] at behind
    rcases mem_joinWith behind with slash | ⟨segment, within, inside⟩
    · rw [slash]
      exact Or.inl (by decide)
    · by_cases filler : Path.isFiller segment = true
      · simp only [Path.isFiller, Bool.or_eq_true, beq_iff_eq] at filler
        rcases filler with empty | dot
        · rw [empty] at inside
          cases inside
        · rw [dot] at inside
          rw [List.mem_singleton.mp inside]
          exact Or.inl (by decide)
      · by_cases up : segment = ['.', '.']
        · rw [up] at inside
          have dot : character = '.' := by simpa using inside
          rw [dot]
          exact Or.inl (by decide)
        · refine Or.inr ⟨segment, ?_, inside⟩
          apply List.mem_append_right
          apply List.mem_map.mpr
          exact ⟨segment, List.mem_filter.mpr ⟨within, by simpa using filler⟩, if_neg up⟩

theorem Plainly.of_same {path other : Path} (plainly : Plainly other.text)
    (same : other.same path = true) : Plainly path.text := by
  intro character member
  rcases mem_parts_of_mem_text member with plain | ⟨segment, named, inside⟩
  · exact plain
  · rw [← Path.same_iff.mp same] at named
    exact plainly character (mem_text_of_mem_parts named inside)

end PageComposer
