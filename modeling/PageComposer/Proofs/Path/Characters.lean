import PageComposer.Proofs.Path.Directories

namespace PageComposer

/-!
# What characters a path is made of

Whatever is computed from a path is written with the characters of the path, with
slashes and with dots.  So where these are allowed, a path stays within a set of
characters when its folder is taken, when it is joined to another one, and when it is
brought into normal form.  When it is turned into an address, the replacement of what
is no text has to be allowed besides.
-/

/-- A text whose characters are all allowed. -/
def Text.Only (allowed : Char -> Prop) (text : Text) : Prop :=
  ∀ character ∈ text, allowed character

theorem mem_joinWith {parts : List Text} {character : Char}
    (member : character ∈ Text.joinWith ['/'] parts) :
    character = '/' ∨ ∃ part ∈ parts, character ∈ part := by
  induction parts with
  | nil => simp [Text.joinWith] at member
  | cons first others inductionHypothesis =>
      cases others with
      | nil =>
          refine Or.inr ⟨first, List.mem_cons_self, ?_⟩
          simpa [Text.joinWith, List.intercalate] using member
      | cons second rest =>
          rw [joinWith_cons (by simp)] at member
          rcases List.mem_append.mp member with inside | behind
          · exact Or.inr ⟨first, List.mem_cons_self, inside⟩
          · rcases List.mem_cons.mp behind with slash | later
            · exact Or.inl slash
            · rcases inductionHypothesis later with slash | ⟨part, within, inPart⟩
              · exact Or.inl slash
              · exact Or.inr ⟨part, List.mem_cons_of_mem _ within, inPart⟩

theorem mem_text_of_mem_segments {path : Path} {segment : Text} (member : segment ∈ path.segments)
    {character : Char} (inside : character ∈ segment) : character ∈ path.text :=
  List.mem_of_mem_drop ((Text.field_of_mem_splitOn _ member).isInfix.subset inside)

theorem mem_text_of_mem_parts {path : Path} {segment : Text}
    (member : Part.name segment ∈ path.parts) {character : Char} (inside : character ∈ segment) :
    character ∈ path.text := by
  rcases List.mem_append.mp member with starts | named
  · unfold Path.Start.parts at starts
    split at starts <;> simp at starts
  · rcases List.mem_map.mp named with ⟨raw, kept, equal⟩
    unfold Part.ofSegment at equal
    split at equal
    · cases equal
    · cases equal
      exact mem_text_of_mem_segments (List.mem_filter.mp kept).1 inside

theorem dropParts_suffix (count : Nat) (segments : List Text) :
    Path.dropParts count segments <:+ segments := by
  fun_induction Path.dropParts count segments with
  | case1 => exact List.suffix_rfl
  | case2 => exact List.suffix_rfl
  | case3 _ _ _ _ inductionHypothesis => exact inductionHypothesis.trans (List.suffix_cons _ _)
  | case4 _ _ _ _ inductionHypothesis => exact inductionHypothesis.trans (List.suffix_cons _ _)

theorem mem_of_mem_dropFillerEnd {segments : List Text} {segment : Text}
    (member : segment ∈ Path.dropFillerEnd segments) : segment ∈ segments :=
  List.mem_reverse.mp ((List.dropWhile_suffix Path.isFiller).subset (List.mem_reverse.mp member))

namespace Text.Only

variable {allowed : Char -> Prop}

theorem nil : Only allowed [] :=
  List.forall_mem_nil allowed

theorem append {left right : Text} (first : Only allowed left) (second : Only allowed right) :
    Only allowed (left ++ right) :=
  List.forall_mem_append.mpr ⟨first, second⟩

theorem cons {head : Char} {rest : Text} (first : allowed head) (others : Only allowed rest) :
    Only allowed (head :: rest) :=
  List.forall_mem_cons.mpr ⟨first, others⟩

theorem shown {stray : Stray} (replacement : allowed '\uFFFD') {text : Text}
    (only : Only allowed text) : Only allowed (stray.shown text) := by
  intro character member
  rcases List.mem_map.mp member with ⟨original, inside, equal⟩
  split at equal
  · exact equal ▸ replacement
  · exact equal ▸ only original inside

section Slashes

variable (slash : allowed '/')
include slash

theorem joinWith {parts : List Text} (each : ∀ part ∈ parts, Only allowed part) :
    Only allowed (Text.joinWith ['/'] parts) := by
  intro character member
  rcases mem_joinWith member with equal | ⟨part, within, inside⟩
  · exact equal ▸ slash
  · exact each part within character inside

theorem join {base path : Path} (first : Only allowed base.text) (second : Only allowed path.text) :
    Only allowed (base.join path).text := by
  unfold Path.join
  split
  · exact second
  · split
    · exact first.append second
    · exact first.append (cons slash second)

theorem ofParts {parts : List Part} (each : ∀ part ∈ parts, Only allowed part.text) :
    Only allowed (Path.ofParts parts).text := by
  have texts : ∀ text ∈ parts.map Part.text, Only allowed text := by
    intro text member
    rcases List.mem_map.mp member with ⟨part, within, equal⟩
    exact equal ▸ each part within
  unfold Path.ofParts
  split
  · exact cons slash (joinWith slash fun text member => texts text (List.mem_cons_of_mem _ member))
  · exact joinWith slash texts

theorem slashed {stray : Stray} (replacement : allowed '\uFFFD') {path : Path}
    (only : Only allowed path.text) : Only allowed (Addressing.slashed stray path) := by
  have shown : Only allowed (stray.shown path.text) := only.shown replacement
  intro character member
  rcases List.mem_map.mp member with ⟨original, inside, equal⟩
  split at equal
  · exact equal ▸ slash
  · exact equal ▸ shown original inside

end Slashes

section Paths

variable (slash : allowed '/') (dot : allowed '.')
include slash dot

theorem start (start : Path.Start) : Only allowed start.text := by
  cases start with
  | nothing => exact nil
  | root => exact cons slash nil
  | here => exact cons dot nil

theorem ofSegments {path : Path} (only : Only allowed path.text) {segments : List Text}
    (within : ∀ segment ∈ segments, segment ∈ path.segments) (begin : Path.Start) :
    Only allowed (Path.ofSegments begin segments).text := by
  refine (start slash dot begin).append (joinWith slash fun segment member => ?_)
  intro character inside
  exact only character (mem_text_of_mem_segments (within segment member) inside)

theorem folder {path : Path} (only : Only allowed path.text) : Only allowed path.folder.text := by
  unfold Path.folder Path.parent?
  split
  · rename_i last before kept
    apply only.ofSegments slash dot
    intro segment member
    have below := (List.dropWhile_suffix Path.isFiller).subset (List.mem_reverse.mp member)
    have above : segment ∈ path.segments.reverse.dropWhile Path.isFiller := by
      rw [kept]
      exact List.mem_cons_of_mem _ below
    exact List.mem_reverse.mp ((List.dropWhile_suffix Path.isFiller).subset above)
  · split
    · exact nil
    · exact nil

theorem part {path : Path} (only : Only allowed path.text) {part : Part}
    (member : part ∈ path.parts) : Only allowed part.text := by
  cases part with
  | root => exact cons slash nil
  | here => exact cons dot nil
  | up => exact cons dot (cons dot nil)
  | name segment =>
      exact fun character inside => only character (mem_text_of_mem_parts member inside)

theorem normalize {path : Path} (only : Only allowed path.text) :
    Only allowed path.normalize.text := by
  apply ofParts slash
  intro part member
  rcases Path.mem_foldl_pushPart (List.mem_reverse.mp member) with below | later | up
  · cases below
  · exact only.part slash dot later
  · exact up ▸ cons dot (cons dot nil)

theorem relativeTo? {path base rest : Path} (only : Only allowed path.text)
    (below : path.relativeTo? base = some rest) : Only allowed rest.text := by
  unfold Path.relativeTo? at below
  split at below
  · split at below
    · cases below
      exact only.ofSegments slash dot (fun _ => mem_of_mem_dropFillerEnd) path.start
    · cases below
      refine joinWith slash fun segment member => ?_
      have inside := (List.dropWhile_suffix Path.isFiller).subset (mem_of_mem_dropFillerEnd member)
      intro character within
      exact only character (mem_text_of_mem_segments ((dropParts_suffix _ _).subset inside) within)
  · cases below

/-- An address is written with the characters of the path and of the names of
directories, and with the one that is shown for what is no text. -/
theorem address {addressing : Addressing} (replacement : allowed '\uFFFD')
    (named : ∀ entry ∈ addressing.named, Only allowed entry.1) {path : Path}
    (only : Only allowed path.text) : Only allowed (addressing.address path) := by
  have normal := only.normalize slash dot
  unfold Addressing.address
  dsimp only
  split
  · rename_i found below
    rcases List.exists_of_findSome?_eq_some below with ⟨entry, member, inside⟩
    rcases Option.map_eq_some_iff.mp inside with ⟨rest, relative, equal⟩
    have name := named entry (Addressing.mem_deepestFirst.mp member)
    have behind : Only allowed (Addressing.slashed addressing.stray rest) :=
      (normal.relativeTo? slash dot relative).slashed slash replacement
    exact equal ▸ cons slash (name.append (cons slash behind))
  · split
    · rename_i rest relative
      exact cons slash ((normal.relativeTo? slash dot relative).slashed slash replacement)
    · exact normal.slashed slash replacement

end Paths

end Text.Only
end PageComposer
