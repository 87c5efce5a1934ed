import PageComposer.Proofs.Path.Address
import PageComposer.Proofs.Path.Candidate
import PageComposer.Proofs.Scan.Spans

namespace PageComposer

/-!
# Names that are relative to a document

A relative name is meant for a file beside its document: the path from the folder of the
document, with the extension of the kind behind it (`siblingOf`).  What is scanned is a
name from the root of the site instead, and it has come by way of the address of the
markup file with this name.  The two files lie in one folder.  So what serves the one
would serve the other as well, and the name leads back to the file that was meant.

It leads back only where the address shows what it was made from: an address replaces what
is no text, and where a named directory is the markup file itself, nothing is left of the
last segment.  One site of either kind is `candidate_misses_sibling`.
-/

/-- The file that a relative name of this kind is meant for. -/
def siblingOf (document : Path) (kind : Kind) (name : Text) : Path :=
  (document.folder.join ⟨kind.suffixed name⟩).normalize

/-- A path lies below a directory, with at least one part in between. -/
def Path.Below (path directory : Path) : Prop :=
  ∃ rest, rest ≠ [] ∧ path.parts = directory.parts ++ rest

/-- A path lies below a directory, and what leads down to it is text. -/
def Path.ReadBelow (stray : Stray) (path directory : Path) : Prop :=
  ∃ rest, rest ≠ [] ∧ path.parts = directory.parts ++ rest ∧
    ∀ part ∈ rest, stray.isText part.text = true

theorem Path.ReadBelow.below {stray : Stray} {path directory : Path}
    (read : path.ReadBelow stray directory) : path.Below directory := by
  rcases read with ⟨rest, more, parts, _⟩
  exact ⟨rest, more, parts⟩

/-- What leads down from a directory is text if it is from one that is no deeper. -/
theorem Path.ReadBelow.of_deeper {stray : Stray} {path directory deeper : Path}
    (read : path.ReadBelow stray directory)
    (depth : directory.parts.length ≤ deeper.parts.length) {rest : List Part}
    (parts : path.parts = deeper.parts ++ rest) :
    ∀ part ∈ rest, stray.isText part.text = true := by
  rcases read with ⟨whole, _, split, texts⟩
  have lengths := congrArg List.length (split.symm.trans parts)
  rw [List.length_append, List.length_append] at lengths
  have behind : rest <:+ path.parts := parts ▸ List.suffix_append _ _
  have within : rest <:+ whole :=
    List.suffix_of_suffix_length_le behind (split ▸ List.suffix_append _ _) (by omega)
  exact fun part member => texts part (within.subset member)

/-! ## The last part of a path -/

theorem exists_of_concat_eq {A : Type} {front whole rest : List A} {last : A} (more : rest ≠ [])
    (joined : whole ++ [last] = front ++ rest) :
    ∃ before, rest = before ++ [last] ∧ whole = front ++ before := by
  rcases List.eq_nil_or_concat rest with nothing | ⟨before, final, equal⟩
  · exact absurd nothing more
  · rw [equal, List.concat_eq_append, ← List.append_assoc] at joined
    have both := List.append_inj' joined rfl
    rw [equal, List.concat_eq_append, both.1, List.singleton_inj.mp both.2]
    exact ⟨before, rfl, rfl⟩

theorem not_mem_of_mem_parts {path : Path} (plain : '\\' ∉ path.text) {part : Part}
    (member : part ∈ path.parts) : '\\' ∉ part.text := by
  cases part with
  | root => decide
  | here => decide
  | up => decide
  | name segment => exact fun inside => plain (mem_text_of_mem_parts member inside)

namespace Path

/-- The text of a canonical path ends with its last name. -/
theorem IsCanonical.suffix_of_concat {path : Path} (canonical : path.IsCanonical)
    {front : List Part} {segment : Text} (nonempty : front ≠ [])
    (parts : path.parts = front ++ [.name segment]) : segment <:+ path.text := by
  rcases canonical.exists_parts with ⟨inner, _, whole⟩
  cases front with
  | nil => exact absurd rfl nonempty
  | cons first others =>
      rw [whole] at parts
      have split : inner = others ++ [.name segment] := (List.cons.inj parts).2
      rw [canonical.text whole, split, List.map_append]
      have ends := joinWith_concat_append (others.map Part.text) [] segment
      change Text.joinWith ['/'] (others.map Part.text ++ [segment]) = _ at ends
      change segment <:+ '/' :: Text.joinWith ['/'] (others.map Part.text ++ [segment])
      rw [ends]
      exact (List.suffix_append _ _).trans (List.suffix_cons _ _)

end Path

/-! ## Both files of a name -/

/-- Where what leads to a file is text, what leads to the markup file beside it is text. -/
theorem text_segments {stray : Stray} {kind : Kind} {last : Text} {between : List Part}
    (texts : ∀ part ∈ between ++ [Part.name (kind.suffixed last)],
      stray.isText part.text = true) :
    ∀ segment ∈ between.map Part.text ++ [last ++ markupSuffix], stray.isText segment = true := by
  have both := List.forall_mem_append.mp texts
  refine List.forall_mem_append.mpr ⟨?_, List.forall_mem_singleton.mpr ?_⟩
  · intro segment member
    rcases List.mem_map.mp member with ⟨part, within, equal⟩
    exact equal ▸ both.1 part within
  · have read : stray.isText (kind.suffixed last) = true := both.2 _ List.mem_cons_self
    rcases kind.isPrefix_suffixed last with ⟨added, joined⟩
    rw [← joined] at read
    exact Stray.isText_append.mpr
      ⟨(Stray.isText_append.mp read).1, Stray.isText_of_ascii (by simp [markupSuffix])⟩

/-- The files that a name stands for as markup and as what it is meant for: they lie in one
folder, and only the extension tells them apart. -/
structure Siblings (kind : Kind) (folder : List Part) (last : Text) (target sibling : Path) :
    Prop where
  unslashed : '/' ∉ last
  targetCanonical : target.IsCanonical
  siblingCanonical : sibling.IsCanonical
  target : target.parts = folder ++ [.name (last ++ markupSuffix)]
  sibling : sibling.parts = folder ++ [.name (kind.suffixed last)]

namespace Siblings

variable {kind : Kind} {folder : List Part} {last : Text} {target sibling : Path}

theorem inner (siblings : Siblings kind folder last target sibling) {directory : Path}
    (absolute : directory.isAbsolute = true) {between : List Part}
    (split : folder = directory.parts ++ between) : AreInner between := by
  rcases siblings.siblingCanonical.exists_parts with ⟨inner, areInner, whole⟩
  rw [siblings.sibling, split, Path.parts_of_isAbsolute absolute] at whole
  have equal := (List.cons.inj whole).2
  rw [← equal] at areInner
  intro part member
  exact areInner part (List.mem_append_left _ (List.mem_append_right _ member))

theorem folder_ne_nil (siblings : Siblings kind folder last target sibling) : folder ≠ [] := by
  rintro rfl
  rcases siblings.targetCanonical.exists_parts with ⟨inner, _, whole⟩
  rw [siblings.target] at whole
  cases whole

/-- Where the path of the sibling has no backslash, no segment of the markup file has one
either. -/
theorem plain_segments (siblings : Siblings kind folder last target sibling)
    (plain : '\\' ∉ sibling.text) {before between : List Part}
    (split : folder = before ++ between) :
    ∀ segment ∈ between.map Part.text ++ [last ++ markupSuffix], '\\' ∉ segment := by
  refine List.forall_mem_append.mpr ⟨?_, List.forall_mem_singleton.mpr ?_⟩
  · intro segment member
    rcases List.mem_map.mp member with ⟨part, within, equal⟩
    have listed : part ∈ sibling.parts := by
      rw [siblings.sibling, split]
      exact List.mem_append_left _ (List.mem_append_right _ within)
    exact equal ▸ not_mem_of_mem_parts plain listed
  · intro backslash
    have listed : Part.name (kind.suffixed last) ∈ sibling.parts := by
      rw [siblings.sibling]
      exact List.mem_append_right _ List.mem_cons_self
    rcases List.mem_append.mp backslash with inLast | inSuffix
    · exact not_mem_of_mem_parts plain listed ((kind.isPrefix_suffixed last).subset inLast)
    · exact absurd inSuffix (by decide)

/-- From a directory that holds the folder, the markup file is what the last segment is,
with its extension behind it. -/
theorem slashed_eq (siblings : Siblings kind folder last target sibling)
    (plain : '\\' ∉ sibling.text) {before between : List Part}
    (split : folder = before ++ between) {stray : Stray}
    (texts : ∀ part ∈ between ++ [Part.name (kind.suffixed last)],
      stray.isText part.text = true) :
    Addressing.slashed stray ⟨Text.joinWith ['/']
        ((between ++ [Part.name (last ++ markupSuffix)]).map Part.text)⟩ =
      Text.joinWith ['/'] (between.map Part.text ++ [last]) ++ markupSuffix := by
  have segments : (between ++ [Part.name (last ++ markupSuffix)]).map Part.text =
      between.map Part.text ++ [last ++ markupSuffix] :=
    List.map_append
  have read := text_segments texts
  rw [segments, Addressing.slashed_eq, Path.joinWith_concat_append]
  · rw [Stray.isText_iff]
    intro character member
    rcases mem_joinWith member with slash | ⟨segment, within, inside⟩
    · have marks : stray.isText ['/'] = true := Stray.isText_of_ascii (by simp)
      exact slash ▸ Stray.isText_iff.mp marks '/' List.mem_cons_self
    · exact Stray.isText_iff.mp (read segment within) character inside
  · intro backslash
    rcases mem_joinWith backslash with slash | ⟨segment, within, inside⟩
    · exact absurd slash (by decide)
    · exact siblings.plain_segments plain split segment within inside

/-- What leads from a directory that holds the folder to the file that is meant. -/
theorem normalize_join (siblings : Siblings kind folder last target sibling) {directory : Path}
    (absolute : directory.isAbsolute = true) {between : List Part}
    (split : folder = directory.parts ++ between) :
    (directory.join ⟨kind.suffixed
      (Text.joinWith ['/'] (between.map Part.text ++ [last]))⟩).normalize = sibling := by
  have inner : AreInner (between ++ [.name (kind.suffixed last)]) := by
    refine List.forall_mem_append.mpr ⟨siblings.inner absolute split, ?_⟩
    exact List.forall_mem_singleton.mpr (isInner_suffixed kind siblings.unslashed)
  rw [Kind.suffixed_joinWith]
  have joined := Path.normalize_join_of_parts siblings.siblingCanonical absolute inner
    (by rw [siblings.sibling, split, List.append_assoc])
  rwa [List.map_append] at joined

end Siblings

/-! ## Relative names -/

theorem exists_last_of_isRelativeName {name : Text} (relative : isRelativeName name = true) :
    ∃ front last, name = front ++ '/' :: last ∧ '/' ∉ last ∧ front.head? = some '.' := by
  have dotted : ∃ rest, name = '.' :: rest ∧ '/' ∈ rest := by
    rcases Bool.or_eq_true_iff.mp relative with here | up
    · rcases List.isPrefixOf_iff_prefix.mp here with ⟨more, joined⟩
      exact ⟨'/' :: more, joined.symm, List.mem_cons_self⟩
    · rcases List.isPrefixOf_iff_prefix.mp up with ⟨more, joined⟩
      exact ⟨'.' :: '/' :: more, joined.symm, List.mem_cons_of_mem _ List.mem_cons_self⟩
  rcases dotted with ⟨rest, equal, slash⟩
  rcases List.eq_append_cons_of_mem (List.mem_reverse.mpr slash) with ⟨last, front, split, fresh⟩
  have joined := congrArg List.reverse split
  rw [List.reverse_reverse, List.reverse_append, List.reverse_cons, List.append_assoc,
    List.singleton_append] at joined
  exact ⟨'.' :: front.reverse, last.reverse, by rw [equal, joined]; rfl,
    by simpa using fresh, rfl⟩

namespace Path

theorem isAbsolute_dotted {front : Text} (dotted : front.head? = some '.') (last : Text) :
    isAbsolute ⟨front ++ '/' :: last⟩ = false := by
  rw [← Bool.not_eq_true, isAbsolute_iff, List.head?_append, dotted]
  simp

theorem isAbsolute_of_join {base path : Path} (relative : path.isAbsolute = false)
    (absolute : (base.join path).isAbsolute = true) : base.isAbsolute = true := by
  by_cases empty : base.text = []
  · rw [join_of_empty empty, relative] at absolute
    cases absolute
  · rw [isAbsolute, start_join empty relative] at absolute
    exact absolute

theorem isAbsolute_of_normalize {path : Path} (absolute : path.normalize.isAbsolute = true) :
    path.isAbsolute = true := by
  by_contra relative
  have parts := parts_normalize path
  rw [normalParts_parts, if_neg relative, parts_of_isAbsolute absolute] at parts
  have inner := areInner_normalParts (areInner_partsOf path.text) .root
    (parts ▸ List.mem_cons_self)
  exact inner.unslashed List.mem_cons_self

/-- The file name that a relative path ends with is the last part of what it leads to. -/
theorem parts_join_concat {folder : Path} (absolute : folder.isAbsolute = true) {front : Text}
    (dotted : front.head? = some '.') {last : Text} (inner : (Part.name last).IsInner) :
    (folder.join ⟨front ++ '/' :: last⟩).normalize.parts =
      normalParts (folder.parts ++ partsOf front) ++ [.name last] := by
  have nonempty := text_ne_nil_of_isAbsolute absolute
  have single := @partsOf_joinWith_inner [.name last] (List.forall_mem_singleton.mpr inner)
  rw [List.map_singleton, joinWith_singleton] at single
  rw [parts_normalize, parts_join nonempty (isAbsolute_dotted dotted last), partsOf_append_slash,
    show partsOf last = [.name last] from single, ← List.append_assoc, normalParts_concat_name]

end Path

/-- A relative name stands for two files in one folder. -/
theorem exists_siblings {document : Path} {kind : Kind} {name : Text}
    (relative : isRelativeName name = true)
    (absolute : (siblingOf document kind name).isAbsolute = true) :
    ∃ folder last, Siblings kind folder last
      (document.folder.join ⟨name ++ markupSuffix⟩).normalize (siblingOf document kind name) := by
  rcases exists_last_of_isRelativeName relative with ⟨front, last, equal, unslashed, dotted⟩
  subst equal
  have markup : '/' ∉ last ++ markupSuffix := by
    intro slash
    exact (List.mem_append.mp slash).elim unslashed (by decide)
  unfold siblingOf at absolute ⊢
  rw [Kind.suffixed_append_slash] at absolute ⊢
  rw [List.append_assoc, List.cons_append]
  have below := Path.isAbsolute_of_join (Path.isAbsolute_dotted dotted _)
    (Path.isAbsolute_of_normalize absolute)
  exact ⟨_, last, unslashed, Path.isCanonical_normalize (Path.isAbsolute_join below),
    Path.isCanonical_normalize (Path.isAbsolute_join below),
    Path.parts_join_concat below dotted (isInner_of_extension (by decide) markup),
    Path.parts_join_concat below dotted (isInner_suffixed kind unslashed)⟩

/-! ## The name leads to the sibling -/

namespace Addressing

/-- A file that relative names can lead to.  It lies below a named directory or, where it
lies below none, below the root, and what leads down to it is text.  No backslash stands in
its path, and if it is only found from the root, then not through a segment that is the name
of a directory. -/
structure Reaches (addressing : Addressing) (path : Path) : Prop where
  within : (∃ entry ∈ addressing.named, path.ReadBelow addressing.stray entry.2) ∨
    (∀ entry ∈ addressing.named, ¬ path.Below entry.2) ∧
      path.ReadBelow addressing.stray addressing.root
  plain : '\\' ∉ path.text
  unnamed : (∀ entry ∈ addressing.named, ¬ path.Below entry.2) ->
    ∀ first second others, path.parts = addressing.root.parts ++ first :: second :: others ->
      ∀ entry ∈ addressing.named, entry.1 ≠ first.text

variable {addressing : Addressing} {kind : Kind} {folder : List Part} {last : Text}
  {target sibling : Path}

/-- A name leads from a named directory that holds the folder to the sibling. -/
theorem IsSettled.candidate_named (settled : addressing.IsSettled)
    (names : ∀ entry ∈ addressing.named, entry.1 ≠ [] ∧ '/' ∉ entry.1)
    (siblings : Siblings kind folder last target sibling) {entry : Text × Path}
    (member : entry ∈ addressing.named) {between : List Part}
    (split : folder = entry.2.parts ++ between) :
    addressing.candidate kind
      ('/' :: entry.1 ++ '/' :: Text.joinWith ['/'] (between.map Part.text ++ [last])) =
        sibling := by
  have name := names entry member
  rw [candidate_slash kind name.2 name.1, settled.lookup member]
  exact siblings.normalize_join (settled.directories entry member).absolute split

/-- A name leads from the root to the sibling, unless its first segment is the name of a
directory. -/
theorem IsSettled.candidate_unnamed (settled : addressing.IsSettled)
    (siblings : Siblings kind folder last target sibling) {between : List Part}
    (split : folder = addressing.root.parts ++ between)
    (unnamed : ∀ first others, between = first :: others ->
      ∀ entry ∈ addressing.named, entry.1 ≠ first.text) :
    addressing.candidate kind
      ('/' :: Text.joinWith ['/'] (between.map Part.text ++ [last])) = sibling := by
  have joined := siblings.normalize_join settled.root.absolute split
  have inner := siblings.inner settled.root.absolute split
  cases between with
  | nil =>
      rw [List.map_nil, List.nil_append, Path.joinWith_singleton] at joined ⊢
      rw [candidate_single kind siblings.unslashed]
      exact joined
  | cons first others =>
      have part := inner first List.mem_cons_self
      have missing : addressing.named.lookup first.text = none := by
        apply List.lookup_eq_none_iff.mpr
        intro entry member
        exact bne_iff_ne.mpr (Ne.symm (unnamed first others rfl entry member))
      rw [List.map_cons, List.cons_append, joinWith_cons (by simp)] at joined ⊢
      rw [Kind.suffixed_append_slash] at joined
      have leads := @candidate_slash addressing first.text kind part.unslashed part.text_ne_nil
        (Text.joinWith ['/'] (others.map Part.text ++ [last]))
      rw [missing] at leads
      exact leads.trans joined

/-- The address of the markup file is a name of the sibling with the extension of markup. -/
theorem IsSettled.exists_name (settled : addressing.IsSettled)
    (names : ∀ entry ∈ addressing.named, entry.1 ≠ [] ∧ '/' ∉ entry.1)
    (directories : ∀ entry ∈ addressing.named, ¬ markupSuffix <:+ entry.2.text)
    (siblings : Siblings kind folder last target sibling) (reaches : addressing.Reaches sibling) :
    ∃ name, addressing.address target = '/' :: name ++ markupSuffix ∧
      addressing.candidate kind ('/' :: name) = sibling := by
  have proper : ∀ entry ∈ addressing.named, entry.2.parts ≠ target.parts := by
    intro entry member equal
    have same := (settled.directories entry member).eq_of_parts siblings.targetCanonical equal
    apply directories entry member
    rw [same]
    exact (List.suffix_append last markupSuffix).trans
      (siblings.targetCanonical.suffix_of_concat siblings.folder_ne_nil siblings.target)
  by_cases within : ∃ entry ∈ addressing.named, entry.2.parts <+: target.parts
  · rcases settled.address_named siblings.targetCanonical proper within with
      ⟨entry, member, rest, more, parts, deepest, address⟩
    rw [siblings.target] at parts
    rcases exists_of_concat_eq more parts with ⟨between, equal, split⟩
    have behind : sibling.parts = entry.2.parts ++ (between ++ [.name (kind.suffixed last)]) := by
      rw [siblings.sibling, split, List.append_assoc]
    have texts : ∀ part ∈ between ++ [Part.name (kind.suffixed last)],
        addressing.stray.isText part.text = true := by
      rcases reaches.within with ⟨other, named, read⟩ | ⟨outside, _⟩
      · apply read.of_deeper (deepest other named ?_) behind
        rcases read with ⟨whole, some, joined, _⟩
        rw [siblings.sibling] at joined
        rcases exists_of_concat_eq some joined with ⟨front, _, halves⟩
        rw [siblings.target, halves, List.append_assoc]
        exact List.prefix_append _ _
      · exact absurd ⟨_, by simp, behind⟩ (outside entry member)
    rw [equal, siblings.slashed_eq reaches.plain split texts] at address
    refine ⟨entry.1 ++ '/' :: Text.joinWith ['/'] (between.map Part.text ++ [last]), ?_,
      settled.candidate_named names siblings member split⟩
    rw [address]
    simp
  · -- No directory holds the sibling either, because none ends with the extension of markup.
    have elsewhere : ∀ entry ∈ addressing.named, ¬ sibling.Below entry.2 := by
      rintro entry member ⟨rest, more, parts⟩
      rw [siblings.sibling] at parts
      rcases exists_of_concat_eq more parts with ⟨between, _, split⟩
      apply within
      refine ⟨entry, member, ?_⟩
      rw [siblings.target, split, List.append_assoc]
      exact List.prefix_append _ _
    have below : sibling.ReadBelow addressing.stray addressing.root := by
      refine (reaches.within.resolve_left ?_).2
      rintro ⟨entry, member, inside⟩
      exact elsewhere entry member inside.below
    rcases below with ⟨rest, more, parts, texts⟩
    rw [siblings.sibling] at parts
    rcases exists_of_concat_eq more parts with ⟨between, equal, split⟩
    subst equal
    have target : target.parts =
        addressing.root.parts ++ (between ++ [.name (last ++ markupSuffix)]) := by
      rw [siblings.target, split, List.append_assoc]
    have address := settled.address_unnamed siblings.targetCanonical
      (fun entry member leads => within ⟨entry, member, leads⟩) (by simp) target
    rw [siblings.slashed_eq reaches.plain split texts] at address
    refine ⟨Text.joinWith ['/'] (between.map Part.text ++ [last]), address, ?_⟩
    apply settled.candidate_unnamed siblings split
    intro first others equal
    rcases List.exists_cons_of_ne_nil
      (show others ++ [.name (kind.suffixed last)] ≠ [] by simp) with ⟨second, further, next⟩
    apply reaches.unnamed elsewhere first second further
    rw [siblings.sibling, split, equal, ← next, List.append_assoc, List.cons_append]

end Addressing

/-- A name that is relative to a document leads to the file beside the document. -/
theorem candidate_eq_sibling {root : Path} (absolute : root.isAbsolute = true) {stray : Stray}
    {entries : List (Text × Path)} {addressing : Addressing}
    (registered : addressing = (Addressing.atRoot root stray).withAllNamed entries)
    (names : ∀ entry ∈ addressing.named, entry.1 ≠ [] ∧ '/' ∉ entry.1)
    (directories : ∀ entry ∈ addressing.named, ¬ markupSuffix <:+ entry.2.text)
    {site : Site} (served : site.address = addressing.address) {document : Path} {kind : Kind}
    {text : Text} {placeholders : List Placeholder}
    (scanned : scanKind site document kind text = .ok placeholders) {placeholder : Placeholder}
    (member : placeholder ∈ placeholders) {raw : Text} {body : Body}
    (tag : placeholder.tag = kind.opening ++ raw ++ tagClose)
    (read : Body.ofRaw kind raw placeholder.tag = .ok body)
    (relative : isRelativeName body.name = true)
    (reaches : addressing.Reaches (siblingOf document kind body.name)) :
    addressing.candidate placeholder.kind placeholder.name =
      siblingOf document kind body.name := by
  have settled : addressing.IsSettled := by
    rw [registered]
    exact (Addressing.isSettled_atRoot absolute stray).withAllNamed entries
  have below : (siblingOf document kind body.name).isAbsolute = true := by
    rcases reaches.within with ⟨entry, listed, rest, _, parts, _⟩ | ⟨_, rest, _, parts, _⟩
    · rw [Path.parts_of_isAbsolute (settled.directories entry listed).absolute] at parts
      exact Path.isAbsolute_of_parts parts
    · rw [Path.parts_of_isAbsolute settled.root.absolute] at parts
      exact Path.isAbsolute_of_parts parts
  rcases exists_siblings relative below with ⟨folder, last, siblings⟩
  rcases settled.exists_name names directories siblings reaches with ⟨name, address, leads⟩
  rcases scanKindFrom_member scanned placeholder member with ⟨start, inside, _, accepted⟩
  rcases readTag_name accepted with ⟨found, taken, _, named⟩
  have sameRaw : inside = raw := by
    have written := (readTag_span accepted).2.2
    rw [tag] at written
    exact (List.append_cancel_left (List.append_cancel_right written)).symm
  subst sameRaw
  cases taken.symm.trans read
  have fromRoot : placeholder.name = '/' :: name := by
    rw [named, absoluteName, if_pos relative, served]
    dsimp only
    rw [address, Text.dropEnd?_eq_some_iff.mpr rfl]
    rfl
  rw [readTag_kind accepted, fromRoot]
  exact leads

/-- A site in a folder whose name is no text, with a named directory inside another one. -/
def nestedAddressing : Addressing :=
  (Addressing.atRoot ⟨"/\uE0FF/site".toList⟩ { characters := ['\uE0FF'] }).withAllNamed
    [("parts".toList, ⟨"lib/parts".toList⟩), ("lib".toList, ⟨"lib".toList⟩)]

/-- The tag of a stylesheet above the folder of its document. -/
def styleTag : Placeholder where
  name := "/parts/base".toList
  kind := .linkCss
  start := 0
  stop := 24
  tag := "<!-- linkCss:../base -->".toList
  args := []
  style := .none
  document := ⟨"/\uE0FF/site/lib/parts/pages/index.html".toList⟩

set_option maxRecDepth 100000 in
/-- The name of the inner directory leads to the stylesheet. -/
theorem candidate_eq_sibling_nested :
    nestedAddressing.candidate .linkCss "/parts/base".toList =
      ⟨"/\uE0FF/site/lib/parts/base.css".toList⟩ := by
  have scanned : scanKind (Listing.empty.toSite nestedAddressing) styleTag.document .linkCss
      "<!-- linkCss:../base -->".toList = .ok [styleTag] := by
    decide +kernel
  have sibling : siblingOf styleTag.document .linkCss "../base".toList =
      ⟨"/\uE0FF/site/lib/parts/base.css".toList⟩ := by
    decide +kernel
  have inside : (siblingOf styleTag.document .linkCss "../base".toList).ReadBelow
      nestedAddressing.stray ⟨"/\uE0FF/site/lib/parts".toList⟩ := by
    rw [sibling]
    exact ⟨[.name "base.css".toList], by simp, by decide +kernel, by decide +kernel⟩
  have listed : ("parts".toList, ⟨"/\uE0FF/site/lib/parts".toList⟩) ∈ nestedAddressing.named := by
    decide +kernel
  have reaches : nestedAddressing.Reaches
      (siblingOf styleTag.document .linkCss "../base".toList) := by
    refine ⟨Or.inl ⟨_, listed, inside⟩, by rw [sibling]; decide, ?_⟩
    intro elsewhere
    exact absurd inside.below (elsewhere _ listed)
  have written : styleTag.tag = Kind.linkCss.opening ++ "../base".toList ++ tagClose := by decide
  have read : Body.ofRaw .linkCss "../base".toList styleTag.tag =
      .ok (Body.plain "../base".toList) := rfl
  have leads := candidate_eq_sibling (by decide) rfl (by decide +kernel) (by decide +kernel) rfl
    scanned List.mem_cons_self written read (by decide) reaches
  exact leads.trans sibling

/-- A site with a folder whose name may be no text. -/
def strayAddressing : Addressing :=
  Addressing.atRoot ⟨"/site".toList⟩ { characters := ['\uE0FF'] }

/-- A site with a named directory that is spelled by way of a folder in it, and that is
called like a markup file. -/
def detourAddressing : Addressing :=
  (Addressing.atRoot ⟨"/site".toList⟩).withAllNamed [("lib".toList, ⟨"lib.html/parts/..".toList⟩)]

set_option maxRecDepth 100000 in
/-- A relative name does not always lead to the file beside the document: an address replaces
what is no text, and a directory that is called like a markup file takes the address of that
file, although it does not end with the extension as it is spelled. -/
theorem candidate_misses_sibling :
    (∃ tag, scanKind (Listing.empty.toSite strayAddressing) ⟨"/site/\uE0FF/index.html".toList⟩
        .file "<!-- file:./n -->".toList = .ok [tag] ∧
      siblingOf ⟨"/site/\uE0FF/index.html".toList⟩ .file "./n".toList =
        ⟨"/site/\uE0FF/n.html".toList⟩ ∧
      strayAddressing.root = ⟨"/site".toList⟩ ∧ strayAddressing.named = [] ∧
      Path.Below ⟨"/site/\uE0FF/n.html".toList⟩ ⟨"/site".toList⟩ ∧
      strayAddressing.candidate tag.kind tag.name = ⟨"/site/\uFFFD/n.html".toList⟩) ∧
    ∃ tag, scanKind (Listing.empty.toSite detourAddressing) ⟨"/site/index.html".toList⟩
        .file "<!-- file:./lib -->".toList = .ok [tag] ∧
      siblingOf ⟨"/site/index.html".toList⟩ .file "./lib".toList = ⟨"/site/lib.html".toList⟩ ∧
      ¬ markupSuffix <:+ "lib.html/parts/..".toList ∧
      detourAddressing.root = ⟨"/site".toList⟩ ∧
      detourAddressing.named = [("lib".toList, ⟨"/site/lib.html".toList⟩)] ∧
      ¬ Path.Below ⟨"/site/lib.html".toList⟩ ⟨"/site/lib.html".toList⟩ ∧
      Path.Below ⟨"/site/lib.html".toList⟩ ⟨"/site".toList⟩ ∧
      detourAddressing.candidate tag.kind tag.name = ⟨"/site/lib.html/.html".toList⟩ := by
  refine ⟨⟨⟨"/\uFFFD/n".toList, .file, 0, 17, "<!-- file:./n -->".toList, [], .none,
    ⟨"/site/\uE0FF/index.html".toList⟩⟩, ?_⟩, ⟨"/lib/".toList, .file, 0, 19,
    "<!-- file:./lib -->".toList, [], .none, ⟨"/site/index.html".toList⟩⟩, ?_⟩
  · refine ⟨by decide +kernel, by decide +kernel, by decide +kernel, rfl, ?_, by decide +kernel⟩
    exact ⟨[.name "\uE0FF".toList, .name "n.html".toList], by simp, by decide +kernel⟩
  · refine ⟨by decide +kernel, by decide +kernel, by decide +kernel, by decide +kernel,
      by decide +kernel, ?_, ?_, by decide +kernel⟩
    · rintro ⟨rest, more, parts⟩
      exact more (List.self_eq_append_right.mp parts)
    · exact ⟨[.name "lib.html".toList], by simp, by decide +kernel⟩

end PageComposer
