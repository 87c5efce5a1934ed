import PageComposer.Proofs.Fragment.Inherited
import PageComposer.Proofs.Markup.Links
import PageComposer.Proofs.Markup.Rewriting
import PageComposer.Proofs.Path.Address

namespace PageComposer

/-!
# Fragments of a clean site are sound

In a listed site of clean files a fragment is a sound text, however many
wrappers are put around it: a wrap tag and the main slot of a wrapper are pieces
of their texts, and replacing a piece keeps a text sound
(`CleanSite.inherited_sound`).  Only the links need an assumption.  Where a wrap
tag is taken out, two parts of an attribute can close up to a relative link, whose
value is then rewritten as a path; no fragment may hold such a link when its
wrapper has been put around it (`NoForgedLink`).  A site whose files hold no dot
has none (`CleanSite.noForgedLink_of_dotless`), as the value of a relative link
begins with one.
-/

/-- A listed site of clean files under plain paths. -/
structure CleanSite (listing : Listing) (addressing : Addressing) : Prop where
  addressing : addressing.IsPlain
  files : ∀ entry ∈ listing.entries, Plainly entry.1.text ∧ Clean entry.2

instance (listing : Listing) (addressing : Addressing) : Decidable (CleanSite listing addressing) :=
  decidable_of_iff
    (addressing.IsPlain ∧ ∀ entry ∈ listing.entries, Plainly entry.1.text ∧ Clean entry.2)
    ⟨fun both => ⟨both.1, both.2⟩, fun clean => ⟨clean.addressing, clean.files⟩⟩

/-- No fragment holds a relative link once its wrapper has been put around it. -/
def NoForgedLink (site : Site) : Prop :=
  ∀ path text, assemble site path = .ok text -> ¬ HasRelativeLink text

/-! ## Reading tags -/

theorem tidyParts_of_readTag {site : Site} {addressing : Addressing}
    (served : site.address = addressing.address) (plain : addressing.IsPlain) {document : Path}
    (plainly : Plainly document.text) {kind : Kind} {start : Nat} {raw : Text} (tidy : Tidy raw)
    {placeholder : Placeholder}
    (accepted : readTag site document kind start raw = .ok placeholder) :
    TidyParts placeholder.name placeholder.args := by
  unfold readTag at accepted
  dsimp only at accepted
  split at accepted
  · cases accepted
  · rename_i body read
    split at accepted
    · cases accepted
    · cases accepted
      have parts := tidyParts_ofRaw tidy read
      exact ⟨tidy_absoluteName served plain plainly parts.name, parts.args⟩

/-- A tag of a sound text stands between sound texts. -/
theorem Sound.around {site : Site} {document : Path} {kind : Kind} {text : Text}
    (sound : Sound text) {placeholders : List Placeholder}
    (scanned : scanKind site document kind text = .ok placeholders) {placeholder : Placeholder}
    (member : placeholder ∈ placeholders) :
    ∃ before after, text = before ++ placeholder.tag ++ after ∧ Sound before ∧ Sound after ∧
      placeholder.start = Text.byteSize before ∧
      placeholder.stop = Text.byteSize before + Text.byteSize placeholder.tag := by
  rcases exists_pieces sound with ⟨pieces, unmarked, spelled⟩
  subst spelled
  have reads := scanKindFrom_spell_iff.mp scanned
  rcases reads.exists_readAt member with ⟨before, piece, after, found⟩
  have starts := found.start
  rw [Nat.zero_add] at starts
  rw [found.joined, unmarked_append] at unmarked
  have behind : Unmarked after :=
    fun other within => unmarked.2 other (List.mem_cons_of_mem _ within)
  refine ⟨spell before, spell after, ?_, sound_spell unmarked.1, sound_spell behind, starts,
    starts ▸ found.stop⟩
  rw [found.joined, spell_append, spell_cons, found.tag, List.append_assoc]

/-- Replacing a tag of a sound text by a sound text. -/
theorem Sound.replaceIn {site : Site} {document : Path} {kind : Kind} {text replacement : Text}
    (sound : Sound text) {placeholders : List Placeholder}
    (scanned : scanKind site document kind text = .ok placeholders) {placeholder : Placeholder}
    (member : placeholder ∈ placeholders) (put : Sound replacement) :
    Sound (placeholder.replaceIn text replacement) := by
  rcases sound.around scanned member with ⟨before, after, joined, front, back, starts, stops⟩
  rw [joined, Placeholder.replaceIn_append starts stops]
  exact (front.append put).append back

theorem tidyParts_of_scanKind {site : Site} {addressing : Addressing}
    (served : site.address = addressing.address) (plain : addressing.IsPlain) {document : Path}
    (plainly : Plainly document.text) {kind : Kind} {text : Text} (sound : Sound text)
    {placeholders : List Placeholder}
    (scanned : scanKind site document kind text = .ok placeholders) :
    ∀ placeholder ∈ placeholders, TidyParts placeholder.name placeholder.args := by
  intro placeholder member
  rcases exists_pieces sound with ⟨pieces, _, spelled⟩
  subst spelled
  rcases (scanKindFrom_spell_iff.mp scanned).exists_readAt member with ⟨_, _, _, found⟩
  rcases found.read with ⟨raw, tagged, accepted⟩
  rcases tagAmong?_eq_some tagged with ⟨_, tidy, _⟩
  exact tidyParts_of_readTag served plain plainly tidy accepted

theorem sound_errorBlock {message : Text} (plain : isPlain message = true) :
    Sound (errorBlock message) := by
  apply sound_of_isPlain
  exact isPlain_append (isPlain_append (by decide) plain) (by decide)

theorem isPlain_label {placeholder : Placeholder} (tidy : Tidy placeholder.name) :
    isPlain placeholder.label = true := by
  have named : isPlain placeholder.kind.name = true := by
    cases placeholder.kind <;> decide
  apply isPlain_append named
  exact isPlain_cons.mpr ⟨fun bracket => absurd bracket (by decide), tidy.plain⟩

theorem sound_unprocessedBlock {placeholder : Placeholder} (tidy : Tidy placeholder.name) :
    Sound (unprocessedBlock placeholder) :=
  sound_errorBlock (isPlain_append (by decide) (isPlain_label tidy))

/-! ## Reading fragments -/

namespace CleanSite

variable {listing : Listing} {addressing : Addressing}

theorem find (clean : CleanSite listing addressing) {path : Path} {text : Text}
    (listed : listing.find? path = some text) : Plainly path.text ∧ Clean text := by
  rcases Listing.exists_entry_of_find? listed with ⟨entry, member, same, equal⟩
  have file := clean.files entry member
  exact ⟨file.1.of_same same, equal ▸ file.2⟩

/-- What can be read is clean and lies under a plain path. -/
theorem read (clean : CleanSite listing addressing) {path : Path} {text : Text}
    (found : (listing.toSite addressing).read path = .ok text) :
    Plainly path.text ∧ Clean text :=
  clean.find (Listing.find?_of_read found)

/-- A file that a placeholder leads to lies under a plain path. -/
theorem locate (clean : CleanSite listing addressing) {placeholder : Placeholder} {path : Path}
    (located : (listing.toSite addressing).locate placeholder = .ok path) :
    Plainly path.text := by
  rcases Listing.exists_of_locate located with ⟨_, text, listed⟩
  exact (clean.find listed).1

/-- Sound texts are inherited where no relative link closes up. -/
theorem inherited_sound (clean : CleanSite listing addressing)
    (linkless : NoForgedLink (listing.toSite addressing)) :
    Inherited (listing.toSite addressing) Sound where
  file read := by
    have cleanRaw := (clean.read read).2
    rw [prepareEditable_eq_self cleanRaw.unedited]
    exact cleanRaw.sound
  block read sound scanned member := by
    have plainly := (clean.read read).1
    apply sound_unprocessedBlock
    exact (tidyParts_of_scanKind rfl clean.addressing plainly sound scanned _ member).name
  nothing := sound_nil
  trimmed sound := sound.trim
  replaced sound scanned member put := sound.replaceIn scanned member put
  resolved assembled sound := by
    rw [resolveLinks_eq_unlink (linkless _ _ assembled)]
    exact sound.unlink

theorem sound_readFragment (clean : CleanSite listing addressing)
    (linkless : NoForgedLink (listing.toSite addressing)) {path : Path} {text : Text}
    (read : readFragment (listing.toSite addressing) path = .ok text) : Sound text :=
  (clean.inherited_sound linkless).of_readFragment read

/-- A wrap puts sound texts around a document. -/
theorem sound_surround (clean : CleanSite listing addressing)
    (linkless : NoForgedLink (listing.toSite addressing)) {wrap : Placeholder}
    (tidy : Tidy wrap.name) {around : Surroundings}
    (found : surround (listing.toSite addressing) wrap = .ok around) :
    Sound around.before ∧ Sound around.inside ∧ Sound around.after := by
  have unresolved {failure : Failure}
      (finished : (if failure.isResolution then .ok ⟨[], unprocessedBlock wrap, []⟩
        else .error failure : Except Failure Surroundings) = .ok around) :
      Sound around.before ∧ Sound around.inside ∧ Sound around.after := by
    split at finished
    · cases finished
      exact ⟨sound_nil, sound_unprocessedBlock tidy, sound_nil⟩
    · cases finished
  unfold surround at found
  dsimp only at found
  split at found
  · exact unresolved found
  · rename_i wrapper _
    split at found
    · exact unresolved found
    · rename_i contents read
      rcases bind_eq_ok_iff.mp found with ⟨main, slotFound, equal⟩
      cases equal
      rcases exists_mainSlot slotFound with ⟨_, _, slot⟩
      rcases slot.exists_scan with ⟨slots, scanned, within⟩
      have sound := (clean.inherited_sound linkless).of_readFragmentWithin (Nat.le_refl _) read
      rcases sound.trim.around scanned within with
        ⟨before, after, joined, front, back, starts, stops⟩
      rw [joined, starts, stops, ← Text.byteSize_append, Text.splitAtByte_append,
        List.append_assoc, Text.splitAtByte_append]
      exact ⟨front, sound_nil, back⟩

end CleanSite

/-! ## Sites without dots -/

/-- A text that holds no dot, and with it no relative link and no relative name. -/
def Dotless (text : Text) : Prop :=
  '.' ∉ text

instance (text : Text) : Decidable (Dotless text) :=
  inferInstanceAs (Decidable ('.' ∉ text))

namespace Dotless

variable {text more : Text}

theorem append (front : Dotless text) (back : Dotless more) : Dotless (text ++ more) := by
  unfold Dotless
  rw [List.mem_append, not_or]
  exact ⟨front, back⟩

theorem of_isInfix (dotless : Dotless text) (inside : more <:+: text) : Dotless more :=
  fun member => dotless (inside.subset member)

theorem not_hasRelativeLink (dotless : Dotless text) : ¬ HasRelativeLink text := by
  rintro (climbing | staying)
  · exact dotless (climbing.subset (by decide))
  · exact dotless (staying.subset (by decide))

theorem unlink (dotless : Dotless text) : Dotless (unlink text) := by
  intro member
  rcases List.append_of_mem member with ⟨before, after, joined⟩
  have dot : ['.'] <:+: PageComposer.unlink text := ⟨before, after, by rw [joined]; simp⟩
  exact dotless ((isInfix_of_isInfix_unlink (by decide) text dot).subset List.mem_cons_self)

/-- A name without a dot is not relative. -/
theorem absoluteName (dotless : Dotless text) (site : Site) (document : Path) :
    absoluteName site document text = text := by
  have other : isRelativeName text = false := by
    cases text with
    | nil => decide
    | cons head rest =>
        have first : ('.' == head) = false :=
          beq_eq_false_iff_ne.mpr fun equal => dotless (equal ▸ List.mem_cons_self)
        simp only [isRelativeName, Text.startsWith, List.isPrefixOf_cons_cons, first,
          Bool.false_and, Bool.or_self]
  exact absoluteName_of_absolute other

theorem errorBlock (dotless : Dotless text) : Dotless (errorBlock text) := by
  have opening : Dotless "<div style=\"background-color: #f08080\">".toList := by decide +kernel
  have closing : Dotless "</div>".toList := by decide
  exact (opening.append dotless).append closing

/-- The name of a tag in a text without dots has none either. -/
theorem name {site : Site} {document : Path} {kind : Kind} (dotless : Dotless text)
    {tags : List Placeholder} (scanned : scanKind site document kind text = .ok tags)
    {tag : Placeholder} (member : tag ∈ tags) : Dotless tag.name := by
  rcases (scanKindFrom_laid scanned).stands tag member with ⟨before, after, joined, _, _⟩
  rcases scanKindFrom_member scanned tag member with ⟨start, raw, _, accepted⟩
  rcases readTag_name accepted with ⟨body, taken, _, named⟩
  have inside : body.name <:+: text := by
    have written := (readTag_span accepted).2.2
    have around : raw <:+: tag.tag := ⟨kind.opening, tagClose, written.symm⟩
    exact ((name_isPrefix_of_ofRaw taken).isInfix.trans around).trans
      ⟨before, after, joined.symm⟩
  have bare := dotless.of_isInfix inside
  rw [named, bare.absoluteName]
  exact bare

theorem unprocessedBlock {tag : Placeholder} (dotless : Dotless tag.name) :
    Dotless (unprocessedBlock tag) := by
  have words : Dotless "Could not process ".toList := by decide
  have kind : Dotless (tag.kind.name ++ [':']) := by cases tag.kind <;> decide
  have label := kind.append dotless
  rw [List.append_assoc] at label
  exact errorBlock (words.append label)

theorem replaceIn {site : Site} {document : Path} {kind : Kind} (dotless : Dotless text)
    {tags : List Placeholder} (scanned : scanKind site document kind text = .ok tags)
    {tag : Placeholder} (member : tag ∈ tags) (put : Dotless more) :
    Dotless (tag.replaceIn text more) := by
  rcases (scanKindFrom_laid scanned).stands tag member with ⟨before, after, joined, starts, stops⟩
  rw [Nat.zero_add] at starts
  subst joined
  rw [Placeholder.replaceIn_append starts (starts ▸ stops)]
  have back := dotless.of_isInfix (List.suffix_append _ after).isInfix
  rw [List.append_assoc] at dotless
  have front := dotless.of_isInfix (List.prefix_append before _).isInfix
  exact (front.append put).append back

end Dotless

namespace CleanSite

variable {listing : Listing} {addressing : Addressing}

/-- Where no file holds a dot, no fragment does, whatever is put around it. -/
theorem inherited_dotless (clean : CleanSite listing addressing)
    (dotless : ∀ entry ∈ listing.entries, Dotless entry.2) :
    Inherited (listing.toSite addressing) Dotless where
  file read := by
    rw [prepareEditable_eq_self (clean.read read).2.unedited]
    rcases Listing.exists_entry_of_find? (Listing.find?_of_read read) with
      ⟨entry, member, _, equal⟩
    exact equal ▸ dotless entry member
  block _ without scanned member := (without.name scanned member).unprocessedBlock
  nothing := by decide
  trimmed without := without.of_isInfix (Text.trim_isInfix _)
  replaced without scanned member put := without.replaceIn scanned member put
  resolved _ without := by
    rw [resolveLinks_eq_unlink without.not_hasRelativeLink]
    exact without.unlink

/-- No relative link closes up where no file holds a dot. -/
theorem noForgedLink_of_dotless (clean : CleanSite listing addressing)
    (dotless : ∀ entry ∈ listing.entries, Dotless entry.2) :
    NoForgedLink (listing.toSite addressing) :=
  fun _ _ assembled => ((clean.inherited_dotless dotless).of_assemble assembled).not_hasRelativeLink

end CleanSite

/-! ## A forged link -/

/-- Clean files of which one closes up to a relative link when its wrapper is put
around it.  The value of that link then ends inside of a comment. -/
def forgingFiles : Listing :=
  ⟨[(⟨"/site/f.html".toList⟩, "\"p<!-- wrap:/w -->s:./a<!-- file:/x -->b/../c\"".toList),
    (⟨"/site/w.html".toList⟩, "<!-- content:main -->".toList)]⟩

end PageComposer
