import PageComposer.Proofs.Fragment.Slot

namespace PageComposer

/-!
# What fragments inherit from the files of a site

Reading a fragment goes through few steps.  The attributes of a file are
completed, its wrap tag gives way to nothing or to a block, the rest goes into the
main slot of a trimmed wrapper, and the marked links are resolved.  A property of
texts that the files have and every step keeps is inherited by all fragments,
however many wrappers are put around them (`Inherited.of_readFragment`).
-/

/-- A property that the files of a site have and that reading a fragment keeps. -/
structure Inherited (site : Site) (holds : Text -> Prop) : Prop where
  file : ∀ {path raw}, site.read path = .ok raw -> holds (prepareEditable site path raw)
  block : ∀ {path raw text wraps wrap}, site.read path = .ok raw -> holds text ->
    scanKind site path .wrap text = .ok wraps -> wrap ∈ wraps -> holds (unprocessedBlock wrap)
  nothing : holds []
  trimmed : ∀ {text}, holds text -> holds (Text.trim text)
  replaced : ∀ {path kind text tags tag replacement}, holds text ->
    scanKind site path kind text = .ok tags -> tag ∈ tags -> holds replacement ->
    holds (tag.replaceIn text replacement)
  resolved : ∀ {path text}, assemble site path = .ok text -> holds text ->
    holds (resolveLinks site path text)

namespace Inherited

variable {site : Site} {holds : Text -> Prop} {wrapping : List Path} {path : Path}

theorem of_applyWrapWith (inherited : Inherited site holds) {enter : Path -> Except Failure Text}
    (entered : ∀ wrapper text, enter wrapper = .ok text -> holds text) {raw : Text}
    (read : site.read path = .ok raw) {text result : Text} (had : holds text)
    {wraps : List Placeholder} (scanned : scanKind site path .wrap text = .ok wraps)
    {wrap : Placeholder} (member : wrap ∈ wraps)
    (applied : applyWrapWith site enter wrapping wrap text = .ok result) : holds result := by
  have unresolved : holds (unresolvedWrap wrap text) :=
    inherited.replaced had scanned member (inherited.block read had scanned member)
  unfold applyWrapWith at applied
  split at applied
  · split at applied
    · cases applied
      exact unresolved
    · cases applied
  · rename_i wrapper _
    split at applied
    · cases applied
    · split at applied
      · split at applied
        · cases applied
          exact unresolved
        · cases applied
      · rename_i contents inside
        rcases bind_eq_ok_iff.mp applied with ⟨main, found, equal⟩
        cases equal
        rcases exists_mainSlot found with ⟨_, _, slot⟩
        rcases slot.exists_scan with ⟨slots, slotsScanned, within⟩
        have around := inherited.trimmed (entered wrapper contents inside)
        have rest := inherited.replaced had scanned member inherited.nothing
        exact inherited.replaced around slotsScanned within rest

theorem of_assembleWith (inherited : Inherited site holds) {enter : Path -> Except Failure Text}
    (entered : ∀ wrapper text, enter wrapper = .ok text -> holds text) {text : Text}
    (assembled : assembleWith site enter wrapping path = .ok text) : holds text := by
  rcases bind_eq_ok_iff.mp assembled with ⟨raw, read, continued⟩
  rcases bind_eq_ok_iff.mp continued with ⟨wraps, scanned, applied⟩
  cases wraps with
  | nil =>
      cases applied
      exact inherited.file read
  | cons wrap others =>
      exact inherited.of_applyWrapWith entered read (inherited.file read) scanned
        List.mem_cons_self applied

/-- A fragment that is read inside of others is assembled alike on its own. -/
theorem of_entered (inherited : Inherited site holds) {depth : Nat}
    (deep : depth ≤ site.fileCount)
    (entered : ∀ wrapper text, enterWithin site depth wrapping wrapper = .ok text -> holds text)
    {text : Text} (read : readFragmentWithin site depth wrapping path = .ok text) :
    holds text := by
  rw [readFragmentWithin_eq] at read
  rcases map_eq_ok_iff.mp read with ⟨assembled, whole, equal⟩
  have alone := assemble_of_within deep (whole ▸ settled_ok assembled)
  rw [← equal]
  exact inherited.resolved (alone.trans whole) (inherited.of_assembleWith entered whole)

/-- The induction is on the number of wrappers that may still be entered. -/
theorem of_enterWithin (inherited : Inherited site holds) {depth : Nat}
    (deep : depth ≤ site.fileCount) (wrapper : Path) (text : Text)
    (entered : enterWithin site depth wrapping wrapper = .ok text) : holds text := by
  induction depth generalizing wrapping wrapper text with
  | zero => cases entered
  | succ below inductionHypothesis =>
      have shallow := Nat.le_of_succ_le deep
      exact inherited.of_entered shallow (inductionHypothesis shallow) entered

theorem of_readFragmentWithin (inherited : Inherited site holds) {depth : Nat}
    (deep : depth ≤ site.fileCount) {text : Text}
    (read : readFragmentWithin site depth wrapping path = .ok text) : holds text :=
  inherited.of_entered deep (inherited.of_enterWithin deep) read

theorem of_readFragment (inherited : Inherited site holds) {text : Text}
    (read : readFragment site path = .ok text) : holds text :=
  inherited.of_readFragmentWithin (Nat.le_refl _) read

/-- A fragment has the property before its links are resolved as well. -/
theorem of_assemble (inherited : Inherited site holds) {text : Text}
    (assembled : assemble site path = .ok text) : holds text :=
  inherited.of_assembleWith (inherited.of_enterWithin (Nat.le_refl _)) assembled

end Inherited
end PageComposer
