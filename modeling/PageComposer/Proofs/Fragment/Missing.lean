import Mathlib.Data.List.Perm.Subperm
import PageComposer.Proofs.Fragment.Failing

namespace PageComposer

/-!
# Missing fragments

A file that cannot be found or read is a failure of the reference that leads to
it, and no failure of what holds the reference.  Reading a fragment fails for this
reason only when the fragment itself cannot be read
(`read_of_readFragmentWithin`): a wrapper of it that is missing, and a wrapper of
such a wrapper, has become a block in the text.

How many wrappers may still be entered never matters here, as long as a site knows
how long a chain of wrappers can get (`Site.Bounded`).
-/

variable {A : Type}

/-- What fails, if anything does, is no reference that leads to no readable file. -/
def Degrading (result : Except Failure A) : Prop :=
  ∀ failure, result = .error failure -> failure.isResolution = false

/-- Failures that are no missing files contain all that a composition has of its own. -/
theorem causes_isResolution_eq_false (site : Site) :
    site.Causes fun failure => failure.isResolution = false :=
  ⟨fun _ severe _ => severe, fun _ _ severe => severe⟩

/-! ## Reading a fragment -/

theorem readFragmentWithin_of_unread {site : Site} {path : Path} {failure : Failure}
    (unread : site.read path = .error failure) (depth : Nat) (wrapping : List Path) :
    readFragmentWithin site depth wrapping path = .error failure := by
  rw [readFragmentWithin_eq, assembleWith, unread]
  rfl

/-- A fragment is missing only if it is the one that cannot be read. -/
theorem read_of_readFragmentWithin {site : Site} {depth : Nat} {wrapping : List Path}
    {path : Path} {failure : Failure} (lost : failure.isResolution = true)
    (failed : readFragmentWithin site depth wrapping path = .error failure) :
    site.read path = .error failure := by
  cases read : site.read path with
  | error other =>
      rw [readFragmentWithin_of_unread read] at failed
      exact failed
  | ok raw =>
      have severe : failure.isResolution = false :=
        readFragmentWithin_failsIn_of_read (causes_isResolution_eq_false site) depth wrapping read
          failure failed
      rw [lost] at severe
      cases severe

/-! ## References that lead to no readable file -/

/-- The reference of a placeholder leads to no file that can be read. -/
def Site.Misses (site : Site) (placeholder : Placeholder) (failure : Failure) : Prop :=
  site.locate placeholder = .error failure ∨
    ∃ path, site.locate placeholder = .ok path ∧ site.read path = .error failure

/-- Look-ups and reads fail only because a file cannot be found or read. -/
structure Site.Resolving (site : Site) : Prop where
  locate : ∀ placeholder failure,
    site.locate placeholder = .error failure -> failure.isResolution = true
  read : ∀ path failure, site.read path = .error failure -> failure.isResolution = true

/-- A listed site refuses what it does not list. -/
theorem Listing.toSite_resolving (listing : Listing) (addressing : Addressing) :
    (listing.toSite addressing).Resolving := by
  constructor
  · intro placeholder failure unlocated
    simp only [Listing.toSite, Site.locateIn] at unlocated
    split at unlocated
    · cases unlocated
    · cases unlocated
      rfl
  · intro path failure unread
    simp only [Listing.toSite] at unread
    split at unread
    · cases unread
    · cases unread
      rfl

theorem Site.Resolving.isResolution {site : Site} (resolving : site.Resolving)
    {placeholder : Placeholder} {failure : Failure} (missed : site.Misses placeholder failure) :
    failure.isResolution = true := by
  rcases missed with unlocated | ⟨path, _, unread⟩
  · exact resolving.locate placeholder failure unlocated
  · exact resolving.read path failure unread

/-- A fragment is read while the wrappers in the list are: a fragment of a page,
the wrapper of the page, or the first wrapper of a fragment that is read. -/
inductive Reading (site : Site) : List Path -> Path -> Prop
  | fragment (path : Path) : Reading site [] path
  | outermost {wrap : Placeholder} {wrapper : Path} (located : site.locate wrap = .ok wrapper) :
      Reading site [wrapper] wrapper
  | wrapper {wrapping : List Path} {path wrapper : Path} {raw : Text} {wrap : Placeholder}
      {others : List Placeholder} (outer : Reading site wrapping path)
      (read : site.read path = .ok raw)
      (scanned : scanKind site path .wrap (prepareEditable site path raw) = .ok (wrap :: others))
      (located : site.locate wrap = .ok wrapper) (fresh : wrapping.any wrapper.same = false) :
      Reading site (wrapper :: wrapping) wrapper

/-- No more wrappers are read at a time than the site has files. -/
def Site.Bounded (site : Site) : Prop :=
  ∀ wrapping path, Reading site wrapping path -> wrapping.length ≤ site.fileCount

namespace Reading

variable {site : Site} {wrapping : List Path} {path : Path}

theorem located (reading : Reading site wrapping path) :
    ∀ wrapper ∈ wrapping, ∃ wrap, site.locate wrap = .ok wrapper := by
  induction reading with
  | fragment path => simp
  | outermost located => simpa using ⟨_, located⟩
  | wrapper _ _ _ located _ inductionHypothesis =>
      exact List.forall_mem_cons.mpr ⟨⟨_, located⟩, inductionHypothesis⟩

theorem distinct (reading : Reading site wrapping path) :
    (wrapping.map Path.parts).Nodup := by
  induction reading with
  | fragment path => exact .nil
  | outermost located => simp
  | wrapper _ _ _ _ fresh inductionHypothesis =>
      refine List.nodup_cons.mpr ⟨?_, inductionHypothesis⟩
      intro again
      rcases List.mem_map.mp again with ⟨former, member, equal⟩
      have same := List.any_eq_false.mp fresh former member
      exact same (Path.same_iff.mpr equal.symm)

/-- A wrapper that is not being read yet can be entered. -/
theorem exists_depth (bounded : site.Bounded) {depth : Nat}
    (enough : site.fileCount ≤ depth + wrapping.length) {wrapper : Path}
    (inner : Reading site (wrapper :: wrapping) wrapper) : ∃ below, depth = below + 1 := by
  have longer := bounded _ _ inner
  rw [List.length_cons] at longer
  exact Nat.exists_eq_succ_of_ne_zero (by omega)

end Reading

/-- In a listed site the wrappers that are read at a time are different files. -/
theorem Listing.toSite_bounded (listing : Listing) (addressing : Addressing) :
    (listing.toSite addressing).Bounded := by
  intro wrapping path reading
  have listed : wrapping.map Path.parts ⊆ listing.entries.map fun entry => entry.1.parts := by
    intro parts member
    rcases List.mem_map.mp member with ⟨wrapper, within, equal⟩
    rcases reading.located wrapper within with ⟨wrap, located⟩
    rcases exists_of_locate located with ⟨_, text, found⟩
    rcases exists_entry_of_find? found with ⟨entry, listed, same, _⟩
    exact List.mem_map.mpr ⟨entry, listed, (Path.same_iff.mp same).trans equal⟩
  have fits := (List.Nodup.subperm reading.distinct listed).length_le
  rwa [List.length_map, List.length_map] at fits

/-- A fragment whose wrapper is missing keeps a block in place of its wrap,
however deep in other wrappers it is read. -/
theorem readFragmentWithin_of_missing {site : Site} (resolving : site.Resolving)
    (bounded : site.Bounded) {depth : Nat} {wrapping : List Path} {path : Path} {raw : Text}
    {wrap : Placeholder} {others : List Placeholder} {failure : Failure}
    (reading : Reading site wrapping path) (enough : site.fileCount ≤ depth + wrapping.length)
    (read : site.read path = .ok raw)
    (scanned : scanKind site path .wrap (prepareEditable site path raw) = .ok (wrap :: others))
    (missed : site.Misses wrap failure)
    (fresh : ∀ wrapper, site.locate wrap = .ok wrapper -> wrapping.any wrapper.same = false) :
    readFragmentWithin site depth wrapping path =
      .ok (resolveLinks site path (unresolvedWrap wrap (prepareEditable site path raw))) := by
  have lost := resolving.isResolution missed
  have applied : applyWrapWith site (enterWithin site depth wrapping) wrapping wrap
      (prepareEditable site path raw) =
      .ok (unresolvedWrap wrap (prepareEditable site path raw)) := by
    unfold applyWrapWith
    rcases missed with unlocated | ⟨wrapper, located, unread⟩
    · rw [unlocated]
      exact if_pos lost
    · have new := fresh wrapper located
      rcases Reading.exists_depth bounded enough (.wrapper reading read scanned located new) with
        ⟨below, deeper⟩
      have entered : enterWithin site depth wrapping wrapper = .error failure := by
        rw [deeper]
        exact readFragmentWithin_of_unread unread below _
      rw [located]
      dsimp only
      rw [new, entered]
      exact if_pos lost
  rw [readFragmentWithin_eq, assembleWith, read]
  dsimp only [bind, Except.bind]
  rw [scanned]
  dsimp only
  rw [applied]
  rfl

end PageComposer
