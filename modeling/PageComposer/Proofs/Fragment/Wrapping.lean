import PageComposer.Compose.Fragment
import PageComposer.Proofs.Outcome

namespace PageComposer

/-!
# Reading a fragment inside other wrappers

Reading a fragment follows its wrappers, and what is being read already only
decides whether a cycle is reported.  A reading that ends without one, be it
with a text or with a file that cannot be found, ends in the same way when
fewer wrappers are being read and more may still be entered
(`enterWithin_settled`).  In particular the wrapper of a document is
read as it is read on its own (`readFragment_of_within`).
-/

/-- A fragment with its wrap applied, before its marked links are resolved. -/
def assembleWith (site : Site) (enter : Path -> Except Failure Text) (wrapping : List Path)
    (path : Path) : Except Failure Text := do
  let raw <- site.read path
  let prepared := prepareEditable site path raw
  let wraps <- scanKind site path .wrap prepared
  match wraps with
  | [] => pure prepared
  | wrap :: _ => applyWrapWith site enter wrapping wrap prepared

/-- How a wrapper is entered when so many may still be. -/
def enterWithin (site : Site) (depth : Nat) (wrapping : List Path) (wrapper : Path) :
    Except Failure Text :=
  match depth with
  | 0 => .error (.wrapCycle wrapper)
  | below + 1 => readFragmentWithin site below (wrapper :: wrapping) wrapper

/-- The text of a fragment before its marked links are resolved. -/
def assemble (site : Site) (path : Path) : Except Failure Text :=
  assembleWith site (enterWithin site site.fileCount []) [] path

theorem readFragmentWith_eq (site : Site) (enter : Path -> Except Failure Text)
    (wrapping : List Path) (path : Path) :
    readFragmentWith site enter wrapping path =
      (assembleWith site enter wrapping path).map (resolveLinks site path) := by
  unfold readFragmentWith assembleWith
  cases site.read path with
  | error failure => rfl
  | ok raw =>
      change (scanKind site path .wrap _ >>= _) = Except.map _ (scanKind site path .wrap _ >>= _)
      cases scanKind site path .wrap (prepareEditable site path raw) with
      | error failure => rfl
      | ok wraps =>
          cases wraps with
          | nil => rfl
          | cons wrap others =>
              change (applyWrapWith site enter wrapping wrap _ >>= _) =
                Except.map _ (applyWrapWith site enter wrapping wrap _)
              cases applyWrapWith site enter wrapping wrap (prepareEditable site path raw) <;> rfl

theorem readFragmentWithin_eq (site : Site) (depth : Nat) (wrapping : List Path) (path : Path) :
    readFragmentWithin site depth wrapping path =
      (assembleWith site (enterWithin site depth wrapping) wrapping path).map
        (resolveLinks site path) := by
  cases depth with
  | zero => exact readFragmentWith_eq site _ wrapping path
  | succ below => exact readFragmentWith_eq site _ wrapping path

/-- The reading ended without a cycle: with a text, or with a file that cannot
be found or read. -/
def Settled (result : Except Failure Text) : Prop :=
  ∀ failure, result = .error failure -> failure.isResolution = true

theorem settled_ok (text : Text) : Settled (.ok text) := by
  intro failure impossible
  cases impossible

/-- Less is being read in `fewer` than in `wrapping`. -/
def Fewer (fewer wrapping : List Path) : Prop :=
  ∀ path : Path, fewer.any path.same = true -> wrapping.any path.same = true

theorem Fewer.cons {fewer wrapping : List Path} (less : Fewer fewer wrapping) (wrapper : Path) :
    Fewer (wrapper :: fewer) (wrapper :: wrapping) := by
  intro path
  rw [List.any_cons, List.any_cons, Bool.or_eq_true_iff, Bool.or_eq_true_iff]
  exact Or.imp_right (less path)

theorem fewer_nil (wrapping : List Path) : Fewer [] wrapping := by
  intro path impossible
  cases impossible

section Entering

variable {site : Site} {enter enterMore : Path -> Except Failure Text}
  {wrapping fewer : List Path}

theorem applyWrapWith_settled
    (entered : ∀ wrapper, Settled (enter wrapper) -> enterMore wrapper = enter wrapper)
    (less : Fewer fewer wrapping) {wrap : Placeholder} {document : Text}
    (settled : Settled (applyWrapWith site enter wrapping wrap document)) :
    applyWrapWith site enterMore fewer wrap document =
      applyWrapWith site enter wrapping wrap document := by
  unfold applyWrapWith at settled ⊢
  cases located : site.locate wrap with
  | error failure => rfl
  | ok wrapper =>
      simp only [located] at settled ⊢
      by_cases cyclic : wrapping.any wrapper.same = true
      · rw [if_pos cyclic] at settled
        have impossible := settled _ rfl
        cases impossible
      · have fresh : ¬ fewer.any wrapper.same = true := fun again => cyclic (less wrapper again)
        rw [if_neg cyclic] at settled ⊢
        rw [if_neg fresh]
        have inner : Settled (enter wrapper) := by
          intro failure failed
          rw [failed] at settled
          by_cases lost : failure.isResolution = true
          · exact lost
          · simp only [if_neg lost] at settled
            exact settled failure rfl
        rw [entered wrapper inner]

theorem assembleWith_settled
    (entered : ∀ wrapper, Settled (enter wrapper) -> enterMore wrapper = enter wrapper)
    (less : Fewer fewer wrapping) {path : Path}
    (settled : Settled (assembleWith site enter wrapping path)) :
    assembleWith site enterMore fewer path = assembleWith site enter wrapping path := by
  unfold assembleWith at settled ⊢
  cases read : site.read path with
  | error failure => rfl
  | ok raw =>
      cases scanned : scanKind site path .wrap (prepareEditable site path raw) with
      | error failure => simp only [scanned, bind, Except.bind]
      | ok wraps =>
          cases wraps with
          | nil => simp only [scanned, bind, Except.bind]
          | cons wrap others =>
              simp only [read, scanned, bind, Except.bind] at settled ⊢
              exact applyWrapWith_settled entered less settled

end Entering

theorem settled_of_map {result : Except Failure Text} {after : Text -> Text}
    (settled : Settled (result.map after)) : Settled result := by
  intro failure failed
  subst failed
  exact settled failure rfl

theorem enterWithin_settled {site : Site} {depth more : Nat} {wrapping fewer : List Path}
    (deeper : depth ≤ more) (less : Fewer fewer wrapping) (wrapper : Path)
    (settled : Settled (enterWithin site depth wrapping wrapper)) :
    enterWithin site more fewer wrapper = enterWithin site depth wrapping wrapper := by
  induction depth generalizing more wrapping fewer wrapper with
  | zero =>
      have impossible := settled _ rfl
      cases impossible
  | succ below inductionHypothesis =>
      cases more with
      | zero => omega
      | succ moreBelow =>
          simp only [enterWithin] at settled ⊢
          rw [readFragmentWithin_eq] at settled ⊢
          rw [readFragmentWithin_eq, assembleWith_settled
            (fun inner => inductionHypothesis (by omega) (less.cons wrapper) inner)
            (less.cons wrapper) (settled_of_map settled)]

/-- A fragment is read inside other wrappers as it is on its own, unless that
closes a cycle. -/
theorem assemble_of_within {site : Site} {depth : Nat} {wrapping : List Path} {path : Path}
    (deep : depth ≤ site.fileCount)
    (settled : Settled (assembleWith site (enterWithin site depth wrapping) wrapping path)) :
    assemble site path = assembleWith site (enterWithin site depth wrapping) wrapping path :=
  assembleWith_settled (fun wrapper => enterWithin_settled deep (fewer_nil wrapping) wrapper)
    (fewer_nil wrapping) settled

theorem readFragment_eq (site : Site) (path : Path) :
    readFragment site path = (assemble site path).map (resolveLinks site path) :=
  readFragmentWithin_eq site site.fileCount [] path

theorem readFragment_of_within {site : Site} {depth : Nat} {wrapping : List Path} {path : Path}
    (deep : depth ≤ site.fileCount)
    (settled : Settled (readFragmentWithin site depth wrapping path)) :
    readFragment site path = readFragmentWithin site depth wrapping path := by
  rw [readFragmentWithin_eq] at settled ⊢
  rw [readFragment_eq, assemble_of_within deep (settled_of_map settled)]

end PageComposer
