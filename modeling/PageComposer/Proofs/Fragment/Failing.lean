import PageComposer.Proofs.Fragment.Wrapping

namespace PageComposer

/-!
# Where the failures of a fragment come from

Some failures are about markup (`Failure.isMarkup`): scanning a text, and looking for
the main slot of a wrapper, end with no other.  What else stops a fragment from being
read is a cycle of wrappers, or a failure that the site gives.  A file that cannot be
found or read stops a reading only where it is the fragment itself
(`readFragmentWithin_failsIn_of_read`).

The statements are about any set of causes that has all of these
(`Site.Causes`), so that one may ask whether a certain failure can come up.
-/

/-- A failure about tags or slots, which no file can cause. -/
def Failure.isMarkup : Failure -> Bool
  | emptyName _ _ | unterminated _ _ | mixedArguments _ => true
  | missingMainSlot _ | overlappingMainSlot _ => true
  | _ => false

/-- A failure about tags that share bytes. -/
def Failure.isOverlap : Failure -> Bool
  | overlapping _ _ _ => true
  | _ => false

/-- The site answers a look-up or a read with this failure. -/
def Site.Gives (site : Site) (failure : Failure) : Prop :=
  (∃ placeholder, site.locate placeholder = .error failure) ∨
    ∃ path, site.read path = .error failure

/-- The failures besides missing files and overlapping tags, and all but the missing files
of those that the site gives. -/
structure Site.Causes (site : Site) (causes : Failure -> Prop) : Prop where
  own : ∀ failure, failure.isResolution = false -> failure.isOverlap = false -> causes failure
  given : ∀ failure, site.Gives failure -> failure.isResolution = false -> causes failure

/-- A cause, or a missing file. -/
def OrMissing (causes : Failure -> Prop) (failure : Failure) : Prop :=
  failure.isResolution = false -> causes failure

/-! ## Scanning -/

section Scanning

variable {site : Site} {document : Path} {kind : Kind}

theorem readTag_failsIn (start : Nat) (raw : Text) :
    FailsIn (fun failure => failure.isMarkup = true) (readTag site document kind start raw) := by
  have body (tag : Text) : FailsIn (fun failure => failure.isMarkup = true)
      (Body.ofRaw kind raw tag) := by
    have call : FailsIn (fun failure => failure.isMarkup = true) (Body.ofCall raw tag) := by
      unfold Body.ofCall
      dsimp only
      split
      · split
        · exact .ok _
        · exact .error rfl
      · exact .ok _
    cases kind with
    | content | file | linkCss | linkScript => exact .ok _
    | layout | wrap => exact call
  unfold readTag
  dsimp only
  cases taken : Body.ofRaw kind raw (kind.opening ++ raw ++ tagClose) with
  | error failure => exact .error (body _ failure taken)
  | ok read =>
      dsimp only
      split
      · exact .error rfl
      · exact .ok _

/-- Scanning looks nothing up, so that only the text can make it fail. -/
theorem scanKind_failsIn (text : Text) :
    FailsIn (fun failure => failure.isMarkup = true) (scanKind site document kind text) := by
  unfold scanKind
  generalize 0 = offset
  induction size : text.length using Nat.strongRecOn generalizing offset text with
  | ind length inductionHypothesis =>
      unfold scanKindFrom
      split
      · exact .ok []
      · rename_i before inside opened
        split
        · exact .error rfl
        · rename_i raw rest closed
          have outer := Text.cut?_length opened
          have inner := Text.cut?_length closed
          have closing : 0 < tagClose.length := by decide
          refine (readTag_failsIn _ raw).bind fun placeholder _ => ?_
          refine FailsIn.bind ?_ fun others _ => .ok _
          exact inductionHypothesis rest.length (by omega) rest _ rfl

theorem scan_failsIn (kinds : List Kind) (text : Text) :
    FailsIn (fun failure => failure.isMarkup = true) (scan site document kinds text) :=
  (FailsIn.mapM (fun _ => scanKind_failsIn text) kinds).bind fun _ _ => .ok _

theorem findMainSlot_failsIn (text : Text) :
    FailsIn (fun failure => failure.isMarkup = true) (findMainSlot site document text) := by
  refine (scanKind_failsIn text).bind fun slots _ => ?_
  split
  · exact .ok _
  · exact .error rfl
  · exact .error rfl

end Scanning

/-! ## Reading a fragment -/

section Reading

variable {site : Site} {causes : Failure -> Prop}

theorem Site.Causes.markup (has : site.Causes causes) :
    ∀ failure : Failure, failure.isMarkup = true -> causes failure := by
  intro failure markup
  apply has.own failure
  all_goals cases failure <;> first | rfl | cases markup

/-- A missing file is not passed on. -/
theorem guarded_failsIn {A : Type} {failure : Failure} (cause : OrMissing causes failure)
    (value : A) : FailsIn causes (if failure.isResolution then .ok value else .error failure) := by
  by_cases lost : failure.isResolution = true
  · rw [if_pos lost]
    exact .ok value
  · rw [if_neg lost]
    exact .error (cause (Bool.eq_false_iff.mpr lost))

variable (has : site.Causes causes)

include has

theorem locate_failsIn (placeholder : Placeholder) :
    FailsIn (OrMissing causes) (site.locate placeholder) :=
  fun failure failed => has.given failure (Or.inl ⟨placeholder, failed⟩)

theorem read_failsIn (path : Path) : FailsIn (OrMissing causes) (site.read path) :=
  fun failure failed => has.given failure (Or.inr ⟨path, failed⟩)

theorem applyWrapWith_failsIn {enter : Path -> Except Failure Text}
    (entered : ∀ wrapper, FailsIn (OrMissing causes) (enter wrapper)) (wrapping : List Path)
    (wrap : Placeholder) (document : Text) :
    FailsIn causes (applyWrapWith site enter wrapping wrap document) := by
  unfold applyWrapWith
  split
  · rename_i failure failed
    exact guarded_failsIn (locate_failsIn has wrap failure failed) _
  · split
    · exact .error (has.own _ rfl rfl)
    · split
      · rename_i failure failed
        exact guarded_failsIn (entered _ failure failed) _
      · exact ((findMainSlot_failsIn _).mono has.markup).bind fun _ _ => .ok _

/-- Once a fragment is read, no wrapper of it that is missing makes it fail. -/
theorem assembleWith_failsIn_of_read {enter : Path -> Except Failure Text}
    (entered : ∀ wrapper, FailsIn (OrMissing causes) (enter wrapper)) (wrapping : List Path)
    {path : Path} {raw : Text} (read : site.read path = .ok raw) :
    FailsIn causes (assembleWith site enter wrapping path) := by
  unfold assembleWith
  rw [read]
  refine ((scanKind_failsIn _).mono has.markup).bind fun wraps _ => ?_
  cases wraps with
  | nil => exact .ok _
  | cons wrap others => exact applyWrapWith_failsIn has entered wrapping wrap _

theorem assembleWith_failsIn {enter : Path -> Except Failure Text}
    (entered : ∀ wrapper, FailsIn (OrMissing causes) (enter wrapper)) (wrapping : List Path)
    (path : Path) : FailsIn (OrMissing causes) (assembleWith site enter wrapping path) := by
  cases read : site.read path with
  | error failure =>
      unfold assembleWith
      rw [read]
      exact .error (read_failsIn has path failure read)
  | ok raw =>
      exact (assembleWith_failsIn_of_read has entered wrapping read).mono fun _ cause _ => cause

theorem enterWithin_failsIn (depth : Nat) (wrapping : List Path) (wrapper : Path) :
    FailsIn (OrMissing causes) (enterWithin site depth wrapping wrapper) := by
  induction depth generalizing wrapping wrapper with
  | zero => exact .error fun _ => has.own _ rfl rfl
  | succ below inductionHypothesis =>
      rw [enterWithin, readFragmentWithin_eq]
      exact (assembleWith_failsIn has (inductionHypothesis _) _ wrapper).map _

theorem readFragmentWithin_failsIn (depth : Nat) (wrapping : List Path) (path : Path) :
    FailsIn (OrMissing causes) (readFragmentWithin site depth wrapping path) := by
  rw [readFragmentWithin_eq]
  exact (assembleWith_failsIn has (enterWithin_failsIn has depth wrapping) _ path).map _

theorem readFragmentWithin_failsIn_of_read (depth : Nat) (wrapping : List Path) {path : Path}
    {raw : Text} (read : site.read path = .ok raw) :
    FailsIn causes (readFragmentWithin site depth wrapping path) := by
  rw [readFragmentWithin_eq]
  exact (assembleWith_failsIn_of_read has (enterWithin_failsIn has depth wrapping) _ read).map _

end Reading
end PageComposer
