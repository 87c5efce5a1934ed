import PageComposer.Proofs.Fragment.Chain
import PageComposer.Proofs.Path.Candidate

namespace PageComposer

/-!
# Cycles of wrappers

Reading a fragment reads its wrapper, the wrapper of the wrapper and so on.
`ReadsFragment` is this recursion itself: nothing counts the wrappers that may still be
entered, and a reading has a result only if all readings inside it have theirs.  Reading
as it is computed follows the recursion to its end (`readsFragment_readFragmentWithin`),
because the wrappers that are being read are different files of the site.

No other failure has the form of a cycle.  So a cycle is reported exactly where the chain
of wrappers of a file never ends, and it names the first wrapper that the chain reaches
twice.
-/

/-- Reading `path` while `wrapping` are being read ends with this result, and at most
`depth` readings, this one included, are ever under way inside each other. -/
inductive ReadsFragment (site : Site) : Nat -> List Path -> Path -> Except Failure Text -> Prop
  | read {depth : Nat} {wrapping : List Path} {path : Path} {enter : Path -> Except Failure Text}
      (inner : ∀ wrapper, site.wrapperOf? path = some wrapper ->
        wrapping.any wrapper.same = false ->
        ReadsFragment site depth (wrapper :: wrapping) wrapper (enter wrapper)) :
      ReadsFragment site (depth + 1) wrapping path (readFragmentWith site enter wrapping path)

section Reading

variable {site : Site} {wrapping : List Path} {path : Path}

/-- A reading enters no file but the wrapper of its own, and that only if it is not being
read. -/
theorem readFragmentWith_congr {enter other : Path -> Except Failure Text}
    (agree : ∀ wrapper, site.wrapperOf? path = some wrapper ->
      wrapping.any wrapper.same = false -> enter wrapper = other wrapper) :
    readFragmentWith site enter wrapping path = readFragmentWith site other wrapping path := by
  rw [readFragmentWith_eq, readFragmentWith_eq]
  congr 1
  unfold assembleWith
  cases read : site.read path with
  | error failure => rfl
  | ok raw =>
      dsimp only [bind, Except.bind]
      cases scanned : scanKind site path .wrap (prepareEditable site path raw) with
      | error failure => rfl
      | ok wraps =>
          cases wraps with
          | nil => rfl
          | cons wrap others =>
              dsimp only
              unfold applyWrapWith
              cases located : site.locate wrap with
              | error failure => rfl
              | ok wrapper =>
                  dsimp only
                  cases within : wrapping.any wrapper.same with
                  | true => rfl
                  | false =>
                      have leads : site.wrapperOf? path = some wrapper :=
                        Site.wrapperOf?_eq_some_iff.mpr ⟨raw, wrap, others, read, scanned, located⟩
                      rw [agree wrapper leads within]

/-- The recursion has one result. -/
theorem ReadsFragment.unique {depth other : Nat} {result another : Except Failure Text}
    (reads : ReadsFragment site depth wrapping path result)
    (readsAgain : ReadsFragment site other wrapping path another) : result = another := by
  induction reads generalizing other another with
  | read _ inductionHypothesis =>
      cases readsAgain with
      | read inner =>
          apply readFragmentWith_congr
          intro wrapper leads fresh
          exact inductionHypothesis wrapper leads fresh (inner wrapper leads fresh)

theorem Reading.step (reading : Reading site wrapping path) {wrapper : Path}
    (leads : site.wrapperOf? path = some wrapper)
    (fresh : wrapping.any wrapper.same = false) : Reading site (wrapper :: wrapping) wrapper := by
  rcases Site.wrapperOf?_eq_some_iff.mp leads with ⟨raw, wrap, others, read, scanned, located⟩
  exact .wrapper reading read scanned located fresh

/-- Where a site knows how many wrappers can be read at a time, reading follows the
recursion to its end. -/
theorem readsFragment_readFragmentWithin (bounded : site.Bounded) {depth : Nat}
    (reading : Reading site wrapping path) (enough : site.fileCount ≤ depth + wrapping.length) :
    ReadsFragment site (depth + 1) wrapping path (readFragmentWithin site depth wrapping path) := by
  induction depth generalizing wrapping path with
  | zero =>
      refine .read fun wrapper leads fresh => ?_
      rcases Reading.exists_depth bounded enough (reading.step leads fresh) with ⟨_, impossible⟩
      cases impossible
  | succ below inductionHypothesis =>
      refine .read fun wrapper leads fresh => ?_
      apply inductionHypothesis (reading.step leads fresh)
      rw [List.length_cons]
      omega

/-! ## Where a cycle comes from -/

/-- Only reading wrappers reports a cycle. -/
theorem not_wrapCycle_of_isMarkup {A : Type} {result : Except Failure A}
    (fails : FailsIn (fun failure => failure.isMarkup = true) result) (again : Path) :
    result ≠ .error (.wrapCycle again) := by
  intro cyclic
  have impossible := fails _ cyclic
  cases impossible

/-- A wrapper that is found reports a cycle if it is being read already, or if reading it
does. -/
theorem applyWrapWith_eq_wrapCycle_iff {enter : Path -> Except Failure Text} {wrap : Placeholder}
    {wrapper again : Path} {document : Text} (located : site.locate wrap = .ok wrapper) :
    applyWrapWith site enter wrapping wrap document = .error (.wrapCycle again) ↔
      (wrapping.any wrapper.same = true ∧ wrapper = again) ∨
        (wrapping.any wrapper.same = false ∧ enter wrapper = .error (.wrapCycle again)) := by
  unfold applyWrapWith
  rw [located]
  dsimp only
  cases within : wrapping.any wrapper.same with
  | true => simp
  | false =>
      cases entered : enter wrapper with
      | error failure =>
          by_cases lost : failure.isResolution = true
          · have notCycle : failure ≠ .wrapCycle again := by
              rintro rfl
              cases lost
            simp [lost, notCycle]
          · simp [lost]
      | ok contents =>
          have placed : FailsIn (fun failure => failure.isMarkup = true)
              (findMainSlot site wrapper (Text.trim contents) >>= fun main =>
                .ok (main.replaceIn (Text.trim contents) (wrap.replaceIn document []))) :=
            (findMainSlot_failsIn _).bind fun _ _ => .ok _
          have notCycle := not_wrapCycle_of_isMarkup placed again
          constructor
          · intro cyclic
            exact absurd cyclic notCycle
          · rintro (⟨impossible, _⟩ | ⟨_, impossible⟩)
            · cases impossible
            · cases impossible

/-- A cycle is reported where the wrapper of a file is being read already, or by reading
it. -/
theorem readFragmentWith_eq_wrapCycle_iff (resolving : site.Resolving)
    {enter : Path -> Except Failure Text} {again : Path} :
    readFragmentWith site enter wrapping path = .error (.wrapCycle again) ↔
      ∃ wrapper, site.wrapperOf? path = some wrapper ∧
        ((wrapping.any wrapper.same = true ∧ wrapper = again) ∨
          (wrapping.any wrapper.same = false ∧ enter wrapper = .error (.wrapCycle again))) := by
  have linked {result : Except Failure Text} :
      result.map (resolveLinks site path) = .error (.wrapCycle again) ↔
        result = .error (.wrapCycle again) := by
    cases result <;> simp [Except.map]
  have notLost {failure : Failure} (lost : failure.isResolution = true) :
      failure ≠ .wrapCycle again := by
    rintro rfl
    cases lost
  rw [readFragmentWith_eq, linked, assembleWith]
  constructor
  · intro cyclic
    rcases bind_eq_error_iff.mp cyclic with unread | ⟨raw, read, behind⟩
    · exact absurd rfl (notLost (resolving.read path _ unread))
    · rcases bind_eq_error_iff.mp behind with unscanned | ⟨wraps, scanned, applied⟩
      · exact absurd unscanned (not_wrapCycle_of_isMarkup (scanKind_failsIn _) again)
      · cases wraps with
        | nil => cases applied
        | cons wrap others =>
            cases located : site.locate wrap with
            | error failure =>
                have lost := resolving.locate wrap failure located
                change applyWrapWith site enter wrapping wrap _ = _ at applied
                unfold applyWrapWith at applied
                rw [located] at applied
                dsimp only at applied
                rw [if_pos lost] at applied
                cases applied
            | ok wrapper =>
                exact ⟨wrapper, Site.wrapperOf?_eq_some_iff.mpr
                  ⟨raw, wrap, others, read, scanned, located⟩,
                  (applyWrapWith_eq_wrapCycle_iff located).mp applied⟩
  · rintro ⟨wrapper, leads, cyclic⟩
    rcases Site.wrapperOf?_eq_some_iff.mp leads with ⟨raw, wrap, others, read, scanned, located⟩
    refine bind_eq_error_iff.mpr (Or.inr ⟨raw, read, bind_eq_error_iff.mpr (Or.inr ?_)⟩)
    exact ⟨_, scanned, (applyWrapWith_eq_wrapCycle_iff located).mpr cyclic⟩

/-! ## Cycles and chains -/

/-- No file is located under two different paths. -/
def Site.Canonical (site : Site) : Prop :=
  ∀ wrap other path another, site.locate wrap = .ok path -> site.locate other = .ok another ->
    path.same another = true -> path = another

theorem Listing.toSite_canonical (listing : Listing) (addressing : Addressing) :
    (listing.toSite addressing).Canonical := by
  have normal (wrap : Placeholder) (path : Path)
      (located : (listing.toSite addressing).locate wrap = .ok path) :
      ∃ written : Path, path = written.normalize := by
    rw [(Listing.exists_of_locate located).1]
    exact addressing.exists_candidate_eq wrap.kind wrap.name
  intro wrap other path another located found same
  rcases normal wrap path located with ⟨written, equal⟩
  rcases normal other another found with ⟨written', equal'⟩
  subst equal equal'
  exact Path.normalize_eq_of_same same

/-- A wrapper that is being read already is one of those in the list. -/
theorem Site.Canonical.mem_of_any (canonical : site.Canonical) {start wrapper : Path}
    (followed : site.Followed start wrapping path) (leads : site.wrapperOf? path = some wrapper)
    (within : wrapping.any wrapper.same = true) : wrapper ∈ wrapping := by
  rcases List.any_eq_true.mp within with ⟨former, member, same⟩
  rcases List.mem_iff_getElem?.mp member with ⟨place, found⟩
  have inside : place < wrapping.length := (List.getElem?_eq_some_iff.mp found).1
  have reached := (followed.visited place inside).trans found
  rw [show wrapping.length - place = wrapping.length - place - 1 + 1 by omega] at reached
  rcases Site.located_of_wrapperAfter? reached with ⟨other, found⟩
  rcases Site.wrapperOf?_eq_some_iff.mp leads with ⟨_, wrap, _, _, _, located⟩
  exact canonical wrap other wrapper former located found same ▸ member

theorem not_mem_of_any {wrapper : Path} (fresh : wrapping.any wrapper.same = false) :
    wrapper ∉ wrapping := by
  intro member
  exact List.any_eq_false.mp fresh wrapper member (Path.same_self wrapper)

/-- A reported cycle names the first wrapper that the chain reaches twice. -/
theorem ReadsFragment.firstTwice (resolving : site.Resolving) (canonical : site.Canonical)
    {depth : Nat} {result : Except Failure Text}
    (reads : ReadsFragment site depth wrapping path result) {start again : Path}
    (followed : site.Followed start wrapping path)
    (cyclic : result = .error (.wrapCycle again)) : site.FirstTwice start again := by
  induction reads with
  | read _ inductionHypothesis =>
      rcases (readFragmentWith_eq_wrapCycle_iff resolving).mp cyclic with
        ⟨wrapper, leads, ⟨within, equal⟩ | ⟨fresh, inside⟩⟩
      · exact equal ▸ followed.firstTwice leads (canonical.mem_of_any followed leads within)
      · exact inductionHypothesis wrapper leads fresh
          (followed.step leads (not_mem_of_any fresh)) inside

/-- A chain that never ends is answered with a cycle. -/
theorem ReadsFragment.cyclic (resolving : site.Resolving) {depth : Nat}
    {result : Except Failure Text} (reads : ReadsFragment site depth wrapping path result)
    {start : Path} (followed : site.Followed start wrapping path)
    (endless : ∀ steps, (site.wrapperAfter? steps start).isSome) :
    ∃ again, result = .error (.wrapCycle again) := by
  induction reads with
  | @read depth wrapping path enter _ inductionHypothesis =>
      have further := endless (wrapping.length + 1)
      rw [Site.wrapperAfter?, followed.arrived] at further
      rcases Option.isSome_iff_exists.mp further with ⟨wrapper, leads⟩
      cases within : wrapping.any wrapper.same with
      | true =>
          exact ⟨wrapper, (readFragmentWith_eq_wrapCycle_iff resolving).mpr
            ⟨wrapper, leads, Or.inl ⟨within, rfl⟩⟩⟩
      | false =>
          rcases inductionHypothesis wrapper leads within
            (followed.step leads (not_mem_of_any within)) with ⟨again, inside⟩
          exact ⟨again, (readFragmentWith_eq_wrapCycle_iff resolving).mpr
            ⟨wrapper, leads, Or.inr ⟨within, inside⟩⟩⟩

end Reading

/-- In a listed site the recursion of reading a fragment ends, with at most one reading more
under way than there are files, and a cycle is reported exactly where the chain of
wrappers never ends.  It names the first wrapper that the chain reaches twice. -/
theorem Listing.readFragment_cyclic (listing : Listing) (addressing : Addressing) (path : Path) :
    (∀ result, ReadsFragment (listing.toSite addressing) (listing.size + 1) [] path result ↔
      result = readFragment (listing.toSite addressing) path) ∧
    ((∃ wrapper, readFragment (listing.toSite addressing) path = .error (.wrapCycle wrapper)) ↔
      ∀ steps, ((listing.toSite addressing).wrapperAfter? steps path).isSome) ∧
    ∀ wrapper, readFragment (listing.toSite addressing) path = .error (.wrapCycle wrapper) ↔
      (listing.toSite addressing).FirstTwice path wrapper := by
  have resolving := listing.toSite_resolving addressing
  have reads : ReadsFragment (listing.toSite addressing) (listing.size + 1) [] path
      (readFragment (listing.toSite addressing) path) :=
    readsFragment_readFragmentWithin (listing.toSite_bounded addressing) (.fragment path)
      (Nat.le_refl _)
  have outset := Site.Followed.outset (listing.toSite addressing) path
  have first (wrapper : Path)
      (cyclic : readFragment (listing.toSite addressing) path = .error (.wrapCycle wrapper)) :
      (listing.toSite addressing).FirstTwice path wrapper :=
    reads.firstTwice resolving (listing.toSite_canonical addressing) outset cyclic
  refine ⟨fun result => ⟨fun ends => ends.unique reads, fun equal => equal ▸ reads⟩, ?_, ?_⟩
  · constructor
    · rintro ⟨wrapper, cyclic⟩
      exact (first wrapper cyclic).endless
    · exact reads.cyclic resolving outset
  · refine fun wrapper => ⟨first wrapper, fun twice => ?_⟩
    rcases reads.cyclic resolving outset twice.endless with ⟨again, cyclic⟩
    rw [cyclic, (first again cyclic).unique twice]

/-- The page itself is no wrapper, and the cycle is found when its wrapper comes again. -/
example :
    let files : Listing := ⟨[
      (⟨"/site/page.html".toList⟩, "<!-- wrap:frame -->".toList),
      (⟨"/site/frame.html".toList⟩, "<!-- wrap:inner/frame -->".toList),
      (⟨"/site/inner/frame.html".toList⟩, "<!-- wrap:../frame -->".toList)]⟩
    readFragment (files.toSite (.atRoot ⟨"/site".toList⟩)) ⟨"/site/page.html".toList⟩ =
      .error (.wrapCycle ⟨"/site/frame.html".toList⟩) := by
  decide +kernel

end PageComposer
