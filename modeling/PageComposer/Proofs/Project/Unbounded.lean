import PageComposer.Proofs.Project.Walking

namespace PageComposer

/-!
# The walk without a bound

The depth that a walk may go to is bounded by what the tree holds, since a tree with links has
no longest path.  Here the walk goes on without a bound: it looks at one name after the other
and puts the names of a folder that it enters in front of those that are left
(`Walk.Ends`).  As no place is entered twice, and there are no more places than the tree lists,
the bound is never reached, and every walk comes to an end (`Walk.exists_finishes`).
-/

open FileTree

namespace Walk

variable {walk : Walk} {root : Path} {names : List Text} {name : Text} {progress : Progress}

/-- Whether the walk goes on in what has this name in a folder. -/
def goesInto (walk : Walk) (folder : Path) (name : Text) : Bool :=
  walk.looksAt name (folder.join ⟨name⟩) && walk.tree.isFolder (folder.join ⟨name⟩) &&
    walk.enters (folder.join ⟨name⟩)

theorem isFolder_of_goesInto {folder : Path} (goes : walk.goesInto folder name = true) :
    walk.tree.isFolder (folder.join ⟨name⟩) = true := by
  unfold goesInto at goes
  rw [Bool.and_eq_true, Bool.and_eq_true] at goes
  exact goes.1.2

/-! ## One entry after the other -/

/-- A name in the folder that names lead to. -/
abbrev Entry := List Text × Text

/-- What is met in the folder at a place, which the names lead to. -/
def entriesIn (walk : Walk) (names : List Text) (place : Place) : List Entry :=
  (walk.namesIn place).map fun name => (names, name)

theorem mem_entriesIn {place : Place} {entry : Entry} :
    entry ∈ walk.entriesIn names place ↔ entry.1 = names ∧ entry.2 ∈ walk.namesIn place := by
  unfold entriesIn
  rw [List.mem_map]
  constructor
  · rintro ⟨name, listed, same⟩
    subst same
    exact ⟨rfl, listed⟩
  · rintro ⟨same, listed⟩
    exact ⟨entry.2, listed, by rw [← same]⟩

theorem nodup_entriesIn {place : Place} (nodup : (walk.namesIn place).Nodup) :
    (walk.entriesIn names place).Nodup :=
  nodup.map fun _ _ same => (Prod.mk.inj same).2

/-- Enter a folder.  Its names are to be looked at. -/
def enter (walk : Walk) (root : Path) (names : List Text) (progress : Progress) :
    Except Failure (List Entry × Progress) :=
  match walk.tree.placeOf (root.descend names) with
  | .error fault => .error (.storage fault)
  | .ok place =>
      if progress.entered.contains place then .error (.symlinkCycle (root.descend names))
      else
        .ok (walk.entriesIn names place,
          { progress with entered := place :: progress.entered })

/-- The template that an entry is, unless it is none. -/
def keptAt (walk : Walk) (root : Path) (entry : Entry) : List Path :=
  walk.listedAt (walk.listed 0) (root.descend entry.1) entry.2

/-- Look at one entry. -/
def step (walk : Walk) (root : Path) (entry : Entry) (progress : Progress) :
    Except Failure (List Entry × Progress) :=
  if walk.goesInto (root.descend entry.1) entry.2 then
    walk.enter root (entry.1 ++ [entry.2]) progress
  else .ok ([], { progress with found := walk.keptAt root entry ++ progress.found })

/-- Entries are looked at one after the other, and this is how it ends. -/
inductive Ends (walk : Walk) (root : Path) :
    List Entry -> Progress -> Except Failure Progress -> Prop
  | done {progress : Progress} : Ends walk root [] progress (.ok progress)
  | fails {entry : Entry} {rest : List Entry} {progress : Progress} {failure : Failure}
      (fault : walk.step root entry progress = .error failure) :
      Ends walk root (entry :: rest) progress (.error failure)
  | goesOn {entry : Entry} {rest inside : List Entry} {progress next : Progress}
      {outcome : Except Failure Progress}
      (stepped : walk.step root entry progress = .ok (inside, next))
      (behind : Ends walk root (inside ++ rest) next outcome) :
      Ends walk root (entry :: rest) progress outcome

/-- A folder is entered, and this is how it ends. -/
inductive EndsIn (walk : Walk) (root : Path) (names : List Text) (progress : Progress) :
    Except Failure Progress -> Prop
  | fails {failure : Failure} (fault : walk.enter root names progress = .error failure) :
      EndsIn walk root names progress (.error failure)
  | goesOn {inside : List Entry} {next : Progress} {outcome : Except Failure Progress}
      (entered : walk.enter root names progress = .ok (inside, next))
      (behind : walk.Ends root inside next outcome) : EndsIn walk root names progress outcome

namespace Ends

variable {front rest : List Entry} {after : Progress} {outcome : Except Failure Progress}

theorem append (first : walk.Ends root front progress (.ok after))
    (second : walk.Ends root rest after outcome) :
    walk.Ends root (front ++ rest) progress outcome := by
  generalize ended : Except.ok after = between at first
  induction first with
  | done =>
      cases ended
      exact second
  | fails fault => cases ended
  | goesOn stepped behind inductionHypothesis =>
      rw [List.cons_append]
      refine .goesOn stepped ?_
      rw [← List.append_assoc]
      exact inductionHypothesis ended

theorem append_of_error {failure : Failure}
    (first : walk.Ends root front progress (.error failure)) :
    walk.Ends root (front ++ rest) progress (.error failure) := by
  generalize ended : Except.error failure = between at first ⊢
  induction first with
  | done => cases ended
  | fails fault => exact .fails fault
  | goesOn stepped behind inductionHypothesis =>
      rw [List.cons_append]
      refine .goesOn stepped ?_
      rw [← List.append_assoc]
      exact inductionHypothesis ended

theorem of_goesInto (goes : walk.goesInto (root.descend names) name = true)
    (inside : walk.EndsIn root (names ++ [name]) progress outcome) :
    walk.Ends root [(names, name)] progress outcome := by
  have stepped : walk.step root (names, name) progress =
      walk.enter root (names ++ [name]) progress := if_pos goes
  cases inside with
  | fails fault => exact .fails (stepped.trans fault)
  | goesOn entered behind =>
      refine .goesOn (stepped.trans entered) ?_
      rwa [List.append_nil]

end Ends

/-- The whole walk from a root, without a bound.  A root that is no folder is not entered. -/
inductive Finishes (walk : Walk) (root : Path) : Except Failure Progress -> Prop
  | nothing (none : walk.tree.isFolder root = false) : Finishes walk root (.ok {})
  | ends {outcome : Except Failure Progress} (folder : walk.tree.isFolder root = true)
      (behind : walk.EndsIn root [] {} outcome) : Finishes walk root outcome

/-! ## The bound on the walk -/

/-- Folders have been entered, each once. -/
structure Progress.IsSound (walk : Walk) (progress : Progress) : Prop where
  nodup : progress.entered.Nodup
  folders : ∀ place ∈ progress.entered, walk.tree.itemAt? place = some .folder

theorem Progress.IsSound.length_le (sound : progress.IsSound walk) :
    progress.entered.length ≤ walk.tree.items.length + 1 := by
  have within : progress.entered ⊆ [] :: walk.tree.items.map Prod.fst := by
    intro place member
    by_cases top : place = []
    · rw [top]
      exact List.mem_cons_self
    · refine List.mem_cons_of_mem _ ((itemAt?_ne_none_iff top).mp ?_)
      rw [sound.folders place member]
      simp
  have bound := sound.nodup.length_le_of_subset within
  rwa [List.length_cons, List.length_map] at bound

theorem enter_eq_ok_iff {inside : List Entry} {next : Progress} :
    walk.enter root names progress = .ok (inside, next) ↔
      ∃ place, walk.tree.placeOf (root.descend names) = .ok place ∧
        place ∉ progress.entered ∧
        inside = walk.entriesIn names place ∧
        next = { progress with entered := place :: progress.entered } := by
  unfold enter
  cases located : walk.tree.placeOf (root.descend names) with
  | error fault => simp
  | ok place =>
      dsimp only
      by_cases again : place ∈ progress.entered
      · simp [again]
      · simp [again, eq_comm]

/-- Only a folder that has been entered cannot be entered. -/
theorem exists_entered_of_enter {failure : Failure}
    (folder : walk.tree.isFolder (root.descend names) = true)
    (fault : walk.enter root names progress = .error failure) :
    failure = .symlinkCycle (root.descend names) ∧
      ∃ place ∈ progress.entered, walk.tree.placeOf (root.descend names) = .ok place := by
  rcases isFolder_iff.mp folder with ⟨place, located, _⟩
  unfold enter at fault
  rw [located] at fault
  dsimp only at fault
  split at fault
  · rename_i again
    rw [List.contains_iff_mem] at again
    cases fault
    exact ⟨rfl, place, again, located⟩
  · cases fault

theorem Progress.IsSound.enter {inside : List Entry} {next : Progress}
    (sound : progress.IsSound walk) (folder : walk.tree.isFolder (root.descend names) = true)
    (entered : walk.enter root names progress = .ok (inside, next)) :
    next.IsSound walk ∧ next.entered.length = progress.entered.length + 1 := by
  rcases isFolder_iff.mp folder with ⟨place, located, isFolder⟩
  rcases enter_eq_ok_iff.mp entered with ⟨other, locatedOther, fresh, _, equal⟩
  cases located.symm.trans locatedOther
  subst equal
  exact ⟨⟨List.nodup_cons.mpr ⟨fresh, sound.nodup⟩,
    List.forall_mem_cons.mpr ⟨isFolder, sound.folders⟩⟩, rfl⟩

theorem Progress.IsSound.step {entry : Entry} {inside : List Entry} {next : Progress}
    (sound : progress.IsSound walk) (stepped : walk.step root entry progress = .ok (inside, next)) :
    next.IsSound walk ∧ progress.entered.length ≤ next.entered.length := by
  unfold Walk.step at stepped
  split at stepped
  · rename_i goes
    have folder := isFolder_of_goesInto goes
    rw [← Path.descend_concat] at folder
    have both := sound.enter folder stepped
    exact ⟨both.1, both.2 ▸ Nat.le_succ _⟩
  · cases stepped
    exact ⟨⟨sound.nodup, sound.folders⟩, Nat.le_refl _⟩

theorem Ends.isSound {entries : List Entry} {after : Progress}
    (ends : walk.Ends root entries progress (.ok after)) (sound : progress.IsSound walk) :
    after.IsSound walk ∧ progress.entered.length ≤ after.entered.length := by
  generalize ended : Except.ok after = outcome at ends
  induction ends with
  | done =>
      cases ended
      exact ⟨sound, Nat.le_refl _⟩
  | fails fault => cases ended
  | goesOn stepped behind inductionHypothesis =>
      have next := sound.step stepped
      have later := inductionHypothesis next.1 ended
      exact ⟨later.1, next.2.trans later.2⟩

/-- An entry is a folder to go on in, or it adds what is kept of it. -/
theorem lookAt_eq_ite (visit : Path -> Progress -> Except Failure Progress) :
    walk.lookAt visit (root.descend names) progress name =
      if walk.goesInto (root.descend names) name then
        visit (root.descend (names ++ [name])) progress
      else .ok { progress with found := walk.keptAt root (names, name) ++ progress.found } := by
  rw [Path.descend_concat]
  unfold lookAt goesInto keptAt listedAt
  dsimp only
  cases walk.looksAt name ((root.descend names).join ⟨name⟩) with
  | false => rfl
  | true =>
      cases walk.tree.isFolder ((root.descend names).join ⟨name⟩) with
      | true => cases walk.enters ((root.descend names).join ⟨name⟩) <;> rfl
      | false => cases isTemplate ((root.descend names).join ⟨name⟩) walk.stray <;> rfl

/-- Names are met one after the other if folders are visited as without a bound. -/
theorem foldlM_lookAt_ends {depth : Nat} {others : List Text} (sound : progress.IsSound walk)
    (visits : ∀ (name : Text) (before : Progress),
      walk.goesInto (root.descend names) name = true -> before.IsSound walk ->
        progress.entered.length ≤ before.entered.length ->
          walk.EndsIn root (names ++ [name]) before
            (walk.visit depth (root.descend (names ++ [name])) before)) :
    walk.Ends root (others.map fun name => (names, name)) progress
      (others.foldlM (walk.lookAt (walk.visit depth) (root.descend names)) progress) := by
  induction others generalizing progress with
  | nil => exact .done
  | cons name others inductionHypothesis =>
      have looked : walk.Ends root [(names, name)] progress
          (walk.lookAt (walk.visit depth) (root.descend names) progress name) := by
        rw [lookAt_eq_ite]
        split
        · rename_i goes
          exact .of_goesInto goes (visits name progress goes sound (Nat.le_refl _))
        · rename_i stays
          exact .goesOn (if_neg stays) .done
      rw [List.foldlM_cons, List.map_cons, ← List.singleton_append]
      cases ended : walk.lookAt (walk.visit depth) (root.descend names) progress name with
      | error failure =>
          rw [ended] at looked
          exact looked.append_of_error
      | ok after =>
          rw [ended] at looked
          have later := looked.isSound sound
          refine looked.append (inductionHypothesis later.1 ?_)
          intro other before goes soundBefore grown
          exact visits other before goes soundBefore (later.2.trans grown)

/-- With a bound that is large enough a folder is visited as without one. -/
theorem visit_ends {depth : Nat} (sound : progress.IsSound walk)
    (folder : walk.tree.isFolder (root.descend names) = true)
    (enough : walk.tree.items.length + 2 ≤ depth + progress.entered.length) :
    walk.EndsIn root names progress (walk.visit depth (root.descend names) progress) := by
  induction depth generalizing names progress with
  | zero =>
      have bound := sound.length_le
      omega
  | succ depth inductionHypothesis =>
      rcases isFolder_iff.mp folder with ⟨place, located, _⟩
      rw [visit, located]
      dsimp only
      by_cases again : progress.entered.contains place = true
      · rw [if_pos again]
        refine .fails ?_
        rw [enter, located]
        exact if_pos again
      · rw [if_neg again]
        have entered : walk.enter root names progress =
            .ok (walk.entriesIn names place,
              { progress with entered := place :: progress.entered }) := by
          rw [enter, located]
          exact if_neg again
        have next := sound.enter folder entered
        refine .goesOn entered (foldlM_lookAt_ends next.1 ?_)
        intro name before goes soundBefore grown
        have below := isFolder_of_goesInto goes
        rw [← Path.descend_concat] at below
        refine inductionHypothesis soundBefore below ?_
        have count := next.2
        omega

/-- The walk does without its bound. -/
theorem exists_finishes (walk : Walk) (root : Path) :
    ∃ outcome, walk.Finishes root outcome ∧
      walk.templates root = outcome.map Progress.found := by
  unfold templates
  cases folder : walk.tree.isFolder root with
  | false => exact ⟨.ok {}, .nothing folder, rfl⟩
  | true =>
      have sound : Progress.IsSound walk {} := ⟨List.nodup_nil, List.forall_mem_nil _⟩
      refine ⟨_, .ends folder (visit_ends sound folder (Nat.le_add_right _ _)), ?_⟩
      rw [if_pos rfl]
      rfl

end Walk
end PageComposer
