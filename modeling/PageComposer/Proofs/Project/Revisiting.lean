import PageComposer.Proofs.Project.Unbounded

namespace PageComposer

/-!
# Walks through trees with links

A link may lead to a folder that has been entered, and then the walk fails.  Which folder that
is depends on the order in which names are met, and whether there is one does not.  For the
folders that have been entered and the names that are left make up, at every time, all that
the walk passes through (`Walk.Survey`).  When the walk fails, two different paths lead to one
folder (`Walk.Survey.exists_repeats`), and when nothing is left, no two of them do
(`Walk.Survey.not_repeats`).
-/

open FileTree

/-- A tree that lists no place twice, and every place by its names.  Links may lead
anywhere. -/
structure FileTree.IsListed (tree : FileTree) : Prop where
  distinct : (tree.items.map Prod.fst).Nodup
  named : ∀ entry ∈ tree.items, AreNames entry.1

namespace Walk

variable {walk : Walk} {root : Path} {names : List Text} {name : Text} {progress : Progress}

/-! ## What the walk passes through -/

/-- The templates that stand in a folder, and not below it. -/
def templatesIn (walk : Walk) (folder : Path) : List Path :=
  walk.listed 1 folder

/-- A name is met in the folder that the names lead to. -/
def Meets (walk : Walk) (root : Path) (names : List Text) (name : Text) : Prop :=
  ∃ place, walk.tree.placeOf (root.descend names) = .ok place ∧ name ∈ walk.namesIn place

/-- Names that lead from the root to a folder, through folders that no rule leaves out. -/
inductive Passes (walk : Walk) (root : Path) : List Text -> Prop
  | start (folder : walk.tree.isFolder root = true) : Passes walk root []
  | onward {names : List Text} {name : Text} (above : Passes walk root names)
      (meets : walk.Meets root names name)
      (goes : walk.goesInto (root.descend names) name = true) : Passes walk root (names ++ [name])

/-- Two different paths lead to one folder. -/
structure Repeats (walk : Walk) (root : Path) (one other : List Text) : Prop where
  first : walk.Passes root one
  second : walk.Passes root other
  different : (root.descend one).same (root.descend other) = false
  together : walk.tree.placeOf (root.descend one) = walk.tree.placeOf (root.descend other)

theorem Passes.isFolder (passes : walk.Passes root names) :
    walk.tree.isFolder (root.descend names) = true := by
  cases passes with
  | start folder => exact folder
  | onward _ _ goes =>
      rw [Path.descend_concat]
      exact isFolder_of_goesInto goes

theorem Passes.root_ne_nil (passes : walk.Passes root names) : root.text ≠ [] := by
  induction passes with
  | start folder =>
      rcases isFolder_iff.mp folder with ⟨place, located, _⟩
      exact (isSpelled_of_find (placeOf_eq_ok_iff.mp located)).nonempty
  | onward _ _ _ inductionHypothesis => exact inductionHypothesis

/-- Names that are met below one root lead along different paths if they are different. -/
theorem parts_descend_inj (nonempty : root.text ≠ []) {one other : List Text}
    (named : AreNames one) (namedOther : AreNames other) :
    (root.descend one).parts = (root.descend other).parts ↔ one = other := by
  rw [Path.parts_descend nonempty named, Path.parts_descend nonempty namedOther,
    List.append_cancel_left_eq]
  exact (List.map_injective_iff.mpr fun _ _ => Part.name.inj).eq_iff

section Names

variable (listed : walk.tree.IsListed) (meets : walk.MeetsAll)
include listed meets

theorem Meets.isName (met : walk.Meets root names name) : IsName name := by
  rcases met with ⟨place, _, member⟩
  rcases Option.ne_none_iff_exists'.mp (meets.mem_iff.mp member) with ⟨item, found⟩
  exact listed.named _ (mem_of_itemAt? found (by simp)) name (by simp)

theorem Passes.areNames (passes : walk.Passes root names) : AreNames names := by
  induction passes with
  | start _ => exact List.forall_mem_nil _
  | onward _ met _ inductionHypothesis =>
      refine List.forall_mem_append.mpr ⟨inductionHypothesis, ?_⟩
      exact List.forall_mem_singleton.mpr (met.isName listed meets)

/-- Different names lead along different paths. -/
theorem Passes.same_iff {other : List Text} (first : walk.Passes root names)
    (second : walk.Passes root other) :
    (root.descend names).same (root.descend other) = true ↔ names = other := by
  rw [Path.same_iff]
  exact parts_descend_inj first.root_ne_nil (first.areNames listed meets)
    (second.areNames listed meets)

theorem Passes.entry_inj {other : List Text} {nameOther : Text} (first : walk.Passes root names)
    (second : walk.Passes root other) (met : walk.Meets root names name)
    (metOther : walk.Meets root other nameOther)
    (same : root.descend (names ++ [name]) = root.descend (other ++ [nameOther])) :
    (names, name) = (other, nameOther) := by
  have named := List.forall_mem_append.mpr ⟨first.areNames listed meets,
    List.forall_mem_singleton.mpr (met.isName listed meets)⟩
  have namedOther := List.forall_mem_append.mpr ⟨second.areNames listed meets,
    List.forall_mem_singleton.mpr (metOther.isName listed meets)⟩
  have equal := (parts_descend_inj first.root_ne_nil named namedOther).mp
    (congrArg Path.parts same)
  have both := List.append_inj' equal rfl
  exact Prod.ext both.1 (List.singleton_inj.mp both.2)

end Names

/-! ## What has been entered and what is left -/

theorem templatesIn_eq {place : Place}
    (located : walk.tree.placeOf (root.descend names) = .ok place) :
    walk.templatesIn (root.descend names) =
      (walk.entriesIn names place).flatMap (walk.keptAt root) := by
  unfold templatesIn listed entriesIn
  rw [located, List.flatMap_map]
  rfl

theorem eq_of_mem_keptAt {entry : Entry} {path : Path} (member : path ∈ walk.keptAt root entry) :
    path = root.descend (entry.1 ++ [entry.2]) := by
  rcases mem_listedAt.mp member with ⟨_, ⟨_, _, below⟩ | ⟨_, _, equal⟩⟩
  · cases below
  · rw [Path.descend_concat, equal]

/-- Templates that stand in different folders have different paths, and so have those that
stand in one folder. -/
theorem nodup_templates (listed : walk.tree.IsListed) (meets : walk.MeetsAll)
    {folders : List (List Text)} (nodup : folders.Nodup)
    (passes : ∀ names ∈ folders, walk.Passes root names) :
    (folders.flatMap fun names => walk.templatesIn (root.descend names)).Nodup := by
  -- A template is kept at one entry only.
  have apart {one other : List Text} {place placeOther : Place} {entry entryOther : Entry}
      {path : Path} (first : one ∈ folders) (second : other ∈ folders)
      (located : walk.tree.placeOf (root.descend one) = .ok place)
      (locatedOther : walk.tree.placeOf (root.descend other) = .ok placeOther)
      (met : entry ∈ walk.entriesIn one place)
      (metOther : entryOther ∈ walk.entriesIn other placeOther)
      (kept : path ∈ walk.keptAt root entry) (keptOther : path ∈ walk.keptAt root entryOther) :
      entry = entryOther := by
    have same := (eq_of_mem_keptAt kept).symm.trans (eq_of_mem_keptAt keptOther)
    rcases mem_entriesIn.mp met with ⟨rfl, inFolder⟩
    rcases mem_entriesIn.mp metOther with ⟨rfl, inOther⟩
    exact (passes _ first).entry_inj listed meets (passes _ second) ⟨_, located, inFolder⟩
      ⟨_, locatedOther, inOther⟩ same
  rw [List.nodup_flatMap]
  constructor
  · intro names member
    rcases isFolder_iff.mp (passes names member).isFolder with ⟨place, located, _⟩
    rw [templatesIn_eq located, List.nodup_flatMap]
    refine ⟨fun entry _ => nodup_listedAt fun _ _ _ => List.nodup_nil, ?_⟩
    have distinct := meets.nodup_of_distinct listed.distinct place
    refine (nodup_entriesIn distinct).imp_of_mem ?_
    intro one other first second different path inOne inOther
    exact different (apart member member located located first second inOne inOther)
  · refine nodup.imp_of_mem ?_
    intro one other first second different path inOne inOther
    rcases isFolder_iff.mp (passes one first).isFolder with ⟨place, located, _⟩
    rcases isFolder_iff.mp (passes other second).isFolder with ⟨placeOther, locatedOther, _⟩
    dsimp only at inOne inOther
    rw [templatesIn_eq located, List.mem_flatMap] at inOne
    rw [templatesIn_eq locatedOther, List.mem_flatMap] at inOther
    rcases inOne with ⟨entry, met, kept⟩
    rcases inOther with ⟨entryOther, metOther, keptOther⟩
    have same := apart first second located locatedOther met metOther kept keptOther
    rw [same] at met
    exact different ((mem_entriesIn.mp met).1.symm.trans (mem_entriesIn.mp metOther).1)

theorem keptAt_of_goesInto (goes : walk.goesInto (root.descend names) name = true) :
    walk.keptAt root (names, name) = [] := by
  unfold keptAt listedAt
  dsimp only
  rw [if_pos (isFolder_of_goesInto goes), listed, ite_self, ite_self]

/-- The folders that have been entered are entered rightly, each at a place of its own, and
what they hold has been looked at or is left. -/
structure Survey (walk : Walk) (root : Path) (folders : List (List Text)) (entries : List Entry)
    (progress : Progress) : Prop where
  start : [] ∈ folders
  passes : ∀ names ∈ folders, walk.Passes root names
  above : ∀ names name, names ++ [name] ∈ folders -> names ∈ folders
  placed : (folders.map fun names => walk.tree.placeOf (root.descend names)) =
    progress.entered.map .ok
  apart : progress.entered.Nodup
  waiting : ∀ entry ∈ entries, entry.1 ∈ folders ∧ walk.Meets root entry.1 entry.2
  unmet : ∀ entry ∈ entries, entry.1 ++ [entry.2] ∉ folders
  once : entries.Nodup
  complete : ∀ names ∈ folders, ∀ name, walk.Meets root names name ->
    walk.goesInto (root.descend names) name = true ->
      names ++ [name] ∈ folders ∨ (names, name) ∈ entries
  found : (progress.found ++ entries.flatMap (walk.keptAt root)).Perm
    (folders.flatMap fun names => walk.templatesIn (root.descend names))

namespace Survey

variable {folders : List (List Text)} {entry : Entry} {entries inside rest : List Entry}
variable {next after : Progress}

/-- After the root has been entered its names are left. -/
theorem ofRoot (nodup : ∀ place, (walk.namesIn place).Nodup)
    (folder : walk.tree.isFolder root = true)
    (entered : walk.enter root [] {} = .ok (inside, next)) :
    walk.Survey root [[]] inside next := by
  rcases enter_eq_ok_iff.mp entered with ⟨place, located, _, equal, equalNext⟩
  subst equal equalNext
  exact {
    start := List.mem_singleton_self _
    passes := by
      intro names member
      rw [List.mem_singleton.mp member]
      exact .start folder
    above := by
      intro names name member
      simp at member
    placed := by rw [List.map_singleton, List.map_singleton, located]
    apart := List.nodup_singleton _
    waiting := by
      intro entry member
      rcases mem_entriesIn.mp member with ⟨same, listed⟩
      rw [same]
      exact ⟨List.mem_singleton_self _, place, located, listed⟩
    unmet := by
      intro entry _ member
      simp at member
    once := nodup_entriesIn (nodup place)
    complete := by
      intro names member name met _
      cases List.mem_singleton.mp member
      rcases met with ⟨other, locatedOther, listed⟩
      cases located.symm.trans locatedOther
      exact Or.inr (mem_entriesIn.mpr ⟨rfl, listed⟩)
    found := by
      rw [List.flatMap_singleton, templatesIn_eq located]
      exact List.Perm.rfl }

/-- An entry that is no folder to go on in has been looked at. -/
theorem passBy (survey : walk.Survey root folders (entry :: rest) progress)
    (stays : ¬ walk.goesInto (root.descend entry.1) entry.2 = true) :
    walk.Survey root folders rest
      { progress with found := walk.keptAt root entry ++ progress.found } where
  start := survey.start
  passes := survey.passes
  above := survey.above
  placed := survey.placed
  apart := survey.apart
  waiting := (List.forall_mem_cons.mp survey.waiting).2
  unmet := (List.forall_mem_cons.mp survey.unmet).2
  once := (List.nodup_cons.mp survey.once).2
  complete := by
    intro names member name met goes
    rcases survey.complete names member name met goes with inFolders | left
    · exact Or.inl inFolders
    · rcases List.mem_cons.mp left with same | behind
      · subst same
        exact absurd goes stays
      · exact Or.inr behind
  found := by
    refine List.Perm.trans ?_ survey.found
    rw [List.flatMap_cons, ← List.append_assoc]
    exact List.perm_append_comm.append_right _

theorem passes_below (survey : walk.Survey root folders (entry :: rest) progress)
    (goes : walk.goesInto (root.descend entry.1) entry.2 = true) :
    walk.Passes root (entry.1 ++ [entry.2]) := by
  have waiting := survey.waiting entry List.mem_cons_self
  exact .onward (survey.passes _ waiting.1) waiting.2 goes

/-- A folder is entered, and its names are left. -/
theorem enter (survey : walk.Survey root folders (entry :: rest) progress)
    (nodup : ∀ place, (walk.namesIn place).Nodup)
    (goes : walk.goesInto (root.descend entry.1) entry.2 = true)
    (entered : walk.enter root (entry.1 ++ [entry.2]) progress = .ok (inside, next)) :
    walk.Survey root ((entry.1 ++ [entry.2]) :: folders) (inside ++ rest) next := by
  rcases enter_eq_ok_iff.mp entered with ⟨place, located, fresh, equal, equalNext⟩
  subst equal equalNext
  have waiting := List.forall_mem_cons.mp survey.waiting
  have unmet := List.forall_mem_cons.mp survey.unmet
  have once := List.nodup_cons.mp survey.once
  exact {
    start := List.mem_cons_of_mem _ survey.start
    passes := List.forall_mem_cons.mpr ⟨survey.passes_below goes, survey.passes⟩
    above := by
      intro names name member
      rcases List.mem_cons.mp member with same | old
      · rw [(List.append_inj' same rfl).1]
        exact List.mem_cons_of_mem _ waiting.1.1
      · exact List.mem_cons_of_mem _ (survey.above names name old)
    placed := by rw [List.map_cons, List.map_cons, survey.placed, located]
    apart := List.nodup_cons.mpr ⟨fresh, survey.apart⟩
    waiting := by
      refine List.forall_mem_append.mpr ⟨fun other member => ?_, fun other member => ?_⟩
      · rcases mem_entriesIn.mp member with ⟨same, listed⟩
        rw [same]
        exact ⟨List.mem_cons_self, place, located, listed⟩
      · have old := waiting.2 other member
        exact ⟨List.mem_cons_of_mem _ old.1, old.2⟩
    unmet := by
      refine List.forall_mem_append.mpr ⟨fun other member below => ?_, fun other member below => ?_⟩
      -- Nothing below the new folder has been entered, as what is above would have been too.
      · rw [(mem_entriesIn.mp member).1] at below
        rcases List.mem_cons.mp below with itself | old
        · simp at itself
        · exact unmet.1 (survey.above _ _ old)
      · rcases List.mem_cons.mp below with same | old
        · have both := List.append_inj' same rfl
          have equal : other = entry := Prod.ext both.1 (List.singleton_inj.mp both.2)
          exact once.1 (equal ▸ member)
        · exact unmet.2 other member old
    once := by
      refine List.nodup_append.mpr ⟨nodup_entriesIn (nodup place), once.2, ?_⟩
      rintro one inOne other inOther rfl
      have old := (waiting.2 _ inOther).1
      rw [(mem_entriesIn.mp inOne).1] at old
      exact unmet.1 old
    complete := by
      intro names member name met goesOn
      rcases List.mem_cons.mp member with same | old
      · subst same
        rcases met with ⟨other, locatedOther, listed⟩
        cases located.symm.trans locatedOther
        exact Or.inr (List.mem_append_left _ (mem_entriesIn.mpr ⟨rfl, listed⟩))
      · rcases survey.complete names old name met goesOn with inFolders | left
        · exact Or.inl (List.mem_cons_of_mem _ inFolders)
        · rcases List.mem_cons.mp left with same | behind
          · subst same
            exact Or.inl List.mem_cons_self
          · exact Or.inr (List.mem_append_right _ behind)
    found := by
      have found := survey.found
      rw [List.flatMap_cons, keptAt_of_goesInto goes, List.nil_append] at found
      rw [List.flatMap_append, List.flatMap_cons, ← templatesIn_eq located, ← List.append_assoc]
      refine (List.perm_append_comm.append_right _).trans ?_
      rw [List.append_assoc]
      exact found.append_left _ }

/-- Where no folder can be entered, its place has been entered under another path. -/
theorem exists_repeats (survey : walk.Survey root folders (entry :: rest) progress)
    (listed : walk.tree.IsListed) (meets : walk.MeetsAll) {failure : Failure}
    (goes : walk.goesInto (root.descend entry.1) entry.2 = true)
    (fault : walk.enter root (entry.1 ++ [entry.2]) progress = .error failure) :
    failure = .symlinkCycle (root.descend (entry.1 ++ [entry.2])) ∧
      ∃ other, walk.Repeats root (entry.1 ++ [entry.2]) other := by
  have passes := survey.passes_below goes
  rcases exists_entered_of_enter passes.isFolder fault with ⟨cycle, place, member, located⟩
  have inEntered := List.mem_map_of_mem (f := Except.ok (ε := StorageFault)) member
  rw [← survey.placed] at inEntered
  rcases List.mem_map.mp inEntered with ⟨other, inFolders, placed⟩
  have passesOther := survey.passes other inFolders
  refine ⟨cycle, other, passes, passesOther, ?_, located.trans placed.symm⟩
  rw [← Bool.not_eq_true, passes.same_iff listed meets passesOther]
  intro same
  exact survey.unmet entry List.mem_cons_self (same ▸ inFolders)

/-- When nothing is left, everything that the walk passes through has been entered. -/
theorem mem_iff (survey : walk.Survey root folders [] progress) :
    names ∈ folders ↔ walk.Passes root names := by
  refine ⟨survey.passes names, fun passes => ?_⟩
  induction passes with
  | start _ => exact survey.start
  | onward _ met goes inductionHypothesis =>
      rcases survey.complete _ inductionHypothesis _ met goes with inFolders | left
      · exact inFolders
      · cases left

theorem nodup_places (survey : walk.Survey root folders entries progress) :
    (folders.map fun names => walk.tree.placeOf (root.descend names)).Nodup := by
  rw [survey.placed]
  exact survey.apart.map fun _ _ => Except.ok.inj

theorem not_repeats (survey : walk.Survey root folders [] progress) {one other : List Text} :
    ¬ walk.Repeats root one other := by
  intro repeats
  have same := List.inj_on_of_nodup_map survey.nodup_places (survey.mem_iff.mpr repeats.first)
    (survey.mem_iff.mpr repeats.second) repeats.together
  have different := repeats.different
  rw [same, Path.same_self] at different
  cases different

end Survey

/-- A walk that has been surveyed so far meets a folder again, or all of it is surveyed. -/
theorem Ends.survey {folders : List (List Text)} {entries : List Entry}
    {outcome : Except Failure Progress} (ends : walk.Ends root entries progress outcome)
    (listed : walk.tree.IsListed) (meets : walk.MeetsAll)
    (survey : walk.Survey root folders entries progress) :
    (∃ one other, outcome = .error (.symlinkCycle (root.descend one)) ∧
        walk.Repeats root one other) ∨
      ∃ after all, outcome = .ok after ∧ walk.Survey root all [] after := by
  induction ends generalizing folders with
  | done => exact Or.inr ⟨_, folders, rfl, survey⟩
  | @fails entry rest progress failure fault =>
      unfold step at fault
      split at fault
      · rename_i goes
        rcases survey.exists_repeats listed meets goes fault with ⟨cycle, other, repeats⟩
        exact Or.inl ⟨_, other, congrArg _ cycle, repeats⟩
      · cases fault
  | @goesOn entry rest inside progress next outcome stepped behind inductionHypothesis =>
      unfold step at stepped
      split at stepped
      · rename_i goes
        have distinct := meets.nodup_of_distinct listed.distinct
        exact inductionHypothesis (survey.enter distinct goes stepped)
      · rename_i stays
        cases stepped
        exact inductionHypothesis (survey.passBy stays)

/-! ## How the walk ends -/

/-- The folders that the walk passes through are entered, each at a place of its own, and
what is found are the templates of each, once. -/
structure EntersOnce (walk : Walk) (root : Path) (folders : List (List Text))
    (after : Progress) : Prop where
  mem_iff : ∀ names, names ∈ folders ↔ walk.Passes root names
  placed : (folders.map fun names => walk.tree.placeOf (root.descend names)) =
    after.entered.map .ok
  apart : after.entered.Nodup
  found : after.found.Perm (folders.flatMap fun names => walk.templatesIn (root.descend names))
  single : after.found.Nodup

section Finishing

variable (listed : walk.tree.IsListed) (meets : walk.MeetsAll)
include listed meets

theorem Survey.entersOnce {folders : List (List Text)}
    (survey : walk.Survey root folders [] progress) : walk.EntersOnce root folders progress := by
  have found := survey.found
  rw [List.flatMap_nil, List.append_nil] at found
  have nodup := survey.nodup_places.of_map
  exact ⟨fun _ => survey.mem_iff, survey.placed, survey.apart, found,
    found.nodup_iff.mpr (nodup_templates listed meets nodup survey.passes)⟩

/-- The walk ends by meeting a folder again, or it enters every folder once and there is none
to be met again. -/
theorem Finishes.repeats_or_entersOnce {outcome : Except Failure Progress}
    (finishes : walk.Finishes root outcome) :
    (∃ one other, outcome = .error (.symlinkCycle (root.descend one)) ∧
        walk.Repeats root one other) ∨
      ∃ after folders, outcome = .ok after ∧ walk.EntersOnce root folders after ∧
        ∀ one other, ¬ walk.Repeats root one other := by
  cases finishes with
  | nothing none =>
      have unpassed (names : List Text) : ¬ walk.Passes root names := by
        intro passes
        induction passes with
        | start folder =>
            rw [none] at folder
            cases folder
        | onward _ _ _ inductionHypothesis => exact inductionHypothesis
      refine Or.inr ⟨{}, [], rfl, ?_, fun one _ repeats => unpassed one repeats.first⟩
      refine ⟨fun names => ?_, rfl, List.nodup_nil, List.Perm.rfl, List.nodup_nil⟩
      exact iff_of_false List.not_mem_nil (unpassed names)
  | ends folder behind =>
      cases behind with
      | fails fault =>
          have here : walk.tree.isFolder (root.descend []) = true := folder
          rcases exists_entered_of_enter here fault with ⟨_, place, member, _⟩
          cases member
      | goesOn entered behind =>
          have survey := Survey.ofRoot (meets.nodup_of_distinct listed.distinct) folder entered
          rcases behind.survey listed meets survey with cycle | ⟨after, folders, ended, survey⟩
          · exact Or.inl cycle
          · exact Or.inr ⟨after, folders, ended, survey.entersOnce listed meets,
              fun _ _ => survey.not_repeats⟩

/-- The walk always ends.  It fails exactly if two different paths that it passes through lead
to one folder, in whatever order it meets them, and otherwise each folder is entered once. -/
theorem collect_finishes (isIncluded : Path -> Bool) (root : Path) :
    (∃ outcome, walk.Finishes root outcome ∧
      walk.templates root = outcome.map Progress.found) ∧
    ((∃ path, walk.collect isIncluded root = .error (.symlinkCycle path)) ↔
      ∃ one other, walk.Repeats root one other) ∧
    ((∀ one other, ¬ walk.Repeats root one other) ->
      ∃ after folders entries, walk.Finishes root (.ok after) ∧
        walk.EntersOnce root folders after ∧ walk.collect isIncluded root = .ok entries ∧
        (entries.map TemplateEntry.path).Perm (after.found.filter isIncluded)) := by
  rcases exists_finishes walk root with ⟨outcome, finishes, equal⟩
  refine ⟨⟨outcome, finishes, equal⟩, ?_⟩
  rcases finishes.repeats_or_entersOnce listed meets with
    ⟨one, other, failed, repeats⟩ | ⟨after, folders, ended, once, apart⟩
  · subst failed
    have collected : walk.collect isIncluded root =
        .error (.symlinkCycle (root.descend one)) := by
      rw [collect, equal]
      rfl
    exact ⟨iff_of_true ⟨_, collected⟩ ⟨one, other, repeats⟩,
      fun none => absurd repeats (none one other)⟩
  · subst ended
    have collected : walk.collect isIncluded root =
        .ok (((after.found.mergeSort fun left right => !right.precedes left).filter
          isIncluded).map fun path => ⟨path, relativeText walk.stray root path⟩) := by
      rw [collect, equal]
      rfl
    constructor
    · refine iff_of_false ?_ fun ⟨one, other, repeats⟩ => apart one other repeats
      rintro ⟨path, failed⟩
      cases collected.symm.trans failed
    · intro _
      refine ⟨after, folders, _, finishes, once, collected, ?_⟩
      rw [List.map_map]
      refine (List.Perm.of_eq (List.map_id _)).trans ?_
      exact (List.mergeSort_perm _ _).filter _

end Finishing

end Walk

/-- A site in which `blog` is a link. -/
def linkedSite (target : Text) : FileTree where
  items := [
    (["site".toList], .folder),
    (["site".toList, "blog".toList], .link target),
    (["pages".toList], .folder),
    (["pages".toList, "about.html".toList], .file [])]
  workingFolder := []

/-- Its folders are listed backwards, and nothing is left out. -/
def linkedWalk (target : Text) : Walk where
  tree := linkedSite target
  namesIn := fun place => ((linkedSite target).namesIn place).reverse
  ignores := fun _ _ => false
  skippedFolders := []

/-- A link to the site itself is met again.  Another one leads to a folder outside. -/
theorem Walk.collect_finishes_linked :
    let root : Path := ⟨"site".toList⟩
    let entry : TemplateEntry := ⟨⟨"site/blog/about.html".toList⟩, "blog/about.html".toList⟩
    (∃ one other, (linkedWalk ".".toList).Repeats root one other) ∧
      (linkedWalk "../pages".toList).collect (fun _ => true) root = .ok [entry] ∧
      ∃ after folders, (linkedWalk "../pages".toList).Finishes root (.ok after) ∧
        (linkedWalk "../pages".toList).EntersOnce root folders after := by
  intro root entry
  have listed (target : Text) : (linkedWalk target).tree.IsListed := by
    have names : (linkedWalk target).tree.items.map Prod.fst =
        (linkedWalk []).tree.items.map Prod.fst := rfl
    constructor
    · rw [names]
      decide +kernel
    · rw [← List.forall_mem_map (P := AreNames), names]
      decide +kernel
  have meets (target : Text) : (linkedWalk target).MeetsAll :=
    fun place => List.reverse_perm ((linkedSite target).namesIn place)
  have loops := Walk.collect_finishes (listed ".".toList) (meets _) (fun _ => true) root
  have ends := Walk.collect_finishes (listed "../pages".toList) (meets _) (fun _ => true) root
  have collected : (linkedWalk "../pages".toList).collect (fun _ => true) root = .ok [entry] := by
    decide +kernel
  have single (one other : List Text) :
      ¬ (linkedWalk "../pages".toList).Repeats root one other := by
    intro repeats
    rcases ends.2.1.mpr ⟨one, other, repeats⟩ with ⟨path, failed⟩
    rw [collected] at failed
    cases failed
  rcases ends.2.2 single with ⟨after, folders, _, finishes, once, _⟩
  refine ⟨loops.2.1.mp ⟨⟨"site/blog".toList⟩, by decide +kernel⟩, collected, ?_⟩
  exact ⟨after, folders, finishes, once⟩

end PageComposer
