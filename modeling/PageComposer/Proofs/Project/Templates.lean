import PageComposer.Proofs.Project.Walking

namespace PageComposer

/-!
# Where templates are found

The walk from a root passes by the target folder if it meets it under a path
with the same parts (`Avoided`).  So whatever it finds stands in a folder
outside of the target (`mem_listed`), and so does every template that is
collected (`mem_collect`).
-/

open FileTree

/-! ## Nested projects -/

/-- The folders that lead from the root of a project to its configuration, and the name of
that. -/
def Config.candidateNames : List (List Text × Text) :=
  [([], "protostar.toml".toList), ([], ".protostar.toml".toList),
    ([".config".toList], "protostar.toml".toList)]

theorem Config.candidates_eq :
    Config.candidates = candidateNames.map fun entry =>
      ⟨Text.joinWith ['/'] (entry.1 ++ [entry.2])⟩ := by
  decide

theorem Config.areNames_candidate :
    ∀ entry ∈ candidateNames, AreNames (entry.1 ++ [entry.2]) := by
  decide

/-- A folder is the root of a project if one of the candidates is a file. -/
theorem Config.findFile?_isSome_iff {tree : FileTree} {base : Path} :
    (Config.findFile? tree base).isSome = true ↔ ∃ entry ∈ candidateNames,
      tree.isFile (base.join ⟨Text.joinWith ['/'] (entry.1 ++ [entry.2])⟩) = true := by
  unfold Config.findFile?
  rw [List.find?_isSome, candidates_eq]
  simp

/-! ## Walks that keep out of a folder -/

/-- The walk of a tree that is listed in order. -/
def walkOver (tree : FileTree) (ignores : Path -> Bool -> Bool) (skipped : List Path) : Walk where
  tree := tree
  namesIn := tree.namesIn
  ignores := ignores
  skippedFolders := skipped

/-- The target is not above the root, and where the walk meets it, it is passed
by. -/
structure Avoided (root : Path) (rootPlace target : Place) (skipped : List Path) : Prop where
  outside : ¬ target <+: rootPlace
  passed : ∀ below, AreNames below -> target = rootPlace ++ below ->
    skipped.any (root.descend below).same = true

/-- A template in a folder below the root and outside of the target. -/
structure IsFound (tree : FileTree) (root : Path) (rootPlace target : Place) (below : List Text)
    (name : Text) : Prop where
  leads : tree.LeadsTo (root.descend below) (rootPlace ++ below)
  outside : ¬ target <+: rootPlace ++ below
  there : tree.itemAt? (rootPlace ++ below ++ [name]) ≠ none
  looked : isPassedName .none name = false
  template : isTemplate (root.descend (below ++ [name])) = true

variable {tree : FileTree} {root : Path} {rootPlace target : Place} {skipped : List Path}
variable {ignores : Path -> Bool -> Bool}

theorem walkOver_meetsAll : (walkOver tree ignores skipped).MeetsAll :=
  fun _ => List.Perm.rfl

/-- A folder that the walk enters is outside of the target if the folder that it
stands in is. -/
theorem Avoided.outside_of_enters (avoided : Avoided root rootPlace target skipped)
    {below : List Text} {name : Text} (named : AreNames (below ++ [name]))
    (outside : ¬ target <+: rootPlace ++ below)
    (enters : (walkOver tree ignores skipped).enters (root.descend (below ++ [name])) = true) :
    ¬ target <+: rootPlace ++ (below ++ [name]) := by
  intro leading
  rw [← List.append_assoc, List.prefix_concat_iff] at leading
  rcases leading with here | above
  · have passed := avoided.passed (below ++ [name]) named (by rw [here, List.append_assoc])
    unfold Walk.enters walkOver at enters
    rw [Bool.and_eq_true, passed] at enters
    exact absurd enters.1 (by decide)
  · exact outside above

theorem areNames_below (plain : tree.IsPlain) {below : List Text} {name : Text}
    (there : tree.itemAt? (rootPlace ++ below ++ [name]) ≠ none) : AreNames (below ++ [name]) := by
  rw [List.append_assoc] at there
  exact (plain.areNames there).of_append.2

theorem mem_listed (plain : tree.IsPlain) (avoided : Avoided root rootPlace target skipped)
    {depth : Nat} {below : List Text}
    (leads : tree.LeadsTo (root.descend below) (rootPlace ++ below))
    (outside : ¬ target <+: rootPlace ++ below) {path : Path}
    (member : path ∈ (walkOver tree ignores skipped).listed depth (root.descend below)) :
    ∃ inner name, path = root.descend (inner ++ [name]) ∧
      IsFound tree root rootPlace target inner name := by
  induction depth generalizing below with
  | zero => cases member
  | succ depth inductionHypothesis =>
      rw [Walk.listed] at member
      split at member
      · cases member
      · rename_i place located
        rw [leads.eq_of_placeOf plain located] at member
        rcases List.mem_flatMap.mp member with ⟨name, inFolder, within⟩
        have there : tree.itemAt? (rootPlace ++ below ++ [name]) ≠ none := mem_namesIn.mp inFolder
        have named := (plain.parent there).2
        rcases Walk.mem_listedAt.mp within with
          ⟨looks, ⟨folder, enters, listed⟩ | ⟨_, template, equal⟩⟩
        · have both := (isFolder_join_iff plain leads named).mp folder
          have onward := leads.join plain both.2 both.1.2
          rw [← Path.descend_concat, List.append_assoc] at onward
          rw [← Path.descend_concat] at enters listed
          exact inductionHypothesis onward
            (avoided.outside_of_enters (areNames_below plain there) outside enters) listed
        · have looked : isPassedName .none name = false := by
            unfold Walk.looksAt at looks
            rw [Bool.and_eq_true, Bool.not_eq_true'] at looks
            exact looks.1
          rw [← Path.descend_concat] at template equal
          exact ⟨below, name, equal, leads, outside, there, looked, template⟩

/-- What a walk collects was found outside of the target. -/
theorem mem_collect (plain : tree.IsPlain) (avoided : Avoided root rootPlace target skipped)
    (leads : tree.LeadsTo root rootPlace) (fits : Text.byteSize root.text ≤ maxPathSize)
    {isIncluded : Path -> Bool} {templates : List TemplateEntry}
    (collected : (walkOver tree ignores skipped).collect isIncluded root = .ok templates)
    {entry : TemplateEntry} (member : entry ∈ templates) :
    ∃ below name, entry = ⟨root.descend (below ++ [name]),
        relativeText .none root (root.descend (below ++ [name]))⟩ ∧
      IsFound tree root rootPlace target below name := by
  rcases bind_eq_ok_iff.mp collected with ⟨found, walked, finished⟩
  cases finished
  rcases List.mem_map.mp member with ⟨path, included, equal⟩
  have inFound := List.mem_mergeSort.mp (List.mem_filter.mp included).1
  rw [@Walk.templates_eq (walkOver tree ignores skipped) _ _ plain walkOver_meetsAll leads fits]
    at walked
  cases walked
  have leadsOn : tree.LeadsTo (root.descend []) (rootPlace ++ []) := by
    rwa [List.append_nil]
  rcases mem_listed plain avoided leadsOn (by rw [List.append_nil]; exact avoided.outside)
    (List.mem_reverse.mp inFound) with ⟨below, name, same, isFound⟩
  refine ⟨below, name, ?_, isFound⟩
  rw [← equal, same]
  rfl

/-- Where everything is included, as many templates are collected as are found. -/
theorem length_collect {walk : Walk} {isIncluded : Path -> Bool}
    (all : ∀ path, isIncluded path = true) {found : List Path}
    (walked : walk.templates root = .ok found) {templates : List TemplateEntry}
    (collected : walk.collect isIncluded root = .ok templates) :
    templates.length = found.length := by
  unfold Walk.collect at collected
  rw [walked] at collected
  rw [← Except.ok.inj collected, List.length_map, List.filter_eq_self.mpr (fun path _ => all path),
    List.length_mergeSort]

/-- Nothing is collected where no folder is. -/
theorem collect_of_not_folder (notFolder : ¬ tree.isFolder root = true)
    (isIncluded : Path -> Bool) :
    (walkOver tree ignores skipped).collect isIncluded root = .ok [] := by
  have none : (walkOver tree ignores skipped).templates root = .ok [] := if_neg notFolder
  unfold Walk.collect
  rw [none]
  change Except.ok _ = Except.ok _
  rw [List.mergeSort_nil]
  rfl

end PageComposer
