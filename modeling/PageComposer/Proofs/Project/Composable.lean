import PageComposer.Proofs.Path.Order
import PageComposer.Proofs.Path.Selection
import PageComposer.Proofs.Project.Templates

namespace PageComposer

/-!
# Which templates are collected

A template is collected if it is a page of its own, if no rule leaves it out, and if the
walk enters every folder between it and the root (`Selection.Composes`).  The root itself is
not tested, and neither is anything above it.  The rules are arbitrary here, and so is the
order in which the names of a folder are met.

The walk looks at a folder under its path, and the system takes no path that is too long.  A
folder whose path is too long is not seen to be one, and what is below it is not collected.
So `Selection.collect_composes` is about trees in which the walk can look where it has to
(`Selection.Reaches`).  What it never looks at may be as deep as it likes.

A name that is no text is not looked at either.  It may start with anything.
-/

open FileTree

/-- Among the files below a folder is a configuration of its own. -/
def FileTree.HoldsConfig (tree : FileTree) (place : Place) : Prop :=
  ∃ entry ∈ Config.candidateNames, ∃ bytes,
    tree.itemAt? (place ++ (entry.1 ++ [entry.2])) = some (.file bytes)

section Statement

variable (selection : Selection) (tree : FileTree) (stray : Stray) (root : Path)
  (rootPlace : Place)

/-- The folder of this name is entered from the one that it stands in, unless it is a project
of its own. -/
structure Selection.Approaches (below : List Text) (name : Text) : Prop where
  unpassed : isPassedName stray name = false
  unignored : selection.ignores (root.descend (below ++ [name])) true = false
  unskipped : selection.skippedFolders.any (root.descend (below ++ [name])).same = false

/-- The folder of this name is entered from the one that it stands in. -/
structure Selection.Enters (below : List Text) (name : Text) : Prop where
  approaches : selection.Approaches stray root below name
  unnested : ¬ tree.HoldsConfig (rootPlace ++ (below ++ [name]))

/-- All folders on the way down from the root are entered. -/
def Selection.ComesTo (below : List Text) : Prop :=
  ∀ front folder, front ++ [folder] <+: below ->
    selection.Enters tree stray root rootPlace front folder

/-- What has this name is kept by the walk that meets it, if it is a file. -/
structure Selection.Takes (below : List Text) (name : Text) : Prop where
  markup : Path.extension? ⟨name⟩ = some "html".toList
  whole : stray.isText name = true -> ¬ ['_'] <+: name
  unpassed : isPassedName stray name = false
  unignored : selection.ignores (root.descend (below ++ [name])) false = false

/-- The file of this name is kept by the walk that meets it. -/
structure Selection.Keeps (below : List Text) (name : Text) : Prop where
  file : ∃ bytes, tree.itemAt? (rootPlace ++ (below ++ [name])) = some (.file bytes)
  takes : selection.Takes stray root below name

/-- The file of this name, so many folders below the root, is a template that is composed. -/
structure Selection.Composes (below : List Text) (name : Text) : Prop where
  keeps : selection.Keeps tree stray root rootPlace below name
  enters : selection.ComesTo tree stray root rootPlace below
  included : ∀ includes, selection.includes? = some includes ->
    includes ⟨Text.joinWith ['/'] (below ++ [name])⟩ = true

/-- The system takes the path that the names lead to from the root. -/
def Reachable (below : List Text) : Prop :=
  Text.byteSize (root.descend below).text ≤ maxPathSize ∧ AreShort below

/-- The system takes the paths that the walk has to see something under: those of folders that
it enters or, if they were files, would keep, and that of a configuration for every folder which
it only stays out of for that. -/
structure Selection.Reaches : Prop where
  folder : ∀ below name, selection.ComesTo tree stray root rootPlace below ->
    tree.itemAt? (rootPlace ++ (below ++ [name])) = some .folder ->
      selection.Enters tree stray root rootPlace below name ∨
        selection.Takes stray root below name ->
          Reachable root (below ++ [name])
  config : ∀ below name, selection.ComesTo tree stray root rootPlace below ->
    selection.Approaches stray root below name ->
      tree.HoldsConfig (rootPlace ++ (below ++ [name])) ->
        ∃ entry ∈ Config.candidateNames, ∃ bytes,
          tree.itemAt? (rootPlace ++ (below ++ [name]) ++ (entry.1 ++ [entry.2])) =
              some (.file bytes) ∧
            Reachable root (below ++ [name] ++ (entry.1 ++ [entry.2]))

/-- A walk through a plain tree sees what it has to, from a root that the system takes. -/
structure Selection.Sees : Prop where
  plain : tree.IsPlain
  leads : tree.LeadsTo root rootPlace
  fits : Text.byteSize root.text ≤ maxPathSize
  reaches : selection.Reaches tree stray root rootPlace

end Statement

instance (root : Path) (below : List Text) : Decidable (Reachable root below) :=
  inferInstanceAs (Decidable (_ ∧ ∀ name ∈ below, _))

section Ways

variable {selection : Selection} {tree : FileTree} {stray : Stray} {root : Path}
  {rootPlace : Place} {below : List Text} {name : Text}

theorem Selection.comesTo_nil : selection.ComesTo tree stray root rootPlace [] := by
  intro front folder leads
  simp at leads

theorem Selection.ComesTo.of_append {front inner : List Text}
    (comes : selection.ComesTo tree stray root rootPlace (front ++ inner)) :
    selection.ComesTo tree stray root rootPlace front :=
  fun before folder leads => comes before folder (leads.trans (List.prefix_append front inner))

theorem Selection.comesTo_concat_iff :
    selection.ComesTo tree stray root rootPlace (below ++ [name]) ↔
      selection.ComesTo tree stray root rootPlace below ∧
        selection.Enters tree stray root rootPlace below name := by
  constructor
  · intro comes
    exact ⟨comes.of_append, comes below name (List.prefix_refl _)⟩
  · rintro ⟨comes, enters⟩ front folder leads
    rcases List.prefix_concat_iff.mp leads with whole | before
    · rcases List.append_inj' whole rfl with ⟨same, single⟩
      exact same ▸ List.singleton_inj.mp single ▸ enters
    · exact comes front folder before

/-- The walk can look where it has to if the system takes the path of whatever is listed below
the root. -/
theorem Selection.reaches_of_items
    (each : ∀ entry ∈ tree.items, rootPlace <+: entry.1 ->
      Reachable root (entry.1.drop rootPlace.length)) :
    selection.Reaches tree stray root rootPlace := by
  have within {below : List Text} (inside : below ≠ [])
      (there : tree.itemAt? (rootPlace ++ below) ≠ none) : Reachable root below := by
    have listed := (itemAt?_ne_none_iff (by simp [inside])).mp there
    rcases List.mem_map.mp listed with ⟨entry, member, equal⟩
    have reachable := each entry member (equal ▸ List.prefix_append rootPlace below)
    rwa [equal, List.drop_left] at reachable
  constructor
  · intro below name _ folder _
    exact within (by simp) (by rw [folder]; simp)
  · rintro below name _ _ ⟨entry, member, bytes, file⟩
    refine ⟨entry, member, bytes, file, ?_⟩
    rw [List.append_assoc] at file
    exact within (by simp) (by rw [file]; simp)

theorem Selection.Keeps.areNames (plain : tree.IsPlain)
    (keeps : selection.Keeps tree stray root rootPlace below name) :
    AreNames (below ++ [name]) := by
  rcases keeps.file with ⟨bytes, file⟩
  exact (plain.areNames (by rw [file]; simp : tree.itemAt? _ ≠ none)).of_append.2

end Ways

/-! ## What the walk sees -/

namespace Selection.Sees

variable {selection : Selection} {tree : FileTree} {stray : Stray}
variable {root : Path} {rootPlace : Place} {below : List Text} {name : Text}
variable (sees : selection.Sees tree stray root rootPlace)
include sees

section Folders

variable (comes : selection.ComesTo tree stray root rootPlace below)
include comes

/-- A folder that the walk comes to has a path that the system takes. -/
theorem reachable (folder : tree.itemAt? (rootPlace ++ below) = some .folder) :
    Reachable root below := by
  rcases List.eq_nil_or_concat below with empty | ⟨front, last, whole⟩
  · subst empty
    exact ⟨sees.fits, List.forall_mem_nil _⟩
  · rw [List.concat_eq_append] at whole
    subst whole
    have both := comesTo_concat_iff.mp comes
    exact sees.reaches.folder front last both.1 folder (Or.inl both.2)

theorem leadsTo_descend (folder : tree.itemAt? (rootPlace ++ below) = some .folder) :
    tree.LeadsTo (root.descend below) (rootPlace ++ below) :=
  sees.leads.descend sees.plain (sees.reachable comes folder).2 folder

/-- What the walk meets is seen to be a folder if it is one and the system takes its path. -/
theorem isFolder_descend_iff (there : tree.itemAt? (rootPlace ++ (below ++ [name])) ≠ none) :
    tree.isFolder (root.descend (below ++ [name])) = true ↔
      Reachable root (below ++ [name]) ∧
        tree.itemAt? (rootPlace ++ (below ++ [name])) = some .folder := by
  have parent := sees.plain.parent (List.append_assoc _ _ _ ▸ there)
  have above := sees.reachable comes parent.1
  have onward := sees.leadsTo_descend comes parent.1
  rw [Reachable, AreShort, List.forall_mem_append, List.forall_mem_singleton, Path.descend_concat,
    isFolder_join_iff sees.plain onward parent.2, List.append_assoc]
  constructor
  · exact fun seen => ⟨⟨seen.1.1, above.2, seen.1.2⟩, seen.2⟩
  · exact fun seen => ⟨⟨seen.1.1, seen.1.2.2⟩, seen.2⟩

/-- Among the folders that are entered but for that, those are seen to be projects of their own
that hold a configuration. -/
theorem isNestedProject_iff (namesIn : Place -> List Text)
    (approaches : selection.Approaches stray root below name)
    (reachable : Reachable root (below ++ [name]))
    (folder : tree.itemAt? (rootPlace ++ (below ++ [name])) = some .folder) :
    (selection.walk tree namesIn stray).isNestedProject (root.descend (below ++ [name])) = true ↔
      tree.HoldsConfig (rootPlace ++ (below ++ [name])) := by
  have onward := sees.leads.descend sees.plain reachable.2 folder
  have isFile (entry : List Text × Text) (member : entry ∈ Config.candidateNames) :=
    isFile_join_names_iff sees.plain onward (Config.areNames_candidate entry member) (by simp)
  unfold Walk.isNestedProject
  rw [Config.findFile?_isSome_iff]
  constructor
  · rintro ⟨entry, member, file⟩
    exact ⟨entry, member, ((isFile entry member).mp file).2.2⟩
  · intro holds
    rcases sees.reaches.config below name comes approaches holds with
      ⟨entry, member, bytes, item, within⟩
    rw [Reachable, Path.descend_append] at within
    refine ⟨entry, member, (isFile entry member).mpr ?_⟩
    rw [← Path.descend_eq_join _ (Config.areNames_candidate entry member) (by simp)]
    exact ⟨within.1, (List.forall_mem_append.mp within.2).2, bytes, item⟩

/-- A folder is entered if the walk looks at it, sees that it is one, and goes on in it. -/
theorem enters_iff (namesIn : Place -> List Text)
    (folder : tree.itemAt? (rootPlace ++ (below ++ [name])) = some .folder) :
    ((selection.walk tree namesIn stray).looksAt name (root.descend (below ++ [name])) = true ∧
        tree.isFolder (root.descend (below ++ [name])) = true ∧
        (selection.walk tree namesIn stray).enters (root.descend (below ++ [name])) = true) ↔
      selection.Enters tree stray root rootPlace below name := by
  have seen := sees.isFolder_descend_iff comes (by rw [folder]; simp)
  have nested := @isNestedProject_iff _ _ _ _ _ _ name sees comes namesIn
  unfold Walk.looksAt Walk.enters
  change (!isPassedName stray name && !selection.ignores _ (tree.isFolder _)) = true ∧ _ ∧
    (!selection.skippedFolders.any _ && !Walk.isNestedProject _ _) = true ↔ _
  rw [Bool.and_eq_true, Bool.and_eq_true, Bool.not_eq_true', Bool.not_eq_true',
    Bool.not_eq_true', Bool.not_eq_true', ← Bool.not_eq_true (Walk.isNestedProject _ _)]
  constructor
  · rintro ⟨⟨unpassed, unignored⟩, isFolder, unskipped, unnested⟩
    rw [isFolder] at unignored
    have approaches : selection.Approaches stray root below name :=
      ⟨unpassed, unignored, unskipped⟩
    exact ⟨approaches, mt (nested approaches (seen.mp isFolder).1 folder).mpr unnested⟩
  · rintro ⟨approaches, unnested⟩
    have reachable := sees.reaches.folder below name comes folder (Or.inl ⟨approaches, unnested⟩)
    have isFolder := seen.mpr ⟨reachable, folder⟩
    rw [isFolder]
    exact ⟨⟨approaches.unpassed, approaches.unignored⟩, rfl, approaches.unskipped,
      mt (nested approaches reachable folder).mp unnested⟩

end Folders

theorem isTemplate_descend_iff (named : AreNames (below ++ [name])) :
    isTemplate (root.descend (below ++ [name])) stray = true ↔
      Path.extension? ⟨name⟩ = some "html".toList ∧
        (stray.isText name = true -> ¬ ['_'] <+: name) := by
  have alone := Path.fileName?_name (named.of_append.2 name List.mem_cons_self)
  unfold isTemplate Path.extension?
  rw [Path.fileName?_descend sees.leads.nonempty named, alone, Bool.and_eq_true, beq_iff_eq,
    Bool.not_eq_true', ← Bool.not_eq_true, Option.any_some, Bool.and_eq_true, Text.startsWith,
    List.isPrefixOf_iff_prefix, not_and]

/-- What is not seen to be a folder is listed if its name is one of those that are taken. -/
theorem takes_iff (namesIn : Place -> List Text) (named : AreNames (below ++ [name]))
    (unseen : tree.isFolder (root.descend (below ++ [name])) = false) :
    ((selection.walk tree namesIn stray).looksAt name (root.descend (below ++ [name])) = true ∧
        isTemplate (root.descend (below ++ [name])) stray = true) ↔
      selection.Takes stray root below name := by
  unfold Walk.looksAt
  change (!isPassedName stray name && !selection.ignores _ (tree.isFolder _)) = true ∧ _ ↔ _
  rw [unseen, Bool.and_eq_true, Bool.not_eq_true', Bool.not_eq_true',
    sees.isTemplate_descend_iff named]
  constructor
  · rintro ⟨⟨unpassed, unignored⟩, markup, whole⟩
    exact ⟨markup, whole, unpassed, unignored⟩
  · exact fun takes => ⟨⟨takes.unpassed, takes.unignored⟩, takes.markup, takes.whole⟩

variable (comes : selection.ComesTo tree stray root rootPlace below)
include comes

/-- What stands in a folder is listed if it is a folder that is entered and what is below it
is listed, or if it is a file that is kept. -/
theorem mem_listedAt_iff {namesIn : Place -> List Text} {list : Path -> List Path} {path : Path}
    (there : tree.itemAt? (rootPlace ++ (below ++ [name])) ≠ none) :
    path ∈ (selection.walk tree namesIn stray).listedAt list (root.descend below) name ↔
      (tree.itemAt? (rootPlace ++ (below ++ [name])) = some .folder ∧
          selection.Enters tree stray root rootPlace below name ∧
          path ∈ list (root.descend (below ++ [name]))) ∨
        (selection.Keeps tree stray root rootPlace below name ∧
          path = root.descend (below ++ [name])) := by
  have seen := sees.isFolder_descend_iff comes there
  have takes := sees.takes_iff namesIn (sees.plain.areNames there).of_append.2
  rw [Walk.mem_listedAt, ← Path.descend_concat]
  change Walk.looksAt _ _ _ = true ∧ (tree.isFolder _ = true ∧ _ ∨ tree.isFolder _ = false ∧
    isTemplate _ stray = true ∧ _) ↔ _
  rcases Option.ne_none_iff_exists'.mp there with ⟨item, found⟩
  cases item with
  | link target => exact absurd found (sees.plain.not_link _ target)
  | folder =>
      have enters := sees.enters_iff comes namesIn found
      have notKept : ¬ selection.Keeps tree stray root rootPlace below name := by
        intro keeps
        rcases keeps.file with ⟨bytes, file⟩
        rw [found] at file
        cases file
      rw [← enters]
      constructor
      · rintro ⟨looks, ⟨isFolder, goesOn, listed⟩ | ⟨unseen, template, _⟩⟩
        · exact Or.inl ⟨found, ⟨looks, isFolder, goesOn⟩, listed⟩
        · -- A folder that would be kept as a file is seen to be one.
          have reachable := sees.reaches.folder below name comes found
            (Or.inr ((takes unseen).mp ⟨looks, template⟩))
          rw [seen.mpr ⟨reachable, found⟩] at unseen
          cases unseen
      · rintro (⟨_, ⟨looks, isFolder, goesOn⟩, listed⟩ | ⟨keeps, _⟩)
        · exact ⟨looks, Or.inl ⟨isFolder, goesOn, listed⟩⟩
        · exact absurd keeps notKept
  | file bytes =>
      have notFolder : tree.itemAt? (rootPlace ++ (below ++ [name])) ≠ some .folder := by
        rw [found]
        simp
      have unseen : tree.isFolder (root.descend (below ++ [name])) = false := by
        rw [Bool.eq_false_iff]
        exact fun isFolder => notFolder (seen.mp isFolder).2
      constructor
      · rintro ⟨looks, ⟨isFolder, _⟩ | ⟨_, template, equal⟩⟩
        · exact absurd (seen.mp isFolder).2 notFolder
        · exact Or.inr ⟨⟨⟨bytes, found⟩, (takes unseen).mp ⟨looks, template⟩⟩, equal⟩
      · rintro (⟨folder, _⟩ | ⟨keeps, equal⟩)
        · exact absurd folder notFolder
        · have both := (takes unseen).mpr keeps.takes
          exact ⟨both.1, Or.inr ⟨unseen, both.2, equal⟩⟩

end Selection.Sees

/-! ## What is listed -/

namespace Selection.Sees

variable {selection : Selection} {tree : FileTree} {stray : Stray} {namesIn : Place -> List Text}
variable {root : Path} {rootPlace : Place} {below : List Text}
variable (sees : selection.Sees tree stray root rootPlace)
  (meets : (selection.walk tree namesIn stray).MeetsAll)
  (comes : selection.ComesTo tree stray root rootPlace below)
include sees meets comes

theorem mem_listed_succ_iff {depth : Nat} {path : Path}
    (folder : tree.itemAt? (rootPlace ++ below) = some .folder) :
    path ∈ (selection.walk tree namesIn stray).listed (depth + 1) (root.descend below) ↔
      ∃ name, (tree.itemAt? (rootPlace ++ (below ++ [name])) = some .folder ∧
          selection.Enters tree stray root rootPlace below name ∧
          path ∈ (selection.walk tree namesIn stray).listed depth
            (root.descend (below ++ [name]))) ∨
        (selection.Keeps tree stray root rootPlace below name ∧
          path = root.descend (below ++ [name])) := by
  have located : (selection.walk tree namesIn stray).tree.placeOf (root.descend below) =
      .ok (rootPlace ++ below) :=
    placeOf_eq_ok_iff.mpr (find_of_leadsTo sees.plain (sees.leadsTo_descend comes folder)
      (by simp) (sees.reachable comes folder).1)
  rw [Walk.listed, located]
  dsimp only
  rw [List.mem_flatMap]
  apply exists_congr
  intro name
  rw [meets.mem_iff, List.append_assoc]
  constructor
  · rintro ⟨there, listed⟩
    exact (sees.mem_listedAt_iff comes there).mp listed
  · intro listed
    have there : tree.itemAt? (rootPlace ++ (below ++ [name])) ≠ none := by
      rcases listed with ⟨folder, _⟩ | ⟨keeps, _⟩
      · rw [folder]
        simp
      · rcases keeps.file with ⟨bytes, file⟩
        rw [file]
        simp
    exact ⟨there, (sees.mem_listedAt_iff comes there).mpr listed⟩

/-- A path is listed if it leads to a file that is kept, in a folder that the walk comes to. -/
theorem mem_listed_iff {depth : Nat} {path : Path}
    (folder : tree.itemAt? (rootPlace ++ below) = some .folder)
    (enough : tree.items.length < depth + (rootPlace ++ below).length) :
    path ∈ (selection.walk tree namesIn stray).listed depth (root.descend below) ↔
      ∃ inner name, path = root.descend (below ++ (inner ++ [name])) ∧
        selection.Keeps tree stray root rootPlace (below ++ inner) name ∧
        selection.ComesTo tree stray root rootPlace (below ++ inner) := by
  induction depth generalizing below with
  | zero =>
      have bound := length_place_le sees.plain (by rw [folder]; simp : tree.itemAt? _ ≠ none)
      omega
  | succ depth inductionHypothesis =>
      rw [sees.mem_listed_succ_iff meets comes folder]
      have deeper (name : Text) :
          tree.items.length < depth + (rootPlace ++ (below ++ [name])).length := by
        simp only [List.length_append, List.length_singleton] at enough ⊢
        omega
      have regroup (name : Text) (names : List Text) :
          below ++ name :: names = below ++ [name] ++ names := by simp
      constructor
      · rintro ⟨name, ⟨inside, enters, listed⟩ | ⟨keeps, equal⟩⟩
        · have onward := comesTo_concat_iff.mpr ⟨comes, enters⟩
          rcases (inductionHypothesis onward inside (deeper name)).mp listed with
            ⟨inner, last, equal, keeps, further⟩
          rw [← regroup] at equal keeps further
          exact ⟨name :: inner, last, equal, keeps, further⟩
        · rw [← List.append_nil below] at keeps comes
          exact ⟨[], name, equal, keeps, comes⟩
      · rintro ⟨inner, last, equal, keeps, further⟩
        cases inner with
        | nil =>
            rw [List.append_nil] at keeps
            exact ⟨last, Or.inr ⟨keeps, equal⟩⟩
        | cons name others =>
            rw [regroup] at keeps further
            rw [List.cons_append, regroup] at equal
            have onward := further.of_append
            have inside : tree.itemAt? (rootPlace ++ (below ++ [name])) = some .folder := by
              rcases keeps.file with ⟨bytes, file⟩
              rw [List.append_assoc _ others, ← List.append_assoc] at file
              have nonempty : others ++ [last] ≠ [] := by simp
              exact sees.plain.folder_front nonempty (by rw [file]; simp)
            have listed := (inductionHypothesis onward inside (deeper name)).mpr
              ⟨others, last, equal, keeps, further⟩
            exact ⟨name, Or.inl ⟨inside, (comesTo_concat_iff.mp onward).2, listed⟩⟩

/-- Paths that are listed are spelled alike if they lead through the same parts. -/
theorem eq_of_mem_listed {depth : Nat} (folder : tree.itemAt? (rootPlace ++ below) = some .folder)
    (enough : tree.items.length < depth + (rootPlace ++ below).length) {one other : Path}
    (first : one ∈ (selection.walk tree namesIn stray).listed depth (root.descend below))
    (second : other ∈ (selection.walk tree namesIn stray).listed depth (root.descend below))
    (same : one.parts = other.parts) : one = other := by
  have listed {path : Path} := @mem_listed_iff _ _ _ _ _ _ _ sees meets comes _ path folder enough
  rcases listed.mp first with ⟨inner, name, equal, keeps, _⟩
  rcases listed.mp second with ⟨inner', name', equal', keeps', _⟩
  have named := keeps.areNames sees.plain
  have named' := keeps'.areNames sees.plain
  rw [List.append_assoc] at named named'
  rw [equal, equal', Path.parts_descend sees.leads.nonempty named,
    Path.parts_descend sees.leads.nonempty named'] at same
  have injective := List.map_injective_iff.mpr fun _ _ => Part.name.inj
  rw [equal, equal', injective (List.append_cancel_left same)]

/-- What is listed for a name stands under it. -/
theorem parts_isPrefix_of_mem_listedAt {depth : Nat} {name : Text} {path : Path}
    (there : tree.itemAt? (rootPlace ++ (below ++ [name])) ≠ none)
    (enough : tree.items.length < depth + (rootPlace ++ (below ++ [name])).length)
    (member : path ∈ (selection.walk tree namesIn stray).listedAt
      ((selection.walk tree namesIn stray).listed depth) (root.descend below) name) :
    root.parts ++ (below ++ [name]).map Part.name <+: path.parts := by
  rcases (sees.mem_listedAt_iff comes there).mp member with ⟨folder, enters, listed⟩ | ⟨_, equal⟩
  · have onward := comesTo_concat_iff.mpr ⟨comes, enters⟩
    rcases (sees.mem_listed_iff meets onward folder enough).mp listed with
      ⟨inner, last, equal, keeps, _⟩
    have named := keeps.areNames sees.plain
    rw [List.append_assoc] at named
    rw [equal, Path.parts_descend sees.leads.nonempty named, List.prefix_append_right_inj]
    exact (List.prefix_append _ _).map Part.name
  · rw [equal, Path.parts_descend sees.leads.nonempty (sees.plain.areNames there).of_append.2]

/-- Nothing is listed twice. -/
theorem nodup_listed {depth : Nat} (folder : tree.itemAt? (rootPlace ++ below) = some .folder)
    (enough : tree.items.length < depth + (rootPlace ++ below).length) :
    ((selection.walk tree namesIn stray).listed depth (root.descend below)).Nodup := by
  induction depth generalizing below with
  | zero => exact List.nodup_nil
  | succ depth inductionHypothesis =>
      have deeper (name : Text) :
          tree.items.length < depth + (rootPlace ++ (below ++ [name])).length := by
        simp only [List.length_append, List.length_singleton] at enough ⊢
        omega
      rw [Walk.listed]
      split
      · exact List.nodup_nil
      · rename_i place located
        have same := (sees.leadsTo_descend comes folder).eq_of_placeOf sees.plain located
        subst same
        have there {name : Text} (member : name ∈ namesIn (rootPlace ++ below)) :
            tree.itemAt? (rootPlace ++ (below ++ [name])) ≠ none := by
          rw [← List.append_assoc]
          exact meets.mem_iff.mp member
        rw [List.nodup_flatMap]
        constructor
        · intro name member
          refine Walk.nodup_listedAt fun looks isFolder goesOn => ?_
          change tree.isFolder _ = true at isFolder
          rw [← Path.descend_concat] at looks isFolder goesOn ⊢
          have inside := ((sees.isFolder_descend_iff comes (there member)).mp isFolder).2
          have enters := (sees.enters_iff comes namesIn inside).mp ⟨looks, isFolder, goesOn⟩
          exact inductionHypothesis (comesTo_concat_iff.mpr ⟨comes, enters⟩) inside (deeper name)
        · refine (meets.nodup sees.plain _).imp_of_mem fun {one other} first second different => ?_
          intro path inOne inOther
          have under := sees.parts_isPrefix_of_mem_listedAt meets comes (there first)
            (deeper one) inOne
          have underOther := sees.parts_isPrefix_of_mem_listedAt meets comes (there second)
            (deeper other) inOther
          have leading := List.prefix_of_prefix_length_le under underOther (by simp)
          have same := List.append_cancel_left (leading.eq_of_length (by simp))
          rw [List.map_append, List.map_append] at same
          cases List.append_cancel_left same
          exact different rfl

end Selection.Sees

/-! ## What is collected -/

theorem Selection.isIncluded_descend_iff {selection : Selection} {root : Path}
    (nonempty : root.text ≠ []) {names : List Text} (named : AreNames names) (inside : names ≠ []) :
    selection.isIncluded root (root.descend names) = true ↔
      ∀ includes, selection.includes? = some includes ->
        includes ⟨Text.joinWith ['/'] names⟩ = true := by
  unfold isIncluded
  rw [Path.relativeTo?_descend nonempty named inside]
  cases selection.includes? <;> simp

/-- A site with a page whose name is no text, a part of pages, a draft, a project of its own and
a page that is left out. -/
def shopSite : FileTree where
  items := [
    (["site".toList], .folder),
    (["site".toList, "_part.html".toList], .file []),
    (["site".toList, "pages".toList], .folder),
    (["site".toList, "pages".toList, "_\uE0FE.html".toList], .file []),
    (["site".toList, "pages".toList, ".draft".toList], .folder),
    (["site".toList, "pages".toList, ".draft".toList, "about.html".toList], .file []),
    (["site".toList, "shop".toList], .folder),
    (["site".toList, "shop".toList, "index.html".toList], .file []),
    (["site".toList, "shop".toList, "protostar.toml".toList], .file []),
    (["site".toList, "old.html".toList], .file [])]
  workingFolder := []

/-- What is no text in its names. -/
def shopStray : Stray := { characters := ['\uE0FE'] }

/-- The old page is left out, and only pages below `pages` are included. -/
def shopSelection : Selection where
  gitignored := fun path isFolder => !isFolder && path == ⟨"site/old.html".toList⟩
  excluded := fun _ _ => false
  skippedFolders := [⟨"site/build".toList⟩]
  includes? := some fun path => Text.startsWith "pages/".toList path.text

/-- A site with one page, in a folder of its own. -/
def aboutSite : FileTree where
  items := [
    (["site".toList], .folder),
    (["site".toList, "pages".toList], .folder),
    (["site".toList, "pages".toList, "about.html".toList], .file (Text.toBytes "About".toList))]
  workingFolder := []

/-- Its root, in almost as many bytes as the system takes. -/
def longRoot : Path :=
  ⟨"site".toList ++ (List.replicate 2045 ['/', '.']).flatten⟩

/-- A site with a part of pages in a hidden folder, whose names are no texts. -/
def straySite : FileTree where
  items := [
    (["site".toList], .folder),
    (["site".toList, ".\uE0FE".toList], .folder),
    (["site".toList, ".\uE0FE".toList, "_\uE0FE.html".toList], .file [])]
  workingFolder := []

/-- Everything is selected. -/
def wholeSelection : Selection := ⟨fun _ _ => false, fun _ _ => false, [], none⟩

end PageComposer
