import PageComposer.Project.Build
import PageComposer.Proofs.Path.Size
import PageComposer.Proofs.Project.Recollecting

namespace PageComposer

/-!
# Writing the pages of a build

A page is written below the target folder, under the names that its template has
below the root, with its metadata beside it.  Folders are made on the way there
only, and a walk from the root sees that they are folders, as their paths are
not too long (`folderPlace_of_absent`).  So a tree grows aside of its templates
while pages are written (`writePages_grows`).
-/

open FileTree

/-! ## Places on the way to a path -/

/-- Parts take names away from a place and add some of their own. -/
theorem placeFrom_split (place : Place) (parts : List Part) :
    ∃ front names, placeFrom place parts = front ++ names ∧ front <+: place ∧
      names.Sublist (namesOf parts) := by
  induction parts using List.reverseRecOn with
  | nil =>
      have whole : place = place ++ [] := (List.append_nil place).symm
      exact ⟨place, [], whole, List.prefix_refl place, List.Sublist.slnil⟩
  | append_singleton parts last inductionHypothesis =>
      rcases inductionHypothesis with ⟨front, names, equal, leading, within⟩
      rw [placeFrom_append, equal, namesOf_append]
      have kept := within.trans (List.sublist_append_left _ (namesOf [last]))
      cases last with
      | root => exact ⟨[], [], rfl, List.nil_prefix, List.nil_sublist _⟩
      | here => exact ⟨front, names, rfl, leading, kept⟩
      | up =>
          by_cases alone : names = []
          · refine ⟨front.dropLast, [], ?_, (List.dropLast_prefix front).trans leading,
              List.nil_sublist _⟩
            rw [alone, List.append_nil, List.append_nil]
            rfl
          · refine ⟨front, names.dropLast, ?_, leading, (List.dropLast_sublist names).trans kept⟩
            exact List.dropLast_append_of_ne_nil alone
      | name segment =>
          exact ⟨front, names ++ [segment], List.append_assoc front names [segment], leading,
            within.append (List.Sublist.refl [segment])⟩

/-- The paths above a path have its first parts. -/
theorem parts_leading_of_mem_ancestors {path ancestor : Path} {count : Nat}
    (member : ancestor ∈ ancestors path count) : ancestor.parts <+: path.parts := by
  induction count generalizing path with
  | zero => exact List.mem_singleton.mp member ▸ List.prefix_refl _
  | succ count inductionHypothesis =>
      rw [ancestors] at member
      split at member
      · rename_i parent above
        rcases List.mem_cons.mp member with same | higher
        · exact same ▸ List.prefix_refl _
        · rcases Path.parts_parent? above with ⟨part, parts⟩
          rw [parts]
          exact (inductionHypothesis higher).trans (List.prefix_append _ _)
      · exact List.mem_singleton.mp member ▸ List.prefix_refl _

theorem parts_folder_leading (path : Path) : path.folder.parts <+: path.parts := by
  unfold Path.folder
  cases above : path.parent? with
  | none =>
      rw [Option.getD_none, Path.parts_eq_nil_iff.mpr rfl]
      exact List.nil_prefix
  | some parent =>
      rcases Path.parts_parent? above with ⟨part, parts⟩
      rw [Option.getD_some, parts]
      exact List.prefix_append _ _

variable {tree : FileTree} {root target : Path} {rootPlace : Place}

/-- A path to the first parts of one that leads to a folder finds a folder. -/
theorem not_absent_of_leading (plain : tree.IsPlain) (leads : tree.LeadsTo root rootPlace)
    {path : Path} (leading : path.parts <+: root.parts) (place : Place) :
    tree.find .make path ≠ .ok (.absent place) := by
  intro located
  have spelled := isSpelled_of_find located
  rcases leading with ⟨more, whole⟩
  have opens := leads.opens
  rw [← whole, opens_append] at opens
  have there : tree.LeadsTo path (tree.placeTo path) :=
    ⟨spelled.nonempty, spelled.unended, opens.1, (find_lands plain located).2, rfl⟩
  rw [find_of_leadsTo plain there (by simp) spelled.fits] at located
  cases located

/-- What the place of a folder on the way to the target has in common with the
root, and what comes from the target. -/
theorem exists_split_of_absent (plain : tree.IsPlain) (leads : tree.LeadsTo root rootPlace)
    {folder path : Path} (leading : path.parts <+: (root.join folder).parts) {place : Place}
    (located : tree.find .make path = .ok (.absent place)) :
    ∃ front names, place = front ++ names ∧ front <+: rootPlace ∧
      names.Sublist (namesOf (root.join folder).parts) := by
  have spelled := isSpelled_of_find located
  have same : place = tree.placeTo path := by
    rcases placeTo_of_find plain located with impossible | same
    · cases impossible
    · exact Found.absent.inj same
  rw [same]
  have below (parts : List Part) (within : parts <:+ path.parts) :
      (namesOf parts).Sublist (namesOf (root.join folder).parts) :=
    (within.sublist.trans leading.sublist).filterMap Part.name?
  by_cases absolute : folder.isAbsolute = true
  · -- An absolute target starts from nothing that the root has.
    have joined : root.join folder = folder := by rw [Path.join, if_pos absolute]
    have starts : folder.start = .root := beq_iff_eq.mp absolute
    rw [joined, Path.parts_eq folder, starts] at leading
    cases parts : path.parts with
    | nil => exact absurd (Path.parts_eq_nil_iff.mp parts) spelled.nonempty
    | cons first others =>
        rw [parts] at leading
        have root := (List.cons_prefix_cons.mp leading).1
        rcases placeFrom_split [] others with ⟨front, names, equal, fromNothing, within⟩
        refine ⟨front, names, ?_, ?_, within.trans (below others ?_)⟩
        · rw [placeTo, parts, root]
          exact equal
        · rw [List.prefix_nil.mp fromNothing]
          exact List.nil_prefix
        · rw [parts]
          exact List.suffix_cons first others
  · rw [Bool.not_eq_true] at absolute
    rw [Path.parts_join leads.nonempty absolute] at leading
    rcases List.prefix_or_prefix_of_prefix leading (List.prefix_append root.parts _) with
      above | ⟨others, parts⟩
    · exact absurd located (not_absent_of_leading plain leads above place)
    · rcases placeFrom_split rootPlace others with ⟨front, names, equal, fromRoot, within⟩
      refine ⟨front, names, ?_, fromRoot, within.trans (below others ?_)⟩
      · have spelledRoot := leads.spelled
        unfold placeTo at spelledRoot
        rw [placeTo, ← parts, placeFrom_append, spelledRoot, equal]
      · rw [← parts]
        exact List.suffix_append _ _

/-- Folders are made on the way to a path below the target only. -/
theorem folderPlace_of_absent (plain : tree.IsPlain) (leads : tree.LeadsTo root rootPlace)
    {folder path : Path} {names : List Text}
    (short : Text.byteSize root.text + Text.byteSize (root.join folder).text < maxPathSize)
    (leading : path.parts <+: (root.join folder).parts ++ names.map Part.name) {place : Place}
    (located : tree.find .make path = .ok (.absent place)) :
    FolderPlace root rootPlace (tree.placeTo (root.join folder)) place := by
  have same : place = tree.placeTo path := by
    rcases placeTo_of_find plain located with impossible | same
    · cases impossible
    · exact Found.absent.inj same
  rcases exists_name_of_absent plain located with ⟨above, last, equal, vacant⟩
  by_cases onTheWay : path.parts <+: (root.join folder).parts
  · right
    intro below name split
    have lastName : last = name := by
      rw [equal] at split
      exact List.singleton_inj.mp (List.append_inj' split rfl).2
    rcases exists_split_of_absent plain leads onTheWay located with
      ⟨front, own, joined, ⟨rest, fromRoot⟩, within⟩
    have behind : rest ++ (below ++ [name]) = own := by
      rw [split, ← fromRoot, List.append_assoc, List.append_assoc] at joined
      exact List.append_cancel_left joined
    have cost : weight (below ++ [name]) ≤ weight (namesOf (root.join folder).parts) := by
      apply weight_le_of_sublist
      apply List.Sublist.trans _ within
      rw [← behind]
      exact List.sublist_append_right rest _
    have size := Path.byteSize_descend_le root (below ++ [name])
    have bound := Path.weight_namesOf_le (root.join folder)
    rw [Path.descend_concat] at size
    refine ⟨by omega, ?_⟩
    rw [← lastName]
    exact vacant.short
  · left
    rcases List.prefix_or_prefix_of_prefix leading (List.prefix_append _ (names.map Part.name)) with
      impossible | ⟨more, parts⟩
    · exact absurd impossible onTheWay
    · rw [← parts, List.prefix_append_right_inj, List.prefix_iff_eq_take,
        ← List.map_take] at leading
      rcases List.eq_nil_or_concat (names.take more.length) with none | ⟨below, name, split⟩
      · rw [none, List.map_nil] at leading
        rw [leading, List.append_nil] at parts
        exact absurd (parts ▸ List.prefix_refl _) onTheWay
      · refine ⟨below, name, ?_⟩
        rw [same, placeTo, ← parts, leading, split, List.concat_eq_append, placeFrom_append,
          placeFrom_names, List.append_assoc]
        rfl

/-! ## Pages -/

theorem placeTo_join_names (tree : FileTree) {base : Path} (nonempty : base.text ≠ [])
    {names : List Text} (named : AreNames names) :
    tree.placeTo (base.join ⟨Text.joinWith ['/'] names⟩) = tree.placeTo base ++ names := by
  rw [placeTo, Path.parts_join_names nonempty named, placeFrom_append, placeFrom_names]
  rfl

/-- A page that is written at these names, which are those of a template. -/
structure IsPlaced (page : Output) (below : List Text) (name : Text) : Prop where
  relative : page.relative = Text.joinWith ['/'] (below ++ [name])
  named : AreNames (below ++ [name])
  output : IsOutputName name
  undotted : name.head? ≠ some '.'

theorem isOutputName_withExtension (name : Text) :
    IsOutputName (Path.withExtension name "meta.json".toList) :=
  Or.inr ⟨_ ++ ".meta".toList, by rw [Path.withExtension, List.append_assoc]; rfl⟩

/-- A page is written below the target, with its metadata beside it. -/
theorem writePage_grows (plain : tree.IsPlain) (leads : tree.LeadsTo root rootPlace)
    {folder : Path}
    (short : Text.byteSize root.text + Text.byteSize (root.join folder).text < maxPathSize)
    {page : Output} {below : List Text} {name : Text} (placed : IsPlaced page below name) :
    Grows (FolderPlace root rootPlace (tree.placeTo (root.join folder)))
      (OutputPlace (tree.placeTo (root.join folder))) tree
      (writePage tree (root.join folder) page).1 := by
  have nonempty : (root.join folder).text ≠ [] := Path.join_text_ne_nil leads.nonempty
  have parts := Path.parts_join_names nonempty placed.named
  have place := placeTo_join_names tree nonempty placed.named
  have renamed : AreNames (below ++ [Path.withExtension name "meta.json".toList]) := by
    have both := placed.named.of_append
    refine List.forall_mem_append.mpr ⟨both.1, fun other member => ?_⟩
    rw [List.mem_singleton.mp member]
    exact Path.isName_withExtension (both.2 name List.mem_cons_self) (by decide) (by decide)
      (by decide)
  have metadataFile := Path.replaceExtension_join nonempty placed.named placed.undotted renamed
  have metadataPlace := placeTo_join_names tree nonempty renamed
  unfold writePage
  dsimp only
  rw [placed.relative, metadataFile]
  generalize (root.join folder).join ⟨Text.joinWith ['/'] (below ++ [name])⟩ = output
    at parts place ⊢
  generalize (root.join folder).join
    ⟨Text.joinWith ['/'] (below ++ [Path.withExtension name "meta.json".toList])⟩ = metadata
      at metadataPlace ⊢
  have made : Grows (FolderPlace root rootPlace (tree.placeTo (root.join folder)))
      (OutputPlace (tree.placeTo (root.join folder))) tree (tree.makeFolders output.folder).1 := by
    apply makeFoldersFrom_grows plain
    intro path member later grown found located
    have leading := (parts_leading_of_mem_ancestors member).trans (parts_folder_leading output)
    rw [parts] at leading
    rw [← grown.placeTo_eq]
    exact folderPlace_of_absent grown.plain (grown.leadsTo leads) short leading located
  cases folders : tree.makeFolders output.folder with
  | mk afterFolders outcome =>
      rw [folders] at made
      cases outcome with
      | error fault => exact made
      | ok _ =>
          dsimp only
          cases written : afterFolders.writeText output page.content with
          | error fault => exact made
          | ok afterPage =>
              have outputPlace : OutputPlace (tree.placeTo (root.join folder))
                  (afterFolders.placeTo output) :=
                ⟨below, name, by rw [made.placeTo_eq, place, List.append_assoc], placed.output⟩
              have pageWritten := made.trans (writeBytes_grows made.plain outputPlace written)
              dsimp only
              cases writtenToo : afterPage.writeText metadata page.metadata with
              | error fault => exact pageWritten
              | ok afterMetadata =>
                  have metadataOutput : OutputPlace (tree.placeTo (root.join folder))
                      (afterPage.placeTo metadata) :=
                    ⟨below, _, by rw [pageWritten.placeTo_eq, metadataPlace, List.append_assoc],
                      isOutputName_withExtension name⟩
                  exact pageWritten.trans
                    (writeBytes_grows pageWritten.plain metadataOutput writtenToo)

/-- Pages are written below the target, as far as that goes. -/
theorem writePages_grows (plain : tree.IsPlain) (leads : tree.LeadsTo root rootPlace)
    {folder : Path}
    (short : Text.byteSize root.text + Text.byteSize (root.join folder).text < maxPathSize)
    {pages : List Output} (placed : ∀ page ∈ pages, ∃ below name, IsPlaced page below name) :
    Grows (FolderPlace root rootPlace (tree.placeTo (root.join folder)))
      (OutputPlace (tree.placeTo (root.join folder))) tree
      (writePages tree (root.join folder) pages).1 := by
  induction pages generalizing tree with
  | nil => exact Grows.refl plain
  | cons page pages inductionHypothesis =>
      have both := List.forall_mem_cons.mp placed
      rcases both.1 with ⟨below, name, first⟩
      have grown := writePage_grows plain leads short first
      rw [writePages]
      cases written : writePage tree (root.join folder) page with
      | mk later outcome =>
          rw [written] at grown
          cases outcome with
          | error fault => exact grown
          | ok output =>
              have others := inductionHypothesis grown.plain (grown.leadsTo leads) both.2
              rw [grown.placeTo_eq] at others
              exact grown.trans others

end PageComposer
