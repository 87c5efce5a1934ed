import PageComposer.Proofs.FileTree.Growth
import PageComposer.Proofs.Project.Templates

namespace PageComposer

/-!
# Collecting again

Below a root a walk does not notice what has come to stand in a folder that it
passes by, nor a new folder that holds no file.  `Aside` says that a tree has
grown in no other way.  Then a walk lists the same templates in both trees
(`listed_eq`), and they are collected again (`Aside.collect_eq`).
-/

open FileTree

/-- The name of a file that is written for a template. -/
def IsOutputName (name : Text) : Prop :=
  ".html".toList <:+ name ∨ ".json".toList <:+ name

instance (name : Text) : Decidable (IsOutputName name) :=
  inferInstanceAs (Decidable (_ ∨ _))

/-- Places at which files may be written: below the target. -/
def OutputPlace (target place : Place) : Prop :=
  ∃ below name, place = target ++ below ++ [name] ∧ IsOutputName name

/-- Places at which folders may be made: below the target, or where a walk from
the root sees that they are folders. -/
def FolderPlace (root : Path) (rootPlace target place : Place) : Prop :=
  (∃ below name, place = target ++ below ++ [name]) ∨
    ∀ below name, place = rootPlace ++ below ++ [name] -> Fits (root.descend below) name

/-- A tree has grown where a walk from a root does not look. -/
structure Aside (before after : FileTree) (root : Path) (rootPlace target : Place)
    (skipped : List Path) : Prop where
  plain : before.IsPlain
  avoided : Avoided root rootPlace target skipped
  grows : Grows (FolderPlace root rootPlace target) (OutputPlace target) before after

namespace Aside

variable {before after : FileTree} {root : Path} {rootPlace target : Place} {skipped : List Path}
variable (aside : Aside before after root rootPlace target skipped)
include aside

/-- Nothing but folders has appeared in a folder outside of the target. -/
theorem item_eq_or {place : Place} {name : Text} (outside : ¬ target <+: place) :
    after.itemAt? (place ++ [name]) = before.itemAt? (place ++ [name]) ∨
      before.itemAt? (place ++ [name]) = none ∧
        after.itemAt? (place ++ [name]) = some .folder ∧
          FolderPlace root rootPlace target (place ++ [name]) := by
  have change := aside.grows.change (place ++ [name])
  generalize before.itemAt? (place ++ [name]) = old at change ⊢
  generalize after.itemAt? (place ++ [name]) = new at change ⊢
  cases change with
  | kept => exact Or.inl rfl
  | made fine => exact Or.inr ⟨rfl, rfl, fine⟩
  | written fine =>
      rcases fine with ⟨below, other, equal, _⟩
      have same := (List.append_inj' equal rfl).1
      exact absurd ⟨below, same.symm⟩ outside

/-- Where something was, the same is there. -/
theorem item_eq {place : Place} {name : Text} (outside : ¬ target <+: place)
    (there : before.itemAt? (place ++ [name]) ≠ none) :
    after.itemAt? (place ++ [name]) = before.itemAt? (place ++ [name]) := by
  rcases aside.item_eq_or outside with same | ⟨nothing, _⟩
  · exact same
  · exact absurd nothing there

/-- A file whose name is not that of an output is there in both trees, or in
neither. -/
theorem file_iff {front : Place} {name : Text} (other : ¬ IsOutputName name) :
    (∃ bytes, after.itemAt? (front ++ [name]) = some (.file bytes)) ↔
      ∃ bytes, before.itemAt? (front ++ [name]) = some (.file bytes) := by
  have change := aside.grows.change (front ++ [name])
  generalize before.itemAt? (front ++ [name]) = old at change ⊢
  generalize after.itemAt? (front ++ [name]) = new at change ⊢
  cases change with
  | kept => exact Iff.rfl
  | made => simp
  | written fine =>
      rcases fine with ⟨below, last, equal, output⟩
      have same := List.singleton_inj.mp (List.append_inj' equal rfl).2
      exact absurd (same ▸ output) other

theorem isFile_candidate_eq {base : Path} {place : Place} (leads : before.LeadsTo base place)
    {entry : List Text × Text} (member : entry ∈ Config.candidateNames) :
    after.isFile (base.join ⟨Text.joinWith ['/'] (entry.1 ++ [entry.2])⟩) =
      before.isFile (base.join ⟨Text.joinWith ['/'] (entry.1 ++ [entry.2])⟩) := by
  have named := Config.areNames_candidate entry member
  have others : ∀ entry ∈ Config.candidateNames, ¬ IsOutputName entry.2 := by decide
  have file := @file_iff _ _ _ _ _ _ aside (place ++ entry.1) entry.2 (others entry member)
  rw [List.append_assoc] at file
  rw [Bool.eq_iff_iff,
    isFile_join_names_iff aside.grows.plain (aside.grows.leadsTo leads) named (by simp),
    isFile_join_names_iff aside.plain leads named (by simp), file]

theorem findFile?_isSome_eq {base : Path} {place : Place} (leads : before.LeadsTo base place) :
    (Config.findFile? after base).isSome = (Config.findFile? before base).isSome := by
  rw [Bool.eq_iff_iff, Config.findFile?_isSome_iff, Config.findFile?_isSome_iff]
  apply exists_congr
  intro entry
  apply and_congr_right
  intro member
  rw [aside.isFile_candidate_eq leads member]

end Aside

theorem flatMap_filter {A B : Type} {list : List A} {keep : A -> Bool} {each : A -> List B}
    (others : ∀ item ∈ list, keep item = false -> each item = []) :
    (list.filter keep).flatMap each = list.flatMap each := by
  induction list with
  | nil => rfl
  | cons head tail inductionHypothesis =>
      have both := List.forall_mem_cons.mp others
      rw [List.flatMap_cons, ← inductionHypothesis both.2]
      cases kept : keep head with
      | true => rw [List.filter_cons_of_pos kept, List.flatMap_cons]
      | false => rw [List.filter_cons_of_neg (by simp [kept]), both.1 kept, List.nil_append]

namespace Aside

variable {before after : FileTree} {root : Path} {rootPlace target : Place} {skipped : List Path}
variable (aside : Aside before after root rootPlace target skipped)
variable {ignores : Path -> Bool -> Bool}
include aside

/-- What is new in a folder outside of the target is a folder, and seen to be
one.  Nothing is listed for it if nothing is listed below it. -/
theorem listedAt_new {below : List Text} {name : Text} {list : Path -> List Path}
    (leads : after.LeadsTo (root.descend below) (rootPlace ++ below))
    (outside : ¬ target <+: rootPlace ++ below)
    (nothing : before.itemAt? (rootPlace ++ below ++ [name]) = none)
    (there : after.itemAt? (rootPlace ++ below ++ [name]) ≠ none)
    (empty : after.LeadsTo (root.descend (below ++ [name])) (rootPlace ++ (below ++ [name])) ->
      ¬ target <+: rootPlace ++ (below ++ [name]) -> list (root.descend (below ++ [name])) = []) :
    (walkOver after ignores skipped).listedAt list (root.descend below) name = [] := by
  have made : after.itemAt? (rootPlace ++ below ++ [name]) = some .folder ∧
      Fits (root.descend below) name := by
    rcases aside.item_eq_or outside with same | ⟨_, folder, inside | seen⟩
    · rw [same] at there
      exact absurd nothing there
    · rcases inside with ⟨inner, other, equal⟩
      have same := (List.append_inj' equal rfl).1
      exact absurd ⟨inner, same.symm⟩ outside
    · exact ⟨folder, seen below name rfl⟩
  have named := (aside.grows.plain.parent there).2
  have folder := (isFolder_join_iff aside.grows.plain leads named).mpr ⟨made.2, made.1⟩
  have onward := leads.join aside.grows.plain made.1 made.2.2
  rw [← Path.descend_concat, List.append_assoc] at onward
  rw [← Path.descend_concat] at folder
  unfold Walk.listedAt
  rw [← Path.descend_concat]
  dsimp only
  split
  · rfl
  · split
    · split
      · rename_i enters
        exact empty onward (aside.avoided.outside_of_enters
          (areNames_below aside.grows.plain there) outside enters)
      · rfl
    · rename_i notFolder
      exact absurd folder notFolder

/-- Nothing is listed for a new folder outside of the target. -/
theorem listed_new {depth : Nat} {below : List Text}
    (leads : after.LeadsTo (root.descend below) (rootPlace ++ below))
    (outside : ¬ target <+: rootPlace ++ below)
    (nothing : before.itemAt? (rootPlace ++ below) = none) :
    (walkOver after ignores skipped).listed depth (root.descend below) = [] := by
  induction depth generalizing below with
  | zero => rfl
  | succ depth inductionHypothesis =>
      rw [Walk.listed]
      split
      · rfl
      · rename_i place located
        rw [leads.eq_of_placeOf aside.grows.plain located, List.flatMap_eq_nil_iff]
        intro name member
        have there := mem_namesIn.mp member
        have stillNothing : before.itemAt? (rootPlace ++ below ++ [name]) = none := by
          by_contra present
          have above := (aside.plain.parent present).1
          rw [nothing] at above
          cases above
        refine aside.listedAt_new leads outside stillNothing there fun onward outsideOn => ?_
        exact inductionHypothesis onward outsideOn (by rw [← List.append_assoc, stillNothing])

theorem isFolder_join_eq {base : Path} {place : Place} {name : Text}
    (leads : before.LeadsTo base place) (outside : ¬ target <+: place)
    (there : before.itemAt? (place ++ [name]) ≠ none) :
    after.isFolder (base.join ⟨name⟩) = before.isFolder (base.join ⟨name⟩) := by
  have named := (aside.plain.parent there).2
  rw [Bool.eq_iff_iff, isFolder_join_iff aside.grows.plain (aside.grows.leadsTo leads) named,
    isFolder_join_iff aside.plain leads named, aside.item_eq outside there]

/-- What was in a folder outside of the target is listed as before, if what is
below it is. -/
theorem listedAt_eq {below : List Text} {name : Text} {list later : Path -> List Path}
    (leads : before.LeadsTo (root.descend below) (rootPlace ++ below))
    (outside : ¬ target <+: rootPlace ++ below)
    (there : before.itemAt? (rootPlace ++ below ++ [name]) ≠ none)
    (same : before.LeadsTo (root.descend (below ++ [name])) (rootPlace ++ (below ++ [name])) ->
      Fits (root.descend below) name -> ¬ target <+: rootPlace ++ (below ++ [name]) ->
        list (root.descend (below ++ [name])) = later (root.descend (below ++ [name]))) :
    (walkOver before ignores skipped).listedAt list (root.descend below) name =
      (walkOver after ignores skipped).listedAt later (root.descend below) name := by
  have folders := aside.isFolder_join_eq leads outside there
  have named := (aside.plain.parent there).2
  rw [← Path.descend_concat] at folders
  have looks : (walkOver before ignores skipped).looksAt name (root.descend (below ++ [name])) =
      (walkOver after ignores skipped).looksAt name (root.descend (below ++ [name])) := by
    unfold Walk.looksAt walkOver
    rw [folders]
  unfold Walk.listedAt
  rw [← Path.descend_concat]
  dsimp only
  rw [looks]
  split
  · rfl
  · change (if before.isFolder _ = true then _ else _) = if after.isFolder _ = true then _ else _
    rw [folders]
    split
    · rename_i folder
      rw [Path.descend_concat, isFolder_join_iff aside.plain leads named] at folder
      have onward := leads.join aside.plain folder.2 folder.1.2
      rw [← Path.descend_concat, List.append_assoc] at onward
      have enters : (walkOver before ignores skipped).enters (root.descend (below ++ [name])) =
          (walkOver after ignores skipped).enters (root.descend (below ++ [name])) := by
        unfold Walk.enters Walk.isNestedProject walkOver
        rw [aside.findFile?_isSome_eq onward]
      rw [enters]
      split
      · rename_i entered
        exact same onward folder.1 (aside.avoided.outside_of_enters
          (areNames_below aside.plain there) outside entered)
      · rfl
    · rfl

/-- A walk lists the same templates below a folder that is outside of the
target. -/
theorem listed_eq {depth more : Nat} {below : List Text}
    (leads : before.LeadsTo (root.descend below) (rootPlace ++ below))
    (fits : Text.byteSize (root.descend below).text ≤ maxPathSize)
    (outside : ¬ target <+: rootPlace ++ below)
    (enough : before.items.length < depth + (rootPlace ++ below).length)
    (enoughAfter : after.items.length < more + (rootPlace ++ below).length) :
    (walkOver before ignores skipped).listed depth (root.descend below) =
      (walkOver after ignores skipped).listed more (root.descend below) := by
  have folder : before.itemAt? (rootPlace ++ below) = some .folder := leads.folder aside.plain
  have leadsAfter := aside.grows.leadsTo leads
  have there : before.itemAt? (rootPlace ++ below) ≠ none := by
    rw [folder]
    simp
  induction depth generalizing more below with
  | zero =>
      have bound := length_place_le aside.plain there
      omega
  | succ depth inductionHypothesis =>
      cases more with
      | zero =>
          have bound := length_place_le aside.grows.plain (aside.grows.present there)
          omega
      | succ more =>
          have located : (walkOver before ignores skipped).tree.placeOf (root.descend below) =
              .ok (rootPlace ++ below) :=
            placeOf_eq_ok_iff.mpr (find_of_leadsTo aside.plain leads (by simp) fits)
          have locatedAfter : (walkOver after ignores skipped).tree.placeOf (root.descend below) =
              .ok (rootPlace ++ below) :=
            placeOf_eq_ok_iff.mpr (find_of_leadsTo aside.grows.plain leadsAfter (by simp) fits)
          have names := @namesIn_eq_filter before after aside.plain aside.grows.plain
            (rootPlace ++ below) fun name => aside.grows.present
          rw [Walk.listed, Walk.listed, located, locatedAfter]
          change (before.namesIn _).flatMap _ = (after.namesIn _).flatMap _
          have extra : ∀ name ∈ after.namesIn (rootPlace ++ below),
              (before.itemAt? (rootPlace ++ below ++ [name])).isSome = false ->
                (walkOver after ignores skipped).listedAt
                    ((walkOver after ignores skipped).listed more) (root.descend below) name =
                  [] := by
            intro name member new
            have nothing := Option.isNone_iff_eq_none.mp (Option.isSome_eq_false_iff.mp new)
            refine aside.listedAt_new leadsAfter outside nothing (mem_namesIn.mp member)
              fun onward outsideOn => aside.listed_new onward outsideOn ?_
            rw [← List.append_assoc, nothing]
          rw [← flatMap_filter extra, ← names]
          apply List.flatMap_congr
          intro name member
          refine aside.listedAt_eq leads outside (mem_namesIn.mp member)
            fun onward fitsOn outsideOn => ?_
          have deeper := onward.folder aside.plain
          apply inductionHypothesis onward _ outsideOn _ _ deeper (aside.grows.leadsTo onward)
          · rw [deeper]
            simp
          · rw [Path.descend_concat]
            exact fitsOn.1
          · rw [← List.append_assoc, List.length_append, List.length_singleton]
            omega
          · rw [← List.append_assoc, List.length_append, List.length_singleton]
            omega

/-- The ignore file of the root is the same in both trees, if it can be read. -/
theorem readBytes_ignoreFile_eq (leads : before.LeadsTo root rootPlace) :
    (after.readBytes (ignoreFile root)).toOption =
      (before.readBytes (ignoreFile root)).toOption := by
  have named : IsName ".gitignore".toList := by decide
  unfold ignoreFile
  rw [readBytes_join aside.plain leads named,
    readBytes_join aside.grows.plain (aside.grows.leadsTo leads) named]
  rcases @item_eq_or _ _ _ _ _ _ aside rootPlace ".gitignore".toList
    aside.avoided.outside with same | ⟨nothing, folder, _⟩
  · rw [same]
  · rw [nothing, folder]
    by_cases fits : Fits root ".gitignore".toList
    · rw [if_pos fits, if_pos fits]
      rfl
    · rw [if_neg fits, if_neg fits]

theorem templates_eq (leads : before.LeadsTo root rootPlace)
    (fits : Text.byteSize root.text ≤ maxPathSize) :
    (walkOver after ignores skipped).templates root =
      (walkOver before ignores skipped).templates root := by
  have leadsAfter := aside.grows.leadsTo leads
  have listed := @listed_eq _ _ _ _ _ _ aside ignores (before.items.length + 2)
    (after.items.length + 2) []
  simp only [Path.descend_nil, List.append_nil] at listed
  have found := @Walk.templates_eq (walkOver before ignores skipped) _ _ aside.plain
    walkOver_meetsAll leads fits
  have foundAfter := @Walk.templates_eq (walkOver after ignores skipped) _ _ aside.grows.plain
    walkOver_meetsAll leadsAfter fits
  rw [found, foundAfter]
  exact congrArg (fun found => Except.ok found.reverse)
    (listed leads fits aside.avoided.outside (by omega) (by omega)).symm

/-- The same templates are collected in a tree that has grown aside of them. -/
theorem collect_eq (leads : before.LeadsTo root rootPlace)
    (fits : Text.byteSize root.text ≤ maxPathSize) (isIncluded : Path -> Bool) :
    (walkOver after ignores skipped).collect isIncluded root =
      (walkOver before ignores skipped).collect isIncluded root := by
  unfold Walk.collect
  rw [aside.templates_eq leads fits]
  rfl

end Aside
end PageComposer
