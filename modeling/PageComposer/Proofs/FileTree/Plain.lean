import PageComposer.FileTree.Basic
import PageComposer.Proofs.Path.Names

namespace PageComposer

/-!
# Trees without links

In a tree without links a path leads to the place that its parts spell, or to
nothing (`followWith_lands`).  The folders on the way have to be there
(`FileTree.Opens`), and where they are, the last name decides
(`followWith_concat`).
-/

/-- Where a part leads from a place. -/
def stepFrom (place : Place) : Part -> Place
  | .root => []
  | .here => place
  | .up => place.dropLast
  | .name segment => place ++ [segment]

/-- Where parts lead from a place, whatever stands there. -/
def placeFrom (place : Place) (parts : List Part) : Place :=
  parts.foldl stepFrom place

@[simp] theorem placeFrom_nil (place : Place) : placeFrom place [] = place := rfl

@[simp] theorem placeFrom_cons (place : Place) (part : Part) (parts : List Part) :
    placeFrom place (part :: parts) = placeFrom (stepFrom place part) parts := rfl

@[simp] theorem placeFrom_append (place : Place) (front back : List Part) :
    placeFrom place (front ++ back) = placeFrom (placeFrom place front) back :=
  List.foldl_append

theorem placeFrom_names (place : Place) (names : List Text) :
    placeFrom place (names.map Part.name) = place ++ names := by
  induction names generalizing place with
  | nil => exact (List.append_nil place).symm
  | cons name others inductionHypothesis =>
      rw [List.map_cons, placeFrom_cons, inductionHypothesis, stepFrom, List.append_assoc]
      rfl

/-- Whether an item is a link. -/
def Item.isLink : Item -> Bool
  | .link _ => true
  | _ => false

namespace FileTree

/-- A tree without links, in which everything has a name and stands in a
folder. -/
structure IsPlain (tree : FileTree) : Prop where
  linkless : ∀ entry ∈ tree.items, entry.2.isLink = false
  distinct : (tree.items.map Prod.fst).Nodup
  named : ∀ entry ∈ tree.items, entry.1 ≠ [] ∧ AreNames entry.1
  housed : ∀ entry ∈ tree.items, tree.itemAt? entry.1.dropLast = some .folder
  working : tree.itemAt? tree.workingFolder = some .folder

instance (tree : FileTree) : Decidable tree.IsPlain :=
  decidable_of_iff
    ((∀ entry ∈ tree.items, entry.2.isLink = false) ∧ (tree.items.map Prod.fst).Nodup ∧
      (∀ entry ∈ tree.items, entry.1 ≠ [] ∧ AreNames entry.1) ∧
      (∀ entry ∈ tree.items, tree.itemAt? entry.1.dropLast = some .folder) ∧
      tree.itemAt? tree.workingFolder = some .folder)
    ⟨fun ⟨linkless, distinct, named, housed, working⟩ =>
      ⟨linkless, distinct, named, housed, working⟩,
    fun plain => ⟨plain.linkless, plain.distinct, plain.named, plain.housed, plain.working⟩⟩

variable {tree : FileTree} {place : Place}

theorem itemAt?_root (tree : FileTree) : tree.itemAt? [] = some .folder := rfl

theorem mem_of_itemAt? {item : Item} (found : tree.itemAt? place = some item)
    (inside : place ≠ []) : (place, item) ∈ tree.items := by
  unfold itemAt? at found
  rw [if_neg inside] at found
  rcases List.lookup_eq_some_iff.mp found with ⟨before, after, split, _⟩
  rw [split]
  exact List.mem_append_right before List.mem_cons_self

namespace IsPlain

variable (plain : tree.IsPlain)
include plain

theorem not_link (place : Place) (target : Text) : tree.itemAt? place ≠ some (.link target) := by
  intro found
  by_cases root : place = []
  · rw [root] at found
    cases found
  · have impossible := plain.linkless _ (mem_of_itemAt? found root)
    cases impossible

/-- Whatever is there stands in a folder and has a name. -/
theorem parent {name : Text} (present : tree.itemAt? (place ++ [name]) ≠ none) :
    tree.itemAt? place = some .folder ∧ IsName name := by
  rcases Option.ne_none_iff_exists'.mp present with ⟨item, found⟩
  have member := mem_of_itemAt? found (by simp)
  have folder := plain.housed _ member
  rw [List.dropLast_concat] at folder
  exact ⟨folder, (plain.named _ member).2 name (by simp)⟩

theorem folder_dropLast (folder : tree.itemAt? place = some .folder) :
    tree.itemAt? place.dropLast = some .folder := by
  rcases List.eq_nil_or_concat place with empty | ⟨front, last, equal⟩
  · rw [empty]
    exact itemAt?_root tree
  · rw [equal, List.concat_eq_append] at folder ⊢
    rw [List.dropLast_concat]
    exact (plain.parent (by rw [folder]; simp)).1

theorem areNames (there : tree.itemAt? place ≠ none) : AreNames place := by
  by_cases root : place = []
  · rw [root]
    exact List.forall_mem_nil _
  · rcases Option.ne_none_iff_exists'.mp there with ⟨item, found⟩
    exact (plain.named _ (mem_of_itemAt? found root)).2

theorem front {front back : Place} (there : tree.itemAt? (front ++ back) ≠ none) :
    tree.itemAt? front ≠ none := by
  induction back using List.reverseRecOn with
  | nil => rwa [List.append_nil] at there
  | append_singleton names last inductionHypothesis =>
      rw [← List.append_assoc] at there
      apply inductionHypothesis
      rw [(plain.parent there).1]
      simp

/-- Only folders have something below them. -/
theorem folder_front {front back : Place} (below : back ≠ [])
    (there : tree.itemAt? (front ++ back) ≠ none) : tree.itemAt? front = some .folder := by
  cases back with
  | nil => exact absurd rfl below
  | cons first others =>
      rw [← List.singleton_append, ← List.append_assoc] at there
      exact (plain.parent (plain.front there)).1

end IsPlain

/-- Every part leads to a folder. -/
def Opens (tree : FileTree) (place : Place) : List Part -> Prop
  | [] => True
  | part :: parts =>
      tree.itemAt? (stepFrom place part) = some .folder ∧ Opens tree (stepFrom place part) parts

/-- No name is too long. -/
def ShortNames (parts : List Part) : Prop :=
  ∀ name, Part.name name ∈ parts -> Text.byteSize name ≤ maxNameSize

theorem opens_append {front back : List Part} :
    tree.Opens place (front ++ back) ↔
      tree.Opens place front ∧ tree.Opens (placeFrom place front) back := by
  induction front generalizing place with
  | nil => simp [Opens]
  | cons part parts inductionHypothesis =>
      rw [List.cons_append, Opens, Opens, inductionHypothesis, placeFrom_cons, and_assoc]

theorem Opens.folder {parts : List Part} (opens : tree.Opens place parts)
    (folder : tree.itemAt? place = some .folder) :
    tree.itemAt? (placeFrom place parts) = some .folder := by
  induction parts generalizing place with
  | nil => exact folder
  | cons part parts inductionHypothesis => exact inductionHypothesis opens.2 opens.1

theorem shortNames_nil : ShortNames [] :=
  fun _ member => absurd member List.not_mem_nil

theorem shortNames_of_not_name {part : Part} (other : ∀ name, part ≠ .name name) :
    ShortNames [part] :=
  fun name member => absurd (List.mem_singleton.mp member).symm (other name)

theorem shortNames_name {name : Text} :
    ShortNames [.name name] ↔ Text.byteSize name ≤ maxNameSize := by
  simp [ShortNames]

theorem shortNames_cons {part : Part} {parts : List Part} :
    ShortNames (part :: parts) ↔ ShortNames [part] ∧ ShortNames parts := by
  simp only [ShortNames, List.mem_cons, List.not_mem_nil, or_false]
  constructor
  · intro short
    exact ⟨fun name here => short name (Or.inl here), fun name later => short name (Or.inr later)⟩
  · rintro ⟨first, others⟩ name (here | later)
    · exact first name here
    · exact others name later

/-- Where a path that is made of parts leads. -/
inductive Lands (tree : FileTree) (place : Place) (parts : List Part) : Found -> Prop
  | present (opens : tree.Opens place parts.dropLast)
      (there : tree.itemAt? (placeFrom place parts) ≠ none) :
      Lands tree place parts (.present (placeFrom place parts))
  | absent {front : List Part} {name : Text} (split : parts = front ++ [.name name])
      (opens : tree.Opens place front) (nothing : tree.itemAt? (placeFrom place parts) = none) :
      Lands tree place parts (.absent (placeFrom place parts))

theorem Lands.cons {part : Part} {parts : List Part} {found : Found}
    (folder : tree.itemAt? (stepFrom place part) = some .folder)
    (lands : tree.Lands (stepFrom place part) parts found) :
    tree.Lands place (part :: parts) found := by
  cases lands with
  | present opens there =>
      refine .present ?_ there
      cases parts with
      | nil => exact trivial
      | cons next others => exact ⟨folder, opens⟩
  | absent split opens nothing =>
      rename_i front name
      have split : part :: parts = (part :: front) ++ [.name name] := congrArg (part :: ·) split
      exact .absent split ⟨folder, opens⟩ nothing

theorem all_empty_iff {segments : List Text} :
    (segments.all (· == [])) = true ↔ ∀ segment ∈ segments, segment = [] := by
  simp

theorem partsOfSegments_of_all_empty {segments : List Text}
    (empty : (segments.all (· == [])) = true) : Path.partsOfSegments segments = [] := by
  rw [Path.partsOfSegments_eq_nil_iff]
  intro segment member
  rw [all_empty_iff.mp empty segment member]
  rfl

section Follow

variable {purpose : Purpose} {passLink : Place -> List Text -> Except StorageFault Found}
variable {segments : List Text}

theorem followWith_filler {segment : Text} (filler : Path.isFiller segment = true) :
    tree.followWith purpose passLink place (segment :: segments) =
      tree.followWith purpose passLink place segments := by
  rw [followWith]
  exact if_pos (by simpa [Path.isFiller] using filler)

/-- A folder on the way is entered. -/
theorem followWith_enter {segment : Text} (denotes : Path.isFiller segment = false)
    (inside : tree.itemAt? (stepFrom place (.ofSegment segment)) = some .folder)
    (short : ShortNames [.ofSegment segment])
    (onward : purpose ≠ .write ∨ ∃ later ∈ segments, later ≠ []) :
    tree.followWith purpose passLink place (segment :: segments) =
      tree.followWith purpose passLink (stepFrom place (.ofSegment segment)) segments := by
  rw [followWith, if_neg (by simpa [Path.isFiller] using denotes)]
  by_cases up : segment = ['.', '.']
  · rw [if_pos up, Part.ofSegment, if_pos up]
    rfl
  · rw [Part.ofSegment, if_neg up] at inside short ⊢
    have fits := short segment List.mem_cons_self
    have found : tree.itemAt? (place ++ [segment]) = some .folder := inside
    rw [if_neg up, if_neg, if_neg (Nat.not_lt.mpr fits)]
    · dsimp only
      rw [found]
      rfl
    · rintro ⟨write, last, _⟩
      rcases onward with other | ⟨later, member, nonempty⟩
      · exact other write
      · exact nonempty (all_empty_iff.mp last later member)

/-- What a name on the way of a path that leads somewhere can be. -/
theorem followWith_name_ok (plain : tree.IsPlain) {segment : Text}
    (denotes : Path.isFiller segment = false) (notUp : segment ≠ ['.', '.']) {found : Found}
    (followed : tree.followWith purpose passLink place (segment :: segments) = .ok found) :
    Text.byteSize segment ≤ maxNameSize ∧
      (tree.itemAt? (place ++ [segment]) = some .folder ∧
          tree.followWith purpose passLink (place ++ [segment]) segments = .ok found ∨
        Path.partsOfSegments segments = [] ∧
          (tree.itemAt? (place ++ [segment]) = none ∧ found = .absent (place ++ [segment]) ∨
            tree.itemAt? (place ++ [segment]) ≠ none ∧
              found = .present (place ++ [segment]))) := by
  rw [followWith, if_neg (by simpa [Path.isFiller] using denotes), if_neg notUp] at followed
  split at followed
  · cases followed
  · split at followed
    · cases followed
    · rename_i _ short
      refine ⟨Nat.le_of_not_lt short, ?_⟩
      dsimp only at followed
      cases item : tree.itemAt? (place ++ [segment]) with
      | none =>
          rw [item] at followed
          dsimp only at followed
          split at followed
          · rename_i last
            cases followed
            exact Or.inr ⟨partsOfSegments_of_all_empty last, Or.inl ⟨rfl, rfl⟩⟩
          · cases followed
      | some there =>
          rw [item] at followed
          cases there with
          | folder => exact Or.inl ⟨rfl, followed⟩
          | link target => exact absurd item (plain.not_link _ target)
          | file bytes =>
              dsimp only at followed
              split at followed
              · rename_i last
                cases followed
                rw [Bool.or_eq_true, Bool.and_eq_true, List.isEmpty_iff] at last
                refine Or.inr ⟨?_, Or.inr ⟨by simp, rfl⟩⟩
                rcases last with none | trailing
                · rw [none]
                  rfl
                · exact partsOfSegments_of_all_empty trailing.1
              · cases followed

/-- In a plain tree a path leads to the place that it spells. -/
theorem followWith_lands (plain : tree.IsPlain) {found : Found}
    (folder : tree.itemAt? place = some .folder)
    (followed : tree.followWith purpose passLink place segments = .ok found) :
    tree.Lands place (Path.partsOfSegments segments) found ∧
      ShortNames (Path.partsOfSegments segments) := by
  induction segments generalizing place with
  | nil =>
      rw [followWith] at followed
      cases followed
      refine ⟨.present trivial ?_, shortNames_nil⟩
      rw [Path.partsOfSegments_nil, placeFrom_nil, folder]
      simp
  | cons segment rest inductionHypothesis =>
      cases filler : Path.isFiller segment with
      | true =>
          rw [followWith_filler filler] at followed
          rw [Path.partsOfSegments_cons_filler filler]
          exact inductionHypothesis folder followed
      | false =>
          rw [Path.partsOfSegments_cons filler, shortNames_cons]
          by_cases up : segment = ['.', '.']
          · rw [followWith, if_neg (by simpa [Path.isFiller] using filler), if_pos up] at followed
            have above := plain.folder_dropLast folder
            have inner := inductionHypothesis above followed
            rw [Part.ofSegment, if_pos up]
            exact ⟨inner.1.cons above, shortNames_of_not_name (by simp), inner.2⟩
          · rcases followWith_name_ok plain filler up followed with ⟨short, onward | ⟨last, ends⟩⟩
            · have inner := inductionHypothesis onward.1 onward.2
              rw [Part.ofSegment, if_neg up]
              exact ⟨inner.1.cons onward.1, shortNames_name.mpr short, inner.2⟩
            · rw [Part.ofSegment, if_neg up, last]
              refine ⟨?_, shortNames_name.mpr short, shortNames_nil⟩
              rcases ends with ⟨nothing, equal⟩ | ⟨there, equal⟩
              · rw [equal]
                exact .absent (List.nil_append _).symm trivial nothing
              · rw [equal]
                exact .present trivial there

/-- Where every part leads to a folder, so does the path. -/
theorem followWith_of_opens (looking : purpose ≠ .write)
    (opens : tree.Opens place (Path.partsOfSegments segments))
    (short : ShortNames (Path.partsOfSegments segments)) :
    tree.followWith purpose passLink place segments =
      .ok (.present (placeFrom place (Path.partsOfSegments segments))) := by
  induction segments generalizing place with
  | nil =>
      rw [followWith]
      rfl
  | cons segment rest inductionHypothesis =>
      cases filler : Path.isFiller segment with
      | true =>
          rw [Path.partsOfSegments_cons_filler filler] at opens short ⊢
          rw [followWith_filler filler, inductionHypothesis opens short]
      | false =>
          rw [Path.partsOfSegments_cons filler] at opens short ⊢
          have both := shortNames_cons.mp short
          rw [followWith_enter filler opens.1 both.1 (Or.inl looking),
            inductionHypothesis opens.2 both.2, placeFrom_cons]

/-- Behind folders, the last name decides. -/
theorem followWith_concat (plain : tree.IsPlain) {name : Text} (named : IsName name)
    (opens : tree.Opens place (Path.partsOfSegments segments))
    (short : ShortNames (Path.partsOfSegments segments)) :
    tree.followWith purpose passLink place (segments ++ [name]) =
      if maxNameSize < Text.byteSize name then .error .nameTooLong
      else if tree.itemAt? (placeFrom place (Path.partsOfSegments segments) ++ [name]) = none then
        .ok (.absent (placeFrom place (Path.partsOfSegments segments) ++ [name]))
      else .ok (.present (placeFrom place (Path.partsOfSegments segments) ++ [name])) := by
  induction segments generalizing place with
  | nil =>
      have denotes : ¬ (name = [] ∨ name = ['.']) := by simp [named.nonempty, named.notHere]
      rw [List.nil_append, followWith, if_neg denotes, if_neg named.notUp, if_neg (by simp)]
      dsimp only
      rw [Path.partsOfSegments_nil, placeFrom_nil]
      split
      · rfl
      · cases found : tree.itemAt? (place ++ [name]) with
        | none => simp
        | some item =>
            cases item with
            | file bytes => simp
            | folder => simp [followWith]
            | link target => exact absurd found (plain.not_link _ target)
  | cons segment rest inductionHypothesis =>
      rw [List.cons_append]
      cases filler : Path.isFiller segment with
      | true =>
          rw [Path.partsOfSegments_cons_filler filler] at opens short ⊢
          rw [followWith_filler filler, inductionHypothesis opens short]
      | false =>
          rw [Path.partsOfSegments_cons filler] at opens short ⊢
          have both := shortNames_cons.mp short
          have onward : ∃ later ∈ rest ++ [name], later ≠ [] :=
            ⟨name, by simp, named.nonempty⟩
          rw [followWith_enter filler opens.1 both.1 (Or.inr onward),
            inductionHypothesis opens.2 both.2, placeFrom_cons]

end Follow

end FileTree
end PageComposer
