import PageComposer.Project.Collect
import PageComposer.Proofs.FileTree.Listing
import PageComposer.Proofs.Outcome

namespace PageComposer

/-!
# Walks through trees without links

Without links no folder is met a second time, and no way down is longer than
there are items.  So a walk never fails, what it has entered does not matter,
and it finds what a plain recursion over the folders lists (`visit_eq`).
-/

namespace FileTree

variable {tree : FileTree}

/-- A place is no deeper than there are items. -/
theorem length_place_le {place : Place} (plain : tree.IsPlain)
    (there : tree.itemAt? place ≠ none) : place.length ≤ tree.items.length := by
  have fronts : ((List.range place.length).map fun depth => place.take (depth + 1)).Nodup := by
    refine List.Nodup.map_on ?_ List.nodup_range
    intro one oneMember other otherMember same
    have lengths := congrArg List.length same
    rw [List.mem_range] at oneMember otherMember
    rw [List.length_take, List.length_take] at lengths
    omega
  have within : ((List.range place.length).map fun depth => place.take (depth + 1)) ⊆
      tree.items.map Prod.fst := by
    intro front member
    rcases List.mem_map.mp member with ⟨depth, inRange, equal⟩
    have deep := List.mem_range.mp inRange
    rw [← equal]
    have nonempty : place.take (depth + 1) ≠ [] := by
      intro empty
      have lengths := congrArg List.length empty
      rw [List.length_take, List.length_nil] at lengths
      omega
    rw [← itemAt?_ne_none_iff nonempty]
    apply plain.front
    rw [List.take_append_drop]
    exact there
  have bound := fronts.length_le_of_subset within
  simpa using bound

end FileTree

namespace Walk

open FileTree

/-- What one entry of a folder adds to a list of templates.  `list` lists a
folder. -/
def listedAt (walk : Walk) (list : Path -> List Path) (folder : Path) (name : Text) :
    List Path :=
  let path := folder.join ⟨name⟩
  if !walk.looksAt name path then []
  else if walk.tree.isFolder path then
    if walk.enters path then list path else []
  else if isTemplate path walk.stray then [path]
  else []

theorem mem_listedAt {walk : Walk} {list : Path -> List Path} {folder path : Path} {name : Text} :
    path ∈ walk.listedAt list folder name ↔
      walk.looksAt name (folder.join ⟨name⟩) = true ∧
        (walk.tree.isFolder (folder.join ⟨name⟩) = true ∧
            walk.enters (folder.join ⟨name⟩) = true ∧ path ∈ list (folder.join ⟨name⟩) ∨
          walk.tree.isFolder (folder.join ⟨name⟩) = false ∧
            isTemplate (folder.join ⟨name⟩) walk.stray = true ∧ path = folder.join ⟨name⟩) := by
  unfold listedAt
  dsimp only
  cases walk.looksAt name (folder.join ⟨name⟩) with
  | false => simp
  | true => cases walk.tree.isFolder (folder.join ⟨name⟩) <;> simp

theorem nodup_listedAt {walk : Walk} {list : Path -> List Path} {folder : Path} {name : Text}
    (nodup : walk.looksAt name (folder.join ⟨name⟩) = true ->
      walk.tree.isFolder (folder.join ⟨name⟩) = true ->
        walk.enters (folder.join ⟨name⟩) = true -> (list (folder.join ⟨name⟩)).Nodup) :
    (walk.listedAt list folder name).Nodup := by
  unfold listedAt
  dsimp only
  cases looks : walk.looksAt name (folder.join ⟨name⟩) with
  | false => simp
  | true =>
      cases isFolder : walk.tree.isFolder (folder.join ⟨name⟩) with
      | false => cases isTemplate (folder.join ⟨name⟩) walk.stray <;> simp
      | true =>
          cases enters : walk.enters (folder.join ⟨name⟩) with
          | false => simp
          | true => simpa using nodup looks isFolder enters

/-- The templates in a folder and below, in the order in which they are met. -/
def listed (walk : Walk) : Nat -> Path -> List Path
  | 0, _ => []
  | depth + 1, folder =>
      match walk.tree.placeOf folder with
      | .error _ => []
      | .ok place => (walk.namesIn place).flatMap (walk.listedAt (listed walk depth) folder)

variable {walk : Walk} {base : Path} {place : Place}

/-- The templates that were found on the way to a folder stay, and those of the
folder are put in front. -/
def Visits (walk : Walk) (depth : Nat) (base : Path) (place : Place) : Prop :=
  ∀ progress : Progress, (∀ other ∈ progress.entered, ¬ place <+: other) ->
    ∃ entered, walk.visit depth base progress =
        .ok ⟨(walk.listed depth base).reverse ++ progress.found, entered⟩ ∧
      ∀ other ∈ entered, other ∈ progress.entered ∨ place <+: other

theorem lookAt_eq (plain : walk.tree.IsPlain) (leads : walk.tree.LeadsTo base place) {depth : Nat}
    {name : Text} (there : walk.tree.itemAt? (place ++ [name]) ≠ none)
    (visits : walk.tree.LeadsTo (base.join ⟨name⟩) (place ++ [name]) -> Fits base name ->
      walk.Visits depth (base.join ⟨name⟩) (place ++ [name]))
    (progress : Progress) (fresh : ∀ other ∈ progress.entered, ¬ place ++ [name] <+: other) :
    ∃ entered, walk.lookAt (walk.visit depth) base progress name =
        .ok ⟨(walk.listedAt (walk.listed depth) base name).reverse ++ progress.found, entered⟩ ∧
      ∀ other ∈ entered, other ∈ progress.entered ∨ place ++ [name] <+: other := by
  unfold lookAt listedAt
  dsimp only
  split
  · exact ⟨progress.entered, rfl, fun _ => Or.inl⟩
  · split
    · rename_i folder
      split
      · have both := (isFolder_join_iff plain leads (plain.parent there).2).mp folder
        exact visits (leads.join plain both.2 both.1.2) both.1 progress fresh
      · exact ⟨progress.entered, rfl, fun _ => Or.inl⟩
    · split
      · exact ⟨progress.entered, rfl, fun _ => Or.inl⟩
      · exact ⟨progress.entered, rfl, fun _ => Or.inl⟩

theorem foldlM_lookAt_eq (plain : walk.tree.IsPlain) (leads : walk.tree.LeadsTo base place)
    {depth : Nat} {names : List Text} (nodup : names.Nodup)
    (there : ∀ name ∈ names, walk.tree.itemAt? (place ++ [name]) ≠ none)
    (visits : ∀ name ∈ names, walk.tree.LeadsTo (base.join ⟨name⟩) (place ++ [name]) ->
      Fits base name -> walk.Visits depth (base.join ⟨name⟩) (place ++ [name]))
    (progress : Progress)
    (fresh : ∀ other ∈ progress.entered, ∀ name ∈ names, ¬ place ++ [name] <+: other) :
    ∃ entered, names.foldlM (walk.lookAt (walk.visit depth) base) progress =
        .ok ⟨(names.flatMap (walk.listedAt (walk.listed depth) base)).reverse ++ progress.found,
          entered⟩ ∧
      ∀ other ∈ entered, other ∈ progress.entered ∨ place <+: other := by
  induction names generalizing progress with
  | nil => exact ⟨progress.entered, rfl, fun _ => Or.inl⟩
  | cons name others inductionHypothesis =>
      have distinct := List.nodup_cons.mp nodup
      have there := List.forall_mem_cons.mp there
      have visits := List.forall_mem_cons.mp visits
      rcases lookAt_eq plain leads there.1 visits.1 progress
        (fun other member => fresh other member name List.mem_cons_self) with
        ⟨entered, looked, grown⟩
      have stillFresh : ∀ other ∈ entered, ∀ later ∈ others, ¬ place ++ [later] <+: other := by
        intro other member later inOthers
        rcases grown other member with old | below
        · exact fresh other old later (List.mem_cons_of_mem _ inOthers)
        · intro alsoBelow
          have leading : place ++ [name] <+: place ++ [later] :=
            List.prefix_of_prefix_length_le below alsoBelow (by simp)
          have same := List.append_cancel_left (leading.eq_of_length (by simp))
          rw [List.singleton_inj] at same
          exact distinct.1 (same ▸ inOthers)
      rcases inductionHypothesis distinct.2 there.2 visits.2
        ⟨(walk.listedAt (walk.listed depth) base name).reverse ++ progress.found, entered⟩
        stillFresh with ⟨after, folded, grownAfter⟩
      refine ⟨after, ?_, ?_⟩
      · rw [List.foldlM_cons, looked]
        refine folded.trans ?_
        rw [List.flatMap_cons, List.reverse_append, List.append_assoc]
      · intro other member
        rcases grownAfter other member with old | below
        · rcases grown other old with older | inside
          · exact Or.inl older
          · exact Or.inr ((List.prefix_append place [name]).trans inside)
        · exact Or.inr below

/-- In a folder the walk meets every name once, in whatever order. -/
def MeetsAll (walk : Walk) : Prop :=
  ∀ place, (walk.namesIn place).Perm (walk.tree.namesIn place)

namespace MeetsAll

theorem mem_iff (meets : walk.MeetsAll) {name : Text} :
    name ∈ walk.namesIn place ↔ walk.tree.itemAt? (place ++ [name]) ≠ none :=
  (meets place).mem_iff.trans mem_namesIn

theorem nodup_of_distinct (meets : walk.MeetsAll)
    (distinct : (walk.tree.items.map Prod.fst).Nodup) (place : Place) :
    (walk.namesIn place).Nodup :=
  (meets place).nodup_iff.mpr ((pairwise_namesIn_of_distinct distinct place).imp ne_of_lt)

theorem nodup (meets : walk.MeetsAll) (plain : walk.tree.IsPlain) (place : Place) :
    (walk.namesIn place).Nodup :=
  meets.nodup_of_distinct plain.distinct place

end MeetsAll

/-- In a plain tree a walk finds what is listed. -/
theorem visit_eq (plain : walk.tree.IsPlain) (meets : walk.MeetsAll) {depth : Nat}
    (leads : walk.tree.LeadsTo base place) (fits : Text.byteSize base.text ≤ maxPathSize)
    (enough : walk.tree.items.length < depth + place.length) : walk.Visits depth base place := by
  have folder := leads.folder plain
  induction depth generalizing base place with
  | zero =>
      have bound := length_place_le plain (by rw [folder]; simp : walk.tree.itemAt? place ≠ none)
      omega
  | succ depth inductionHypothesis =>
      intro progress fresh
      have located : walk.tree.placeOf base = .ok place :=
        placeOf_eq_ok_iff.mpr (find_of_leadsTo plain leads (by simp) fits)
      have unmet : ¬ progress.entered.contains place = true := by
        rw [List.contains_iff_mem]
        exact fun member => fresh place member (List.prefix_refl place)
      have below : ∀ name ∈ walk.namesIn place,
          walk.tree.LeadsTo (base.join ⟨name⟩) (place ++ [name]) -> Fits base name ->
            walk.Visits depth (base.join ⟨name⟩) (place ++ [name]) := by
        intro name member leadsOn fitsOn
        apply inductionHypothesis leadsOn fitsOn.1 _ (leadsOn.folder plain)
        rw [List.length_append, List.length_singleton]
        omega
      have freshBelow : ∀ other ∈ place :: progress.entered,
          ∀ name ∈ walk.namesIn place, ¬ place ++ [name] <+: other := by
        intro other member name _ leading
        rcases List.mem_cons.mp member with same | old
        · have bound := leading.length_le
          rw [same, List.length_append, List.length_singleton] at bound
          omega
        · exact fresh other old ((List.prefix_append place [name]).trans leading)
      have there : ∀ name ∈ walk.namesIn place, walk.tree.itemAt? (place ++ [name]) ≠ none :=
        fun name => meets.mem_iff.mp
      rcases foldlM_lookAt_eq plain leads (meets.nodup plain place) there below
        ⟨progress.found, place :: progress.entered⟩ freshBelow with ⟨entered, folded, grown⟩
      refine ⟨entered, ?_, ?_⟩
      · rw [visit, listed, located]
        dsimp only
        rw [if_neg unmet]
        exact folded
      · intro other member
        rcases grown other member with old | inside
        · rcases List.mem_cons.mp old with same | older
          · exact Or.inr (same ▸ List.prefix_refl place)
          · exact Or.inl older
        · exact Or.inr inside

/-- The templates below a root are those that are listed, the last one first. -/
theorem templates_eq (plain : walk.tree.IsPlain) (meets : walk.MeetsAll)
    (leads : walk.tree.LeadsTo base place) (fits : Text.byteSize base.text ≤ maxPathSize) :
    walk.templates base = .ok (walk.listed (walk.tree.items.length + 2) base).reverse := by
  have folder : walk.tree.isFolder base = true := by
    have located := placeOf_eq_ok_iff.mpr (find_of_leadsTo plain leads (by simp) fits)
    unfold isFolder itemOf?
    rw [located]
    exact beq_iff_eq.mpr (leads.folder plain)
  have enough : walk.tree.items.length < walk.tree.items.length + 2 + place.length := by omega
  rcases visit_eq plain meets leads fits enough {} (by simp) with ⟨entered, visited, _⟩
  unfold templates
  rw [if_pos folder, visited]
  exact congrArg Except.ok (List.append_nil _)

end Walk
end PageComposer
