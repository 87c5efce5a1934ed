import Mathlib.Data.List.Nodup
import PageComposer.Proofs.FileTree.Lookup
import PageComposer.Proofs.Text.Order

namespace PageComposer

/-!
# The names in a folder

The names in a folder are those of the places that something stands at
(`mem_namesIn`), each once and in order (`pairwise_namesIn`).  So what stands
below a folder settles how it is listed: a tree that has more in the folder
lists the same names, with the new ones among them (`namesIn_eq_filter`).
-/

namespace FileTree

theorem mem_insertName {name other : Text} {names : List Text} :
    other ∈ insertName name names ↔ other = name ∨ other ∈ names := by
  induction names with
  | nil => simp [insertName]
  | cons first rest inductionHypothesis =>
      unfold insertName
      split
      · exact List.mem_cons
      · rw [List.mem_cons, inductionHypothesis, List.mem_cons]
        exact or_left_comm

theorem pairwise_insertName {name : Text} {names : List Text} (fresh : name ∉ names)
    (sorted : names.Pairwise (· < ·)) : (insertName name names).Pairwise (· < ·) := by
  induction names with
  | nil => exact List.pairwise_singleton _ _
  | cons first rest inductionHypothesis =>
      have both := List.pairwise_cons.mp sorted
      rw [List.mem_cons, not_or] at fresh
      unfold insertName
      split
      · rename_i before
        have before := Text.precedes_iff.mp before
        refine List.pairwise_cons.mpr ⟨?_, sorted⟩
        intro other member
        rcases List.mem_cons.mp member with same | later
        · exact same ▸ before
        · exact lt_trans before (both.1 other later)
      · rename_i notBefore
        refine List.pairwise_cons.mpr ⟨?_, inductionHypothesis fresh.2 both.2⟩
        intro other member
        rcases mem_insertName.mp member with same | later
        · rw [same]
          exact Text.lt_of_not_precedes fresh.1 notBefore
        · exact both.1 other later

theorem mem_foldl_insertName {name : Text} {names sorted : List Text} :
    name ∈ names.foldl (fun sorted name => insertName name sorted) sorted ↔
      name ∈ names ∨ name ∈ sorted := by
  induction names generalizing sorted with
  | nil => simp
  | cons first rest inductionHypothesis =>
      rw [List.foldl_cons, inductionHypothesis, mem_insertName, List.mem_cons, or_left_comm,
        or_assoc]

theorem pairwise_foldl_insertName {names sorted : List Text} (nodup : names.Nodup)
    (fresh : ∀ name ∈ names, name ∉ sorted) (inOrder : sorted.Pairwise (· < ·)) :
    (names.foldl (fun sorted name => insertName name sorted) sorted).Pairwise (· < ·) := by
  induction names generalizing sorted with
  | nil => exact inOrder
  | cons first rest inductionHypothesis =>
      have both := List.nodup_cons.mp nodup
      have fresh := List.forall_mem_cons.mp fresh
      apply inductionHypothesis both.2
      · intro name member inserted
        rcases mem_insertName.mp inserted with same | inside
        · exact both.1 (same ▸ member)
        · exact fresh.2 name member inside
      · exact pairwise_insertName fresh.1 inOrder

/-- The name of a place in a folder. -/
def nameIn? (place other : Place) : Option Text :=
  match place.isPrefixOf? other with
  | some [name] => some name
  | _ => none

theorem nameIn?_eq_some_iff {place other : Place} {name : Text} :
    nameIn? place other = some name ↔ other = place ++ [name] := by
  have behind : nameIn? place other = some name ↔ place.isPrefixOf? other = some [name] := by
    unfold nameIn?
    split
    · rename_i found
      simp [found]
    · rename_i others
      constructor
      · intro impossible
        cases impossible
      · intro found
        exact absurd found (others name)
  rw [behind, List.isPrefixOf?_eq_some_iff_append_eq]
  exact eq_comm

variable {tree : FileTree} {place : Place}

theorem namesIn_eq (tree : FileTree) (place : Place) :
    tree.namesIn place = ((tree.items.map Prod.fst).filterMap (nameIn? place)).foldl
      (fun sorted name => insertName name sorted) [] := by
  rw [List.filterMap_map]
  rfl

theorem itemAt?_ne_none_iff (inside : place ≠ []) :
    tree.itemAt? place ≠ none ↔ place ∈ tree.items.map Prod.fst := by
  unfold itemAt?
  rw [if_neg inside, Ne, List.lookup_eq_none_iff]
  simp

/-- The names in a folder are those that something stands at. -/
theorem mem_namesIn {name : Text} :
    name ∈ tree.namesIn place ↔ tree.itemAt? (place ++ [name]) ≠ none := by
  rw [namesIn_eq, mem_foldl_insertName, List.mem_filterMap, itemAt?_ne_none_iff (by simp)]
  simp [nameIn?_eq_some_iff]

/-- The names in a folder are listed in order, each once. -/
theorem pairwise_namesIn_of_distinct (distinct : (tree.items.map Prod.fst).Nodup)
    (place : Place) : (tree.namesIn place).Pairwise (· < ·) := by
  rw [namesIn_eq]
  refine pairwise_foldl_insertName ?_ (by simp) List.Pairwise.nil
  refine List.Nodup.filterMap ?_ distinct
  intro one other name first second
  rw [Option.mem_def, nameIn?_eq_some_iff] at first second
  rw [first, second]

theorem pairwise_namesIn (plain : tree.IsPlain) (place : Place) :
    (tree.namesIn place).Pairwise (· < ·) :=
  pairwise_namesIn_of_distinct plain.distinct place

/-- A tree that has more in a folder lists the names of the other one among its
own. -/
theorem namesIn_eq_filter {before after : FileTree} (plainBefore : before.IsPlain)
    (plainAfter : after.IsPlain) {place : Place}
    (kept : ∀ name, before.itemAt? (place ++ [name]) ≠ none ->
      after.itemAt? (place ++ [name]) ≠ none) :
    before.namesIn place = (after.namesIn place).filter fun name =>
      (before.itemAt? (place ++ [name])).isSome := by
  have sortedBefore := pairwise_namesIn plainBefore place
  have sortedAfter := (pairwise_namesIn plainAfter place).filter fun name =>
    (before.itemAt? (place ++ [name])).isSome
  refine List.Perm.eq_of_pairwise (fun _ _ _ _ one other => absurd one (lt_asymm other))
    sortedBefore sortedAfter ?_
  rw [List.perm_ext_iff_of_nodup (sortedBefore.imp ne_of_lt) (sortedAfter.imp ne_of_lt)]
  intro name
  rw [List.mem_filter, mem_namesIn, mem_namesIn, Option.isSome_iff_ne_none]
  exact ⟨fun present => ⟨kept name present, present⟩, And.right⟩

end FileTree
end PageComposer
