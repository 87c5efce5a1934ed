import PageComposer.FileTree.Change
import PageComposer.Proofs.FileTree.Lookup
import PageComposer.Proofs.Path.Selection

namespace PageComposer
namespace FileTree

/-!
# Trees that grow

Making folders and writing files only adds to a plain tree: folders where
nothing was, and files where no folder was (`Grows`).  Where folders and files
may appear is left open.  Every single change is such a step, whatever becomes
of the following ones, and so are all of them together
(`makeFoldersFrom_grows`, `writeBytes_grows`).
-/

variable {mayMake mayWrite : Place -> Prop}

/-- What may become of what stands at a place. -/
inductive Change (mayMake mayWrite : Place -> Prop) (place : Place) :
    Option Item -> Option Item -> Prop
  | kept (item? : Option Item) : Change mayMake mayWrite place item? item?
  | made (fine : mayMake place) : Change mayMake mayWrite place none (some .folder)
  | written {item? : Option Item} (fine : mayWrite place) (noFolder : item? ≠ some .folder)
      (bytes : Text.Bytes) : Change mayMake mayWrite place item? (some (.file bytes))

theorem Change.trans {place : Place} {first second third : Option Item}
    (one : Change mayMake mayWrite place first second)
    (other : Change mayMake mayWrite place second third) :
    Change mayMake mayWrite place first third := by
  cases other with
  | kept => exact one
  | made fine =>
      cases one with
      | kept => exact .made fine
  | written fine noFolder bytes =>
      cases one with
      | kept => exact .written fine noFolder bytes
      | made => exact absurd rfl noFolder
      | written _ noFolderFirst _ => exact .written fine noFolderFirst bytes

/-- A tree that has come to hold more. -/
structure Grows (mayMake mayWrite : Place -> Prop) (before after : FileTree) : Prop where
  working : after.workingFolder = before.workingFolder
  plain : after.IsPlain
  change : ∀ place, Change mayMake mayWrite place (before.itemAt? place) (after.itemAt? place)

theorem Grows.refl {tree : FileTree} (plain : tree.IsPlain) :
    Grows mayMake mayWrite tree tree :=
  ⟨rfl, plain, fun _ => .kept _⟩

theorem Grows.trans {first second third : FileTree} (one : Grows mayMake mayWrite first second)
    (other : Grows mayMake mayWrite second third) : Grows mayMake mayWrite first third :=
  ⟨other.working.trans one.working, other.plain,
    fun place => (one.change place).trans (other.change place)⟩

namespace Grows

variable {before after : FileTree} (grows : Grows mayMake mayWrite before after)
include grows

/-- Folders stay. -/
theorem folder {place : Place} (there : before.itemAt? place = some .folder) :
    after.itemAt? place = some .folder := by
  have change := grows.change place
  rw [there] at change
  generalize after.itemAt? place = item? at change
  cases change with
  | kept => rfl
  | written _ noFolder _ => exact absurd rfl noFolder

/-- Where something was, something is. -/
theorem present {place : Place} (there : before.itemAt? place ≠ none) :
    after.itemAt? place ≠ none := by
  have change := grows.change place
  generalize before.itemAt? place = item? at change there
  generalize after.itemAt? place = later? at change
  cases change with
  | kept => exact there
  | made => exact absurd rfl there
  | written => simp

theorem opens {place : Place} {parts : List Part} (opens : before.Opens place parts) :
    after.Opens place parts := by
  induction parts generalizing place with
  | nil => trivial
  | cons part parts inductionHypothesis =>
      exact ⟨grows.folder opens.1, inductionHypothesis opens.2⟩

theorem placeTo_eq (path : Path) : after.placeTo path = before.placeTo path := by
  rw [placeTo, grows.working, placeTo]

theorem leadsTo {base : Path} {place : Place} (leads : before.LeadsTo base place) :
    after.LeadsTo base place := by
  refine ⟨leads.nonempty, leads.unended, ?_, leads.short, ?_⟩
  · rw [grows.working]
    exact grows.opens leads.opens
  · rw [grows.placeTo_eq]
    exact leads.spelled

end Grows

/-! ## Single changes -/

variable {tree : FileTree}

theorem IsPlain.put {place : Place} {name : Text} {item : Item} (plain : tree.IsPlain)
    (folder : tree.itemAt? place = some .folder) (named : IsName name)
    (linkless : item.isLink = false)
    (vacant : tree.itemAt? (place ++ [name]) ≠ some .folder) :
    (tree.put (place ++ [name]) item).IsPlain := by
  have elsewhere {other : Place} (there : tree.itemAt? other = some .folder) :
      (tree.put (place ++ [name]) item).itemAt? other = some .folder := by
    have different : other ≠ place ++ [name] := by
      intro same
      rw [same] at there
      exact vacant there
    rw [itemAt?_put_other tree item different, there]
  have areNames := plain.areNames (by rw [folder]; simp)
  refine ⟨?_, ?_, ?_, ?_, elsewhere plain.working⟩
  · intro entry member
    rcases List.mem_cons.mp member with new | old
    · rw [new]
      exact linkless
    · exact plain.linkless entry (List.mem_filter.mp old).1
  · refine List.nodup_cons.mpr ⟨?_, ?_⟩
    · intro again
      rcases List.mem_map.mp again with ⟨entry, kept, same⟩
      have other := (List.mem_filter.mp kept).2
      rw [bne_iff_ne] at other
      exact other same
    · exact (List.filter_sublist.map Prod.fst).nodup plain.distinct
  · intro entry member
    rcases List.mem_cons.mp member with new | old
    · rw [new]
      exact ⟨by simp, List.forall_mem_append.mpr ⟨areNames, by simpa using named⟩⟩
    · exact plain.named entry (List.mem_filter.mp old).1
  · intro entry member
    rcases List.mem_cons.mp member with new | old
    · rw [new, List.dropLast_concat]
      exact elsewhere folder
    · exact elsewhere (plain.housed entry (List.mem_filter.mp old).1)

/-- What is put at a place changes that place. -/
theorem put_grows {place : Place} {name : Text} {item : Item} (plain : tree.IsPlain)
    (folder : tree.itemAt? place = some .folder) (named : IsName name)
    (linkless : item.isLink = false)
    (vacant : tree.itemAt? (place ++ [name]) ≠ some .folder)
    (fine : Change mayMake mayWrite (place ++ [name]) (tree.itemAt? (place ++ [name]))
      (some item)) :
    Grows mayMake mayWrite tree (tree.put (place ++ [name]) item) := by
  refine ⟨rfl, plain.put folder named linkless vacant, fun other => ?_⟩
  by_cases same : other = place ++ [name]
  · rw [same, itemAt?_put_self tree item (by simp)]
    exact fine
  · rw [itemAt?_put_other tree item same]
    exact .kept _

/-- Nothing has a name in a folder that is there, and something may get it. -/
structure IsVacant (tree : FileTree) (folder : Place) (name : Text) : Prop where
  there : tree.itemAt? folder = some .folder
  named : IsName name
  short : Text.byteSize name ≤ maxNameSize
  nothing : tree.itemAt? (folder ++ [name]) = none

/-- A place where nothing is found is vacant. -/
theorem exists_name_of_absent {purpose : Purpose} {path : Path} {place : Place}
    (plain : tree.IsPlain) (located : tree.find purpose path = .ok (.absent place)) :
    ∃ folder name, place = folder ++ [name] ∧ IsVacant tree folder name := by
  have spelled := isSpelled_of_find located
  have lands := find_lands plain located
  have landed := lands.1
  generalize absent : Found.absent place = found at landed
  cases landed with
  | present => cases absent
  | absent split opens nothing =>
      rename_i front name
      cases absent
      have member : Part.name name ∈ path.parts := by
        rw [split]
        exact List.mem_append_right _ List.mem_cons_self
      have equal : placeFrom tree.workingFolder path.parts =
          placeFrom tree.workingFolder front ++ [name] := by
        rw [split, placeFrom_append]
        rfl
      rw [equal] at nothing
      exact ⟨_, name, equal, opens.folder plain.working,
        Path.isName_of_mem_parts member spelled.unended, lands.2 name member, nothing⟩

/-- Making one folder. -/
theorem makeFolder_grows (plain : tree.IsPlain) {path : Path} {after : FileTree}
    (fine : ∀ place, tree.find .make path = .ok (.absent place) -> mayMake place)
    (made : tree.makeFolder path = .ok after) : Grows mayMake mayWrite tree after := by
  unfold makeFolder at made
  cases located : tree.find .make path with
  | error fault =>
      rw [located] at made
      cases made
  | ok found =>
      rw [located] at made
      cases found with
      | present place => cases made
      | absent place =>
          cases made
          have allowed := fine place located
          rcases exists_name_of_absent plain located with ⟨folder, name, equal, vacant⟩
          rw [equal] at allowed ⊢
          apply put_grows plain vacant.there vacant.named rfl
          · rw [vacant.nothing]
            simp
          · rw [vacant.nothing]
            exact .made allowed

/-- Making a folder with those above it, as far as that goes. -/
theorem makeFoldersFrom_grows {paths : List Path} (plain : tree.IsPlain)
    (fine : ∀ path ∈ paths, ∀ later, Grows mayMake mayWrite tree later ->
      ∀ place, later.find .make path = .ok (.absent place) -> mayMake place) :
    Grows mayMake mayWrite tree (tree.makeFoldersFrom paths).1 := by
  induction paths with
  | nil => exact Grows.refl plain
  | cons path parents inductionHypothesis =>
      have here := fine path List.mem_cons_self
      have above := inductionHypothesis fun other member =>
        fine other (List.mem_cons_of_mem _ member)
      unfold makeFoldersFrom
      split
      · exact Grows.refl plain
      · split
        · rename_i made
          exact makeFolder_grows plain (here tree (Grows.refl plain)) made
        · cases parentsMade : tree.makeFoldersFrom parents with
          | mk later outcome =>
              rw [parentsMade] at above
              cases outcome with
              | error fault => exact above
              | ok _ =>
                  dsimp only
                  split
                  · rename_i made
                    exact above.trans (makeFolder_grows above.plain (here later above) made)
                  · exact above
        · exact Grows.refl plain

/-- Writing a file. -/
theorem writeBytes_grows (plain : tree.IsPlain) {path : Path} {bytes : Text.Bytes}
    {after : FileTree} (fine : mayWrite (tree.placeTo path))
    (written : tree.writeBytes path bytes = .ok after) : Grows mayMake mayWrite tree after := by
  unfold writeBytes at written
  cases located : tree.find .write path with
  | error fault =>
      rw [located] at written
      cases written
  | ok found =>
      rw [located] at written
      cases found with
      | absent place =>
          cases written
          rcases exists_name_of_absent plain located with ⟨folder, name, equal, vacant⟩
          have vacantSo : tree.itemAt? (folder ++ [name]) ≠ some .folder := by
            rw [vacant.nothing]
            simp
          rcases placeTo_of_find plain located with impossible | same
          · cases impossible
          · cases same
            rw [equal] at fine ⊢
            exact put_grows plain vacant.there vacant.named rfl vacantSo
              (.written fine vacantSo bytes)
      | present place =>
          rcases placeTo_of_find plain located with same | impossible
          · cases same
            dsimp only [bind, Except.bind] at written
            split at written
            · rename_i old file
              cases written
              rcases List.eq_nil_or_concat (tree.placeTo path) with root | ⟨folder, name, equal⟩
              · rw [root] at file
                cases file
              · rw [List.concat_eq_append] at equal
                rw [equal] at fine file ⊢
                have house := plain.parent (by rw [file]; simp)
                apply put_grows plain house.1 house.2 rfl (by rw [file]; simp)
                exact .written fine (by rw [file]; simp) bytes
            · cases written
          · cases impossible

end FileTree
end PageComposer
