import PageComposer.Addressing
import PageComposer.Failure

namespace PageComposer

/-!
# Sites

A composition never touches a file system.  Every look-up and every read goes
through a `Site`, so that a listed site and a real tree are composed by the
same definitions.
-/

/-- What a composition asks of its surroundings. -/
structure Site where
  /-- The file that a placeholder refers to. -/
  locate : Placeholder -> Except Failure Path
  /-- The text of a file. -/
  read : Path -> Except Failure Text
  /-- Whether a path is a file. -/
  holds : Path -> Bool
  /-- The address that a file is served under. -/
  address : Path -> Text
  /-- At most so many different files can be located one after the other. -/
  fileCount : Nat

namespace Site

/-- The candidate of a placeholder, if `holds` says that it is a file. -/
def locateIn (addressing : Addressing) (holds : Path -> Bool) (placeholder : Placeholder) :
    Except Failure Path :=
  let path := addressing.candidate placeholder.kind placeholder.name
  if holds path then .ok path
  else .error (.unresolved placeholder.kind placeholder.name
    ("no file at `".toList ++ addressing.stray.shown path.text ++ ['`']))

end Site

/-- Files by path, none of them listed twice under the same parts. -/
structure Listing where
  entries : List (Path × Text)
deriving Inhabited

namespace Listing

/-- No files. -/
def empty : Listing := ⟨[]⟩

/-- The text of a file. -/
def find? (listing : Listing) (path : Path) : Option Text :=
  (listing.entries.find? fun entry => entry.1.same path).map Prod.snd

/-- The text that is found under a path is that of an entry under the same path. -/
theorem exists_entry_of_find? {listing : Listing} {path : Path} {text : Text}
    (listed : listing.find? path = some text) :
    ∃ entry ∈ listing.entries, entry.1.same path = true ∧ entry.2 = text := by
  rcases Option.map_eq_some_iff.mp listed with ⟨entry, first, equal⟩
  refine ⟨entry, List.mem_of_find?_eq_some first, ?_, equal⟩
  simpa using List.find?_some first

/-- The listing without a file. -/
def erase (listing : Listing) (path : Path) : Listing :=
  ⟨listing.entries.filter fun entry => !entry.1.same path⟩

/-- The listing with a file added or replaced. -/
def insert (listing : Listing) (path : Path) (text : Text) : Listing :=
  ⟨(path, text) :: (listing.erase path).entries⟩

/-- A file that is put in is found under every path with its parts. -/
theorem find?_insert_same {listing : Listing} {path other : Path} (text : Text)
    (equal : path.same other = true) : (listing.insert path text).find? other = some text := by
  simp [insert, find?, equal]

/-- A file that is taken out is not found any more. -/
theorem find?_erase_same {listing : Listing} {path other : Path}
    (equal : path.same other = true) : (listing.erase path).find? other = none := by
  have parts := Path.same_iff.mp equal
  unfold find? erase
  rw [List.find?_eq_none.mpr]
  · rfl
  · intro entry member found
    have kept := (List.mem_filter.mp member).2
    have entryParts := Path.same_iff.mp found
    have erased : entry.1.same path = true := Path.same_iff.mpr (entryParts.trans parts.symm)
    simp [erased] at kept

/-- Taking a file out leaves every other one. -/
theorem find?_erase_other {listing : Listing} {path other : Path}
    (different : path.same other = false) :
    (listing.erase path).find? other = listing.find? other := by
  unfold find? erase
  rw [List.find?_filter]
  congr 1
  congr 1
  funext entry
  cases found : entry.1.same other with
  | false => simp
  | true =>
      cases erased : entry.1.same path with
      | false => rfl
      | true =>
          have parts := (Path.same_iff.mp erased).symm.trans (Path.same_iff.mp found)
          rw [Path.same_iff.mpr parts] at different
          cases different

/-- Putting a file in leaves every other one. -/
theorem find?_insert_other {listing : Listing} {path other : Path} (text : Text)
    (different : path.same other = false) :
    (listing.insert path text).find? other = listing.find? other := by
  have elsewhere := @find?_erase_other listing _ _ different
  unfold insert find? at *
  rw [List.find?_cons_of_neg (by simp [different])]
  exact elsewhere

/-- The number of files. -/
def size (listing : Listing) : Nat :=
  listing.entries.length

/-- The listed files as a site. -/
def toSite (listing : Listing) (addressing : Addressing) : Site where
  locate := Site.locateIn addressing fun path => (listing.find? path).isSome
  read path :=
    match listing.find? path with
    | some text => .ok text
    | none => .error (.storage (.unlisted path))
  holds path := (listing.find? path).isSome
  address := addressing.address
  fileCount := listing.size

/-- What a listed site locates is the candidate, and it is listed. -/
theorem exists_of_locate {listing : Listing} {addressing : Addressing} {placeholder : Placeholder}
    {path : Path} (located : (listing.toSite addressing).locate placeholder = .ok path) :
    path = addressing.candidate placeholder.kind placeholder.name ∧
      ∃ text, listing.find? path = some text := by
  simp only [toSite, Site.locateIn] at located
  split at located
  · rename_i held
    cases located
    exact ⟨rfl, Option.isSome_iff_exists.mp held⟩
  · cases located

theorem find?_of_read {listing : Listing} {addressing : Addressing} {path : Path} {text : Text}
    (found : (listing.toSite addressing).read path = .ok text) :
    listing.find? path = some text := by
  simp only [toSite] at found
  split at found
  · rename_i contents listed
    cases found
    exact listed
  · cases found

end Listing
end PageComposer
