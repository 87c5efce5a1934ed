import PageComposer.Proofs.FileTree.Plain

namespace PageComposer
namespace FileTree

/-!
# Looking up paths in trees without links

A path that leads to a folder is followed by way of folders (`LeadsTo`).  What a
name leads to from there is read off at the place of the folder (`find_join`),
and so is whether names lead to a file (`isFile_join_names_iff`).
-/

variable {tree : FileTree} {place : Place}

/-- The place that a path spells. -/
def placeTo (tree : FileTree) (path : Path) : Place :=
  placeFrom tree.workingFolder path.parts

/-- The folder that a path is followed from. -/
def startPlace (tree : FileTree) (path : Path) : Place :=
  if path.isAbsolute then [] else tree.workingFolder

variable {path base : Path} {purpose : Purpose}

theorem placeTo_eq (tree : FileTree) (path : Path) :
    tree.placeTo path = placeFrom (tree.startPlace path) (Path.partsOf path.text) := by
  unfold placeTo startPlace Path.isAbsolute
  rw [Path.parts_eq, placeFrom_append]
  cases path.start <;> rfl

theorem shortNames_parts_iff {path : Path} :
    ShortNames path.parts ↔ ShortNames (Path.partsOf path.text) := by
  rw [Path.parts_eq]
  cases path.start <;> simp [ShortNames, Path.Start.parts]

theorem opens_parts_iff (plain : tree.IsPlain) :
    tree.Opens tree.workingFolder path.parts ↔
      tree.Opens (tree.startPlace path) (Path.partsOf path.text) := by
  unfold startPlace Path.isAbsolute
  rw [Path.parts_eq, opens_append]
  cases path.start with
  | nothing => simp [Path.Start.parts, Opens]
  | root => simp [Path.Start.parts, Opens, stepFrom, itemAt?_root]
  | here => simp [Path.Start.parts, Opens, stepFrom, plain.working]

theorem folder_startPlace (plain : tree.IsPlain) :
    tree.itemAt? (tree.startPlace path) = some .folder := by
  unfold startPlace
  split
  · exact itemAt?_root tree
  · exact plain.working

theorem find_eq (nonempty : path.text ≠ []) (unended : '\x00' ∉ path.text)
    (fits : Text.byteSize path.text ≤ maxPathSize) :
    tree.find purpose path =
      tree.followWith purpose (tree.follow purpose (maxLinks - 1)) (tree.startPlace path)
        (path.text.splitOn '/') := by
  unfold find
  rw [if_neg, if_neg, if_neg (Nat.not_lt.mpr fits)]
  · rfl
  · simpa using nonempty
  · simpa using unended

/-- A text that can be a path. -/
structure IsSpelled (path : Path) : Prop where
  nonempty : path.text ≠ []
  unended : '\x00' ∉ path.text
  fits : Text.byteSize path.text ≤ maxPathSize

theorem isSpelled_of_find {found : Found} (located : tree.find purpose path = .ok found) :
    IsSpelled path := by
  unfold find at located
  split at located
  · cases located
  · split at located
    · cases located
    · split at located
      · cases located
      · rename_i zero empty long
        exact ⟨by simpa using empty, by simpa using zero, Nat.le_of_not_lt long⟩

/-- In a plain tree a path leads to the place that its parts spell. -/
theorem find_lands (plain : tree.IsPlain) {found : Found}
    (located : tree.find purpose path = .ok found) :
    tree.Lands tree.workingFolder path.parts found ∧ ShortNames path.parts := by
  have spelled := isSpelled_of_find located
  rw [find_eq spelled.nonempty spelled.unended spelled.fits] at located
  have lands := followWith_lands plain (folder_startPlace plain) located
  rw [← Path.partsOf_eq] at lands
  refine ⟨?_, shortNames_parts_iff.mpr lands.2⟩
  have landed := lands.1
  unfold startPlace Path.isAbsolute at landed
  rw [Path.parts_eq]
  cases starts : path.start with
  | nothing =>
      rw [starts] at landed
      exact landed
  | root =>
      rw [starts] at landed
      exact landed.cons (itemAt?_root tree)
  | here =>
      rw [starts] at landed
      exact landed.cons plain.working

theorem placeTo_of_find {purpose : Purpose} {path : Path} {found : Found} (plain : tree.IsPlain)
    (located : tree.find purpose path = .ok found) :
    found = .present (tree.placeTo path) ∨ found = .absent (tree.placeTo path) := by
  cases (find_lands plain located).1 with
  | present => exact Or.inl rfl
  | absent => exact Or.inr rfl

/-- A path that leads to the folder at a place, unless it is too long. -/
structure LeadsTo (tree : FileTree) (base : Path) (place : Place) : Prop where
  nonempty : base.text ≠ []
  unended : '\x00' ∉ base.text
  opens : tree.Opens tree.workingFolder base.parts
  short : ShortNames base.parts
  spelled : tree.placeTo base = place

theorem LeadsTo.folder (plain : tree.IsPlain) (leads : tree.LeadsTo base place) :
    tree.itemAt? place = some .folder :=
  leads.spelled ▸ leads.opens.folder plain.working

theorem placeOf_eq_ok_iff : tree.placeOf path = .ok place ↔
    tree.find .look path = .ok (.present place) := by
  unfold placeOf
  cases tree.find .look path with
  | error fault => simp [bind, Except.bind]
  | ok found => cases found <;> simp [bind, Except.bind, pure, Except.pure, throw, throwThe,
      MonadExceptOf.throw]

theorem leadsTo_of_placeOf (plain : tree.IsPlain) (located : tree.placeOf path = .ok place)
    (folder : tree.itemAt? place = some .folder) : tree.LeadsTo path place := by
  rw [placeOf_eq_ok_iff] at located
  have spelled := isSpelled_of_find located
  have lands := find_lands plain located
  generalize found : Found.present place = landed at lands
  cases lands.1 with
  | absent _ _ _ => cases found
  | present opens there =>
      cases found
      refine ⟨spelled.nonempty, spelled.unended, ?_, lands.2, rfl⟩
      rcases List.eq_nil_or_concat path.parts with empty | ⟨front, last, equal⟩
      · rw [empty]
        trivial
      · rw [List.concat_eq_append] at equal
        rw [equal, List.dropLast_concat] at opens
        rw [equal, placeFrom_append] at folder
        rw [equal, opens_append]
        exact ⟨opens, folder, trivial⟩

theorem LeadsTo.eq_of_placeOf (plain : tree.IsPlain) (leads : tree.LeadsTo base place)
    {other : Place} (located : tree.placeOf base = .ok other) : other = place := by
  rcases placeTo_of_find plain (placeOf_eq_ok_iff.mp located) with same | impossible
  · cases same
    exact leads.spelled
  · cases impossible

theorem find_of_leadsTo (plain : tree.IsPlain) (leads : tree.LeadsTo base place)
    (looking : purpose ≠ .write) (fits : Text.byteSize base.text ≤ maxPathSize) :
    tree.find purpose base = .ok (.present place) := by
  rw [find_eq leads.nonempty leads.unended fits,
    followWith_of_opens looking ((opens_parts_iff plain).mp leads.opens)
      (shortNames_parts_iff.mp leads.short), ← Path.partsOf_eq, ← placeTo_eq, leads.spelled]

theorem LeadsTo.exists_join (leads : tree.LeadsTo base place) {name : Text}
    (named : IsName name) :
    ∃ before, base.join ⟨name⟩ = ⟨before ++ '/' :: name⟩ ∧ '\x00' ∉ before ++ '/' :: name ∧
      Path.partsOf before = Path.partsOf base.text := by
  rcases Path.exists_join_text leads.nonempty with ⟨before, ends, joined⟩
  refine ⟨before, joined _ (Path.isAbsolute_name named), ?_, ?_⟩
  · intro member
    rcases List.mem_append.mp member with inside | behind
    · rcases ends with same | slash
      · exact leads.unended (same ▸ inside)
      · exact leads.unended (slash ▸ List.mem_append_left _ inside)
    · exact (List.mem_cons.mp behind).elim (by decide) named.unended
  · rcases ends with same | slash
    · rw [same]
    · rw [slash, Path.partsOf_append_slash, Path.partsOf_nil, List.append_nil]

/-- What a name leads to from a folder is read off at its place. -/
theorem find_join (plain : tree.IsPlain) (leads : tree.LeadsTo base place) {name : Text}
    (named : IsName name) :
    tree.find purpose (base.join ⟨name⟩) =
      if maxPathSize < Text.byteSize (base.join ⟨name⟩).text then .error .nameTooLong
      else if maxNameSize < Text.byteSize name then .error .nameTooLong
      else if tree.itemAt? (place ++ [name]) = none then .ok (.absent (place ++ [name]))
      else .ok (.present (place ++ [name])) := by
  rcases leads.exists_join named with ⟨before, joined, unended, sameParts⟩
  have sameStart : tree.startPlace (base.join ⟨name⟩) = tree.startPlace base := by
    unfold startPlace Path.isAbsolute
    rw [Path.start_join leads.nonempty (Path.isAbsolute_name named)]
  have opens := (opens_parts_iff plain).mp leads.opens
  have short := shortNames_parts_iff.mp leads.short
  have spelled := leads.spelled
  rw [placeTo_eq, ← sameParts, Path.partsOf_eq] at spelled
  rw [← sameParts, Path.partsOf_eq] at opens short
  rw [joined] at sameStart ⊢
  split
  · rename_i long
    unfold find
    rw [if_neg (by simpa using unended), if_neg (by simp), if_pos long]
  · rename_i fits
    rw [find_eq (by simp) unended (Nat.le_of_not_lt fits), sameStart,
      List.splitOn_append_cons_self, List.splitOn_eq_singleton named.unslashed,
      followWith_concat plain named opens short, spelled]

theorem LeadsTo.join (plain : tree.IsPlain) (leads : tree.LeadsTo base place) {name : Text}
    (folder : tree.itemAt? (place ++ [name]) = some .folder)
    (short : Text.byteSize name ≤ maxNameSize) :
    tree.LeadsTo (base.join ⟨name⟩) (place ++ [name]) := by
  have named := (plain.parent (by rw [folder]; simp)).2
  have parts := Path.parts_join_name leads.nonempty named
  have spelled := leads.spelled
  unfold placeTo at spelled
  rcases leads.exists_join named with ⟨before, joined, unended, _⟩
  refine ⟨by rw [joined]; simp, by rw [joined]; exact unended, ?_, ?_, ?_⟩
  · rw [parts, opens_append, spelled]
    exact ⟨leads.opens, folder, trivial⟩
  · rw [parts]
    intro other member
    rcases List.mem_append.mp member with inside | last
    · exact leads.short other inside
    · cases List.mem_singleton.mp last
      exact short
  · rw [placeTo, parts, placeFrom_append, spelled]
    rfl

/-- Names that are not too long. -/
def AreShort (names : List Text) : Prop :=
  ∀ name ∈ names, Text.byteSize name ≤ maxNameSize

theorem LeadsTo.descend (plain : tree.IsPlain) (leads : tree.LeadsTo base place)
    {names : List Text} (short : AreShort names)
    (folder : tree.itemAt? (place ++ names) = some .folder) :
    tree.LeadsTo (base.descend names) (place ++ names) := by
  induction names using List.reverseRecOn with
  | nil => rwa [List.append_nil]
  | append_singleton front last inductionHypothesis =>
      have both := List.forall_mem_append.mp short
      rw [← List.append_assoc] at folder ⊢
      rw [Path.descend_concat]
      have above := (plain.parent (by rw [folder]; simp)).1
      exact (inductionHypothesis both.1 above).join plain folder
        (both.2 last List.mem_cons_self)

/-- Whether a name may be looked up from a folder. -/
def Fits (base : Path) (name : Text) : Prop :=
  Text.byteSize (base.join ⟨name⟩).text ≤ maxPathSize ∧ Text.byteSize name ≤ maxNameSize

instance (base : Path) (name : Text) : Decidable (Fits base name) :=
  inferInstanceAs (Decidable (_ ∧ _))

theorem placeOf_join (plain : tree.IsPlain) (leads : tree.LeadsTo base place) {name : Text}
    (named : IsName name) :
    tree.placeOf (base.join ⟨name⟩) =
      if ¬ Fits base name then .error .nameTooLong
      else if tree.itemAt? (place ++ [name]) = none then .error .notFound
      else .ok (place ++ [name]) := by
  unfold placeOf Fits
  rw [find_join plain leads named]
  by_cases long : maxPathSize < Text.byteSize (base.join ⟨name⟩).text
  · rw [if_pos long, if_pos (fun fits => Nat.not_lt.mpr fits.1 long)]
    rfl
  · rw [if_neg long]
    by_cases longName : maxNameSize < Text.byteSize name
    · rw [if_pos longName, if_pos (fun fits => Nat.not_lt.mpr fits.2 longName)]
      rfl
    · rw [if_neg longName,
        if_neg (not_not_intro ⟨Nat.le_of_not_lt long, Nat.le_of_not_lt longName⟩)]
      split <;> rfl

theorem itemOf?_join (plain : tree.IsPlain) (leads : tree.LeadsTo base place) {name : Text}
    (named : IsName name) :
    tree.itemOf? (base.join ⟨name⟩) =
      if Fits base name then tree.itemAt? (place ++ [name]) else none := by
  unfold itemOf?
  rw [placeOf_join plain leads named]
  by_cases fits : Fits base name
  · rw [if_neg (not_not_intro fits), if_pos fits]
    split
    · rename_i equal
      split at equal
      · cases equal
      · cases equal
        rfl
    · rename_i equal
      split at equal
      · rename_i nothing
        exact nothing.symm
      · cases equal
  · rw [if_pos fits, if_neg fits]

/-- What is read where an item stands. -/
def contentOf : Option Item -> Except StorageFault Text.Bytes
  | some (.file bytes) => .ok bytes
  | some .folder => .error .isDirectory
  | _ => .error .notFound

theorem readBytes_join (plain : tree.IsPlain) (leads : tree.LeadsTo base place) {name : Text}
    (named : IsName name) :
    tree.readBytes (base.join ⟨name⟩) =
      if Fits base name then contentOf (tree.itemAt? (place ++ [name]))
      else .error .nameTooLong := by
  unfold readBytes
  rw [placeOf_join plain leads named]
  by_cases fits : Fits base name
  · rw [if_neg (not_not_intro fits), if_pos fits]
    cases found : tree.itemAt? (place ++ [name]) with
    | none => rfl
    | some item =>
        dsimp only [bind, Except.bind, reduceCtorEq, if_false]
        rw [if_neg (by simp)]
        dsimp only
        rw [found]
        cases item <;> rfl
  · rw [if_pos fits, if_neg fits]
    rfl

theorem isFolder_join_iff (plain : tree.IsPlain) (leads : tree.LeadsTo base place) {name : Text}
    (named : IsName name) :
    tree.isFolder (base.join ⟨name⟩) = true ↔
      Fits base name ∧ tree.itemAt? (place ++ [name]) = some .folder := by
  unfold isFolder
  rw [beq_iff_eq, itemOf?_join plain leads named]
  split
  · rename_i fits
    simp [fits]
  · rename_i long
    simp [long]

theorem isFile_iff {path : Path} : tree.isFile path = true ↔
    ∃ place bytes, tree.placeOf path = .ok place ∧ tree.itemAt? place = some (.file bytes) := by
  unfold isFile itemOf?
  cases located : tree.placeOf path with
  | error fault => simp
  | ok place =>
      dsimp only
      cases found : tree.itemAt? place with
      | none => simp [found]
      | some item => cases item <;> simp [found]

theorem isFolder_iff {path : Path} : tree.isFolder path = true ↔
    ∃ place, tree.placeOf path = .ok place ∧ tree.itemAt? place = some .folder := by
  unfold isFolder itemOf?
  cases tree.placeOf path with
  | error fault => simp
  | ok place => simp

/-- Whether names lead to a file from a folder is read off at their place. -/
theorem isFile_join_names_iff (plain : tree.IsPlain) (leads : tree.LeadsTo base place)
    {names : List Text} (named : AreNames names) (nonempty : names ≠ []) :
    tree.isFile (base.join ⟨Text.joinWith ['/'] names⟩) = true ↔
      Text.byteSize (base.join ⟨Text.joinWith ['/'] names⟩).text ≤ maxPathSize ∧
        AreShort names ∧ ∃ bytes, tree.itemAt? (place ++ names) = some (.file bytes) := by
  have parts := Path.parts_join_names leads.nonempty named
  constructor
  · intro file
    rcases isFile_iff.mp file with ⟨found, bytes, located, item⟩
    have located := placeOf_eq_ok_iff.mp located
    have lands := find_lands plain located
    have spelled := leads.spelled
    unfold placeTo at spelled
    refine ⟨(isSpelled_of_find located).fits, ?_, bytes, ?_⟩
    · intro name member
      apply lands.2 name
      rw [parts]
      exact List.mem_append_right _ (List.mem_map_of_mem member)
    · generalize landed : Found.present found = place' at lands
      cases lands.1 with
      | absent _ _ _ => cases landed
      | present opens there =>
          cases landed
          rwa [parts, placeFrom_append, spelled, placeFrom_names] at item
  · rintro ⟨fits, short, bytes, item⟩
    rcases List.eq_nil_or_concat names with empty | ⟨front, last, equal⟩
    · exact absurd empty nonempty
    · rw [List.concat_eq_append] at equal
      rw [← Path.descend_eq_join base named nonempty] at fits ⊢
      rw [equal] at short item named fits ⊢
      rw [← List.append_assoc] at item
      rw [Path.descend_concat] at fits ⊢
      have both := List.forall_mem_append.mp short
      have above := (plain.parent (by rw [item]; simp)).1
      have leads := leads.descend plain both.1 above
      have name := named.of_append.2 last List.mem_cons_self
      refine isFile_iff.mpr ⟨place ++ front ++ [last], bytes, ?_, item⟩
      have within : Fits (base.descend front) last := ⟨fits, both.2 last List.mem_cons_self⟩
      rw [placeOf_join plain leads name, if_neg (not_not_intro within),
        if_neg (by rw [item]; simp)]

end FileTree
end PageComposer
