import Mathlib.Data.List.Induction
import PageComposer.Proofs.Path.Joining
import PageComposer.Proofs.Text.Field

namespace PageComposer

/-!
# Names below a folder

A path below a folder is made by joining names to it one by one
(`Path.descend`), as a walk through a file tree does.  That is the same as
joining them all at once with slashes between them (`descend_eq_join`), adds the
names to the parts of the folder (`parts_descend`), and is undone by
`relativeTo?` (`relativeTo?_join`).

Names are parts that can be written between slashes, and so is `..`
(`Part.IsInner`).  Such parts are read back from the text that joins them
(`partsOf_joinWith_inner`).
-/

/-- A segment that names something in a folder. -/
structure IsName (name : Text) : Prop where
  nonempty : name ≠ []
  notHere : name ≠ ['.']
  notUp : name ≠ ['.', '.']
  unslashed : '/' ∉ name
  unended : '\x00' ∉ name

instance (name : Text) : Decidable (IsName name) :=
  decidable_of_iff
    (name ≠ [] ∧ name ≠ ['.'] ∧ name ≠ ['.', '.'] ∧ '/' ∉ name ∧ '\x00' ∉ name)
    ⟨fun ⟨nonempty, notHere, notUp, unslashed, unended⟩ =>
      ⟨nonempty, notHere, notUp, unslashed, unended⟩,
    fun named => ⟨named.nonempty, named.notHere, named.notUp, named.unslashed, named.unended⟩⟩

theorem IsName.not_isFiller {name : Text} (named : IsName name) :
    Path.isFiller name = false := by
  simp [Path.isFiller, named.nonempty, named.notHere]

theorem IsName.ofSegment {name : Text} (named : IsName name) :
    Part.ofSegment name = .name name :=
  if_neg named.notUp

/-- The names of a list are names. -/
def AreNames (names : List Text) : Prop :=
  ∀ name ∈ names, IsName name

instance (names : List Text) : Decidable (AreNames names) :=
  inferInstanceAs (Decidable (∀ name ∈ names, IsName name))

theorem AreNames.of_append {front back : List Text} (named : AreNames (front ++ back)) :
    AreNames front ∧ AreNames back :=
  List.forall_mem_append.mp named

/-- A part that can be written between two slashes. -/
structure Part.IsInner (part : Part) : Prop where
  denotes : Path.isFiller part.text = false
  unslashed : '/' ∉ part.text
  read : Part.ofSegment part.text = part

theorem Part.isInner_up : Part.up.IsInner := by
  refine ⟨?_, ?_, ?_⟩ <;> decide

theorem Part.IsInner.text_ne_nil {part : Part} (inner : part.IsInner) : part.text ≠ [] := by
  intro empty
  have denotes := inner.denotes
  rw [empty] at denotes
  cases denotes

theorem IsName.isInner {name : Text} (named : IsName name) : (Part.name name).IsInner :=
  ⟨named.not_isFiller, named.unslashed, named.ofSegment⟩

/-- The parts of a list can all be written between slashes. -/
def AreInner (parts : List Part) : Prop :=
  ∀ part ∈ parts, part.IsInner

theorem AreNames.areInner {names : List Text} (named : AreNames names) :
    AreInner (names.map Part.name) := by
  intro part member
  rcases List.mem_map.mp member with ⟨name, within, equal⟩
  exact equal ▸ (named name within).isInner

theorem map_text_names (names : List Text) : (names.map Part.name).map Part.text = names := by
  rw [List.map_map]
  exact List.map_id names

namespace Path

/-! ## Parts of segments -/

/-- The parts that segments stand for. -/
def partsOfSegments (segments : List Text) : List Part :=
  (segments.filter fun segment => !isFiller segment).map Part.ofSegment

theorem partsOf_eq (text : Text) : partsOf text = partsOfSegments (text.splitOn '/') := rfl

theorem parts_eq_segments (path : Path) :
    path.parts = path.start.parts ++ partsOfSegments path.segments := rfl

@[simp] theorem partsOfSegments_nil : partsOfSegments [] = [] := rfl

@[simp] theorem partsOfSegments_append (front back : List Text) :
    partsOfSegments (front ++ back) = partsOfSegments front ++ partsOfSegments back := by
  unfold partsOfSegments
  rw [List.filter_append, List.map_append]

theorem partsOfSegments_cons_filler {segment : Text} (filler : isFiller segment = true)
    (segments : List Text) : partsOfSegments (segment :: segments) = partsOfSegments segments := by
  unfold partsOfSegments
  rw [List.filter_cons_of_neg (by simp [filler])]

theorem partsOfSegments_cons {segment : Text} (denotes : isFiller segment = false)
    (segments : List Text) :
    partsOfSegments (segment :: segments) =
      Part.ofSegment segment :: partsOfSegments segments := by
  unfold partsOfSegments
  rw [List.filter_cons_of_pos (by simp [denotes]), List.map_cons]

theorem partsOfSegments_eq_nil_iff {segments : List Text} :
    partsOfSegments segments = [] ↔ ∀ segment ∈ segments, isFiller segment = true := by
  unfold partsOfSegments
  rw [List.map_eq_nil_iff, List.filter_eq_nil_iff]
  simp

theorem partsOfSegments_inner {parts : List Part} (inner : AreInner parts) :
    partsOfSegments (parts.map Part.text) = parts := by
  induction parts with
  | nil => rfl
  | cons part others inductionHypothesis =>
      have both := List.forall_mem_cons.mp inner
      rw [List.map_cons, partsOfSegments_cons both.1.denotes, both.1.read,
        inductionHypothesis both.2]

/-- What stands between the slashes of a text are inner parts. -/
theorem areInner_partsOf (text : Text) : AreInner (partsOf text) := by
  intro part member
  rcases List.mem_map.mp member with ⟨segment, kept, equal⟩
  have both := List.mem_filter.mp kept
  have denotes : isFiller segment = false := by simpa using both.2
  subst equal
  by_cases up : segment = ['.', '.']
  · subst up
    exact Part.isInner_up
  · have named : Part.ofSegment segment = .name segment := if_neg up
    rw [named]
    exact ⟨denotes, Text.separator_not_mem_of_mem_splitOn both.1, named⟩

theorem partsOfSegments_dropWhile (segments : List Text) :
    partsOfSegments (segments.dropWhile isFiller) = partsOfSegments segments := by
  induction segments with
  | nil => rfl
  | cons segment others inductionHypothesis =>
      cases filler : isFiller segment with
      | true =>
          rw [List.dropWhile_cons_of_pos filler, inductionHypothesis,
            partsOfSegments_cons_filler filler]
      | false => rw [List.dropWhile_cons_of_neg (by simp [filler])]

theorem partsOfSegments_reverse (segments : List Text) :
    partsOfSegments segments.reverse = (partsOfSegments segments).reverse := by
  unfold partsOfSegments
  rw [List.filter_reverse, List.map_reverse]

/-- The segments of a path before and behind a slash. -/
theorem segments_append_slash (before rest : Text) :
    (before = [] ∧ segments ⟨before ++ '/' :: rest⟩ = rest.splitOn '/') ∨
      (before ≠ [] ∧ start ⟨before ++ '/' :: rest⟩ = start ⟨before⟩ ∧
        segments ⟨before ++ '/' :: rest⟩ = segments ⟨before⟩ ++ rest.splitOn '/') := by
  by_cases empty : before = []
  · refine Or.inl ⟨empty, ?_⟩
    rw [empty]
    rfl
  · have same := start_append_slash empty rest
    refine Or.inr ⟨empty, same, ?_⟩
    have short : (start ⟨before⟩).text.length ≤ before.length := by
      have joined := congrArg List.length (start_text_append_drop ⟨before⟩)
      rw [List.length_append] at joined
      dsimp only at joined
      omega
    unfold segments
    rw [same, List.drop_append_of_le_length short, List.splitOn_append_cons_self]

/-! ## Names joined to a path -/

theorem joinWith_singleton (name : Text) : Text.joinWith ['/'] [name] = name := by
  simp [Text.joinWith, List.intercalate]

theorem joinWith_concat {names : List Text} (nonempty : names ≠ []) (name : Text) :
    Text.joinWith ['/'] (names ++ [name]) = Text.joinWith ['/'] names ++ '/' :: name := by
  rw [joinWith_append nonempty (by simp), joinWith_singleton]

theorem joinWith_concat_append (front : List Text) (last more : Text) :
    Text.joinWith ['/'] (front ++ [last ++ more]) =
      Text.joinWith ['/'] (front ++ [last]) ++ more := by
  by_cases alone : front = []
  · rw [alone, List.nil_append, List.nil_append, joinWith_singleton, joinWith_singleton]
  · rw [joinWith_concat alone, joinWith_concat alone, List.append_assoc,
      List.cons_append]

theorem splitOn_joinWith_inner {parts : List Part} (inner : AreInner parts)
    (nonempty : parts ≠ []) :
    (Text.joinWith ['/'] (parts.map Part.text)).splitOn '/' = parts.map Part.text := by
  refine List.splitOn_intercalate '/' ?_ (by simpa using nonempty)
  intro segment member
  rcases List.mem_map.mp member with ⟨part, within, equal⟩
  exact equal ▸ (inner part within).unslashed

theorem splitOn_joinWith {names : List Text} (named : AreNames names) (nonempty : names ≠ []) :
    (Text.joinWith ['/'] names).splitOn '/' = names := by
  have split := splitOn_joinWith_inner named.areInner (by simpa using nonempty)
  rwa [map_text_names] at split

/-- Inner parts are read back from the text that joins them. -/
theorem partsOf_joinWith_inner {parts : List Part} (inner : AreInner parts) :
    partsOf (Text.joinWith ['/'] (parts.map Part.text)) = parts := by
  by_cases empty : parts = []
  · rw [empty]
    exact partsOf_nil
  · rw [partsOf_eq, splitOn_joinWith_inner inner empty, partsOfSegments_inner inner]

theorem partsOf_joinWith {names : List Text} (named : AreNames names) :
    partsOf (Text.joinWith ['/'] names) = names.map Part.name := by
  have read := partsOf_joinWith_inner named.areInner
  rwa [map_text_names] at read

theorem partsOf_name {name : Text} (named : IsName name) : partsOf name = [.name name] := by
  rw [partsOf_eq, List.splitOn_eq_singleton named.unslashed,
    partsOfSegments_cons named.not_isFiller, named.ofSegment, partsOfSegments_nil]

theorem isAbsolute_iff {path : Path} : path.isAbsolute = true ↔ path.text.head? = some '/' := by
  unfold isAbsolute start
  split
  · rename_i equal
    simp [equal]
  · rename_i equal
    simp [equal]
  · rename_i equal
    simp [equal]
  · rename_i other _ _
    rw [List.head?_eq_some_iff]
    constructor
    · intro impossible
      cases impossible
    · rintro ⟨rest, equal⟩
      exact absurd equal (other rest)

theorem text_ne_nil_of_isAbsolute {path : Path} (absolute : path.isAbsolute = true) :
    path.text ≠ [] := by
  intro empty
  rw [isAbsolute_iff, empty] at absolute
  cases absolute

/-- A text of inner parts begins with a segment. -/
theorem start_joinWith_inner {parts : List Part} (inner : AreInner parts) :
    start ⟨Text.joinWith ['/'] (parts.map Part.text)⟩ = .nothing := by
  cases parts with
  | nil => rfl
  | cons first others =>
      have part := inner first List.mem_cons_self
      have alone : start ⟨first.text⟩ = .nothing := by
        have denotes := part.denotes
        have unslashed := part.unslashed
        unfold start
        generalize first.text = segment at denotes unslashed
        dsimp only
        split
        · exact absurd List.mem_cons_self unslashed
        · exact absurd denotes (by decide)
        · exact absurd (List.mem_cons_of_mem '.' List.mem_cons_self) unslashed
        · rfl
      by_cases single : others = []
      · rw [single, List.map_singleton, joinWith_singleton]
        exact alone
      · rw [List.map_cons, joinWith_cons (by simpa using single),
          start_append_slash part.text_ne_nil]
        exact alone

theorem isAbsolute_joinWith_inner {parts : List Part} (inner : AreInner parts) :
    isAbsolute ⟨Text.joinWith ['/'] (parts.map Part.text)⟩ = false := by
  rw [isAbsolute, start_joinWith_inner inner]
  rfl

theorem isAbsolute_joinWith {names : List Text} (named : AreNames names) :
    isAbsolute ⟨Text.joinWith ['/'] names⟩ = false := by
  have relative := isAbsolute_joinWith_inner named.areInner
  rwa [map_text_names] at relative

theorem isAbsolute_name {name : Text} (named : IsName name) : isAbsolute ⟨name⟩ = false := by
  have single := @isAbsolute_joinWith [name] (by simpa [AreNames] using named)
  rwa [joinWith_singleton] at single

theorem fileName?_name {name : Text} (named : IsName name) : fileName? ⟨name⟩ = some name := by
  have single : AreNames [name] := by simpa [AreNames] using named
  have begin := start_joinWith_inner single.areInner
  rw [map_text_names, joinWith_singleton] at begin
  unfold fileName?
  rw [parts_eq, begin, partsOf_name named]
  rfl

variable {base path : Path}

/-- What is joined to a base stands behind a slash there. -/
theorem exists_join_text (nonempty : base.text ≠ []) :
    ∃ before, (base.text = before ∨ base.text = before ++ ['/']) ∧
      ∀ path : Path, path.isAbsolute = false ->
        base.join path = ⟨before ++ '/' :: path.text⟩ := by
  by_cases ends : base.text.getLast? = some '/'
  · rcases List.getLast?_eq_some_iff.mp ends with ⟨before, equal⟩
    refine ⟨before, Or.inr equal, fun path relative => ?_⟩
    rw [join, if_neg (by simp [relative]), if_pos (Or.inr ends), equal, List.append_assoc]
    rfl
  · refine ⟨base.text, Or.inl rfl, fun path relative => ?_⟩
    rw [join, if_neg (by simp [relative]), if_neg (by simp [nonempty, ends])]

theorem start_join (nonempty : base.text ≠ []) (relative : path.isAbsolute = false) :
    (base.join path).start = base.start := by
  rcases exists_join_text nonempty with ⟨before, ends, joined⟩
  rw [joined path relative]
  rcases base with ⟨text⟩
  dsimp only at nonempty ends
  rcases ends with same | slash
  · rw [same] at nonempty ⊢
    exact start_append_slash nonempty path.text
  · rw [slash]
    exact start_of_slash before path.text []

theorem join_text_ne_nil (nonempty : base.text ≠ []) : (base.join path).text ≠ [] := by
  by_cases absolute : path.isAbsolute = true
  · rw [join, if_pos absolute]
    intro empty
    rw [isAbsolute_iff, empty] at absolute
    cases absolute
  · rw [Bool.not_eq_true] at absolute
    rcases exists_join_text nonempty with ⟨before, _, joined⟩
    rw [joined path absolute]
    simp

theorem byteSize_join_le (base : Path) (name : Text) :
    Text.byteSize (base.join ⟨name⟩).text ≤ Text.byteSize base.text + (Text.byteSize name + 1) := by
  unfold join
  split
  · exact Nat.le_trans (Nat.le_succ _) (Nat.le_add_left _ _)
  · split
    · dsimp only
      rw [Text.byteSize_append]
      omega
    · have slash : Char.utf8Size '/' = 1 := by decide
      dsimp only
      rw [Text.byteSize_append, Text.byteSize_cons, slash]
      omega

theorem getLast?_append_nonempty (front : Text) {back : Text} (nonempty : back ≠ []) :
    (front ++ back).getLast? = back.getLast? := by
  rw [List.getLast?_append, List.getLast?_eq_some_getLast nonempty]
  rfl

theorem join_join {name : Text} (nonempty : path.text ≠ []) (relative : path.isAbsolute = false)
    (named : IsName name) (unslashed : path.text.getLast? ≠ some '/') :
    (base.join path).join ⟨name⟩ = base.join ⟨path.text ++ '/' :: name⟩ := by
  have both : isAbsolute ⟨path.text ++ '/' :: name⟩ = false := by
    rw [← relative, isAbsolute, isAbsolute, start_append_slash nonempty]
  have ends : ((base.join path).text).getLast? = path.text.getLast? := by
    unfold join
    rw [relative]
    simp only [Bool.false_eq_true, if_false]
    split
    · exact getLast?_append_nonempty _ nonempty
    · rw [getLast?_append_nonempty _ (by simp), List.getLast?_cons_of_ne_nil nonempty]
  have joined : (base.join path).text ≠ [] := by
    intro empty
    rw [empty] at ends
    exact nonempty (List.getLast?_eq_none_iff.mp ends.symm)
  have inner : (base.join path).join ⟨name⟩ = ⟨(base.join path).text ++ '/' :: name⟩ := by
    rw [join, isAbsolute_name named, ends]
    simp [joined, unslashed]
  rw [inner]
  unfold join
  rw [relative, both]
  simp only [Bool.false_eq_true, if_false]
  split
  · rw [List.append_assoc]
  · rw [List.append_assoc, List.cons_append]

/-- The path to what the names lead to from a folder. -/
def descend (folder : Path) (names : List Text) : Path :=
  names.foldl (fun folder name => folder.join ⟨name⟩) folder

@[simp] theorem descend_nil (folder : Path) : folder.descend [] = folder := rfl

theorem descend_append (folder : Path) (front back : List Text) :
    folder.descend (front ++ back) = (folder.descend front).descend back :=
  List.foldl_append

theorem descend_concat (folder : Path) (names : List Text) (name : Text) :
    folder.descend (names ++ [name]) = (folder.descend names).join ⟨name⟩ :=
  descend_append folder names [name]

theorem getLast?_joinWith {names : List Text} (named : AreNames names) (nonempty : names ≠ []) :
    (Text.joinWith ['/'] names).getLast? ≠ some '/' := by
  rcases List.eq_nil_or_concat names with empty | ⟨front, last, equal⟩
  · exact absurd empty nonempty
  · have name : IsName last := named last (by rw [equal]; simp)
    have ends : (Text.joinWith ['/'] names).getLast? = last.getLast? := by
      rw [equal, List.concat_eq_append]
      by_cases alone : front = []
      · rw [alone, List.nil_append, joinWith_singleton]
      · rw [joinWith_concat alone, getLast?_append_nonempty _ (by simp),
          List.getLast?_cons_of_ne_nil name.nonempty]
    rw [ends]
    exact fun slash => name.unslashed (List.mem_of_getLast? slash)

theorem joinWith_ne_nil {names : List Text} (named : AreNames names) (nonempty : names ≠ []) :
    Text.joinWith ['/'] names ≠ [] := by
  intro empty
  have split := splitOn_joinWith named nonempty
  rw [empty] at split
  exact (named [] (by rw [← split]; decide)).nonempty rfl

/-- Joining names one by one is joining them with slashes between them. -/
theorem descend_eq_join (folder : Path) {names : List Text} (named : AreNames names)
    (nonempty : names ≠ []) :
    folder.descend names = folder.join ⟨Text.joinWith ['/'] names⟩ := by
  induction names using List.reverseRecOn with
  | nil => exact absurd rfl nonempty
  | append_singleton front last inductionHypothesis =>
      have both := named.of_append
      rw [descend_concat]
      by_cases alone : front = []
      · rw [alone, List.nil_append, joinWith_singleton, descend_nil]
      · rw [inductionHypothesis both.1 alone, joinWith_concat alone]
        exact join_join (joinWith_ne_nil both.1 alone) (isAbsolute_joinWith both.1)
          (both.2 last List.mem_cons_self) (getLast?_joinWith both.1 alone)

theorem parts_join_name (nonempty : base.text ≠ []) {name : Text} (named : IsName name) :
    (base.join ⟨name⟩).parts = base.parts ++ [.name name] := by
  rw [parts_join nonempty (isAbsolute_name named), partsOf_name named]

theorem parts_join_names (nonempty : base.text ≠ []) {names : List Text}
    (named : AreNames names) :
    (base.join ⟨Text.joinWith ['/'] names⟩).parts = base.parts ++ names.map Part.name := by
  rw [parts_join nonempty (isAbsolute_joinWith named), partsOf_joinWith named]

theorem parts_descend {folder : Path} (nonempty : folder.text ≠ []) {names : List Text}
    (named : AreNames names) :
    (folder.descend names).parts = folder.parts ++ names.map Part.name := by
  by_cases empty : names = []
  · rw [empty]
    simp
  · rw [descend_eq_join folder named empty, parts_join_names nonempty named]

theorem fileName?_descend {folder : Path} (nonempty : folder.text ≠ []) {names : List Text}
    {name : Text} (named : AreNames (names ++ [name])) :
    (folder.descend (names ++ [name])).fileName? = some name := by
  unfold fileName?
  rw [parts_descend nonempty named]
  simp

end Path
end PageComposer
