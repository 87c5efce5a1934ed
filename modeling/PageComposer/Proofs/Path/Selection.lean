import PageComposer.Proofs.Path.Canonical

namespace PageComposer
namespace Path

/-!
# What is selected from a path

A path that is made of segments of another has the parts that these segments
stand for (`parts_ofSegments`).  So the parent of a path lacks its last part
(`parts_parent?`), names joined to a path can be taken off again
(`relativeTo?_join`), and a file name gets its new extension in the place where
it stands (`replaceExtension_join`).
-/

/-! ## Segments that are kept -/

theorem joinWith_segments (path : Path) :
    path.start.text ++ Text.joinWith ['/'] path.segments = path.text := by
  unfold segments Text.joinWith
  rw [List.intercalate_splitOn, start_text_append_drop]

theorem start_ofSegments {path : Path} {kept more : List Text}
    (split : path.segments = kept ++ more) : (ofSegments path.start kept).start = path.start := by
  have whole := joinWith_segments path
  by_cases nothing : kept = []
  · rw [nothing, ofSegments]
    cases path.start <;> rfl
  · by_cases all : more = []
    · rw [split, all, List.append_nil] at whole
      rw [ofSegments, whole]
    · rw [split, joinWith_append nothing all, ← List.append_assoc] at whole
      by_cases empty : path.start.text ++ Text.joinWith ['/'] kept = []
      · have noStart := (List.append_eq_nil_iff.mp empty).1
        rw [ofSegments, empty]
        cases starts : path.start with
        | nothing => rfl
        | root =>
            rw [starts] at noStart
            cases noStart
        | here =>
            rw [starts] at noStart
            cases noStart
      · have same := start_append_slash empty (Text.joinWith ['/'] more)
        rw [whole] at same
        exact same.symm

/-- The first segments of a path stand for the same parts by themselves. -/
theorem parts_ofSegments {path : Path} {kept more : List Text}
    (split : path.segments = kept ++ more) :
    (ofSegments path.start kept).parts = path.start.parts ++ partsOfSegments kept := by
  have start := start_ofSegments split
  have single : ∀ segment ∈ kept, '/' ∉ segment := by
    intro segment member
    have within : segment ∈ path.segments := by
      rw [split]
      exact List.mem_append_left more member
    exact Text.separator_not_mem_of_mem_splitOn within
  rw [parts_eq_segments, start, segments, start, ofSegments, List.drop_left]
  by_cases nothing : kept = []
  · rw [nothing]
    exact congrArg _ partsOf_nil
  · rw [Text.joinWith, List.splitOn_intercalate '/' single nothing]

/-- The names among the parts of a path. -/
theorem isName_of_mem_parts {path : Path} {name : Text} (member : Part.name name ∈ path.parts)
    (unended : '\x00' ∉ path.text) : IsName name := by
  rcases List.mem_append.mp member with starts | behind
  · unfold Start.parts at starts
    split at starts <;> simp at starts
  · rcases List.mem_map.mp behind with ⟨segment, kept, equal⟩
    have both := List.mem_filter.mp kept
    unfold Part.ofSegment at equal
    split at equal
    · cases equal
    · rename_i notUp
      cases equal
      have denotes : name ≠ [] ∧ name ≠ ['.'] := by simpa [isFiller] using both.2
      refine ⟨denotes.1, denotes.2, notUp, Text.separator_not_mem_of_mem_splitOn both.1, ?_⟩
      intro zero
      have field := Text.field_of_mem_splitOn _ both.1
      exact unended (List.mem_of_mem_drop (field.isInfix.subset zero))

/-! ## Parents -/

/-- The parent of a path lacks its last part. -/
theorem parts_parent? {path parent : Path} (above : path.parent? = some parent) :
    ∃ part, path.parts = parent.parts ++ [part] := by
  have reversed := partsOfSegments_dropWhile path.segments.reverse
  rw [partsOfSegments_reverse] at reversed
  unfold parent? at above
  split at above
  · rename_i last before kept
    cases above
    have denotes : isFiller last = false := by
      rw [← Bool.not_eq_true]
      have first := List.head?_dropWhile_not isFiller path.segments.reverse
      rw [kept] at first
      simpa using first
    have split : ∃ more, path.segments = (before.dropWhile isFiller).reverse ++ more := by
      have trailing : before.dropWhile isFiller <:+ path.segments.reverse :=
        ((List.dropWhile_suffix isFiller).trans (List.suffix_cons last before)).trans
          (kept ▸ List.dropWhile_suffix isFiller)
      rcases List.reverse_prefix.mpr trailing with ⟨more, joined⟩
      exact ⟨more, by rw [joined, List.reverse_reverse]⟩
    rcases split with ⟨more, split⟩
    refine ⟨Part.ofSegment last, ?_⟩
    rw [parts_ofSegments split, parts_eq_segments, partsOfSegments_reverse,
      partsOfSegments_dropWhile, List.append_assoc]
    congr 1
    rw [kept, partsOfSegments_cons denotes] at reversed
    rw [← List.reverse_inj, ← reversed]
    simp
  · rename_i fillers
    split at above
    · rename_i here
      cases above
      refine ⟨.here, ?_⟩
      rw [fillers] at reversed
      rw [parts_eq_segments, here, ← List.reverse_reverse (partsOfSegments path.segments),
        ← reversed]
      rfl
    · cases above

/-! ## Paths below a base -/

/-- Without its parts a text has fillers left in front of what follows it. -/
theorem dropParts_append (front back : List Text) :
    ∃ fillers, dropParts (partsOfSegments front).length (front ++ back) = fillers ++ back ∧
      ∀ segment ∈ fillers, isFiller segment = true := by
  by_cases all : partsOfSegments front = []
  · refine ⟨front, ?_, partsOfSegments_eq_nil_iff.mp all⟩
    rw [all]
    cases front <;> cases back <;> rfl
  · induction front with
    | nil => exact absurd rfl all
    | cons segment others inductionHypothesis =>
        cases filler : isFiller segment with
        | true =>
            rw [partsOfSegments_cons_filler filler] at all ⊢
            rcases inductionHypothesis all with ⟨fillers, dropped, each⟩
            refine ⟨fillers, ?_, each⟩
            rw [← dropped]
            rcases List.exists_cons_of_ne_nil all with ⟨part, parts, equal⟩
            rw [equal, List.length_cons, List.cons_append, dropParts, if_pos filler]
        | false =>
            rw [partsOfSegments_cons filler, List.length_cons, List.cons_append, dropParts,
              if_neg (by simp [filler])]
            by_cases rest : partsOfSegments others = []
            · refine ⟨others, ?_, partsOfSegments_eq_nil_iff.mp rest⟩
              rw [rest]
              cases others <;> cases back <;> rfl
            · exact inductionHypothesis rest

theorem dropWhile_inner {parts : List Part} (inner : AreInner parts) :
    (parts.map Part.text).dropWhile isFiller = parts.map Part.text := by
  cases parts with
  | nil => rfl
  | cons part others =>
      exact List.dropWhile_cons_of_neg (by simp [(inner part List.mem_cons_self).denotes])

theorem dropFillerEnd_inner {parts : List Part} (inner : AreInner parts) :
    dropFillerEnd (parts.map Part.text) = parts.map Part.text := by
  have reversed : AreInner parts.reverse :=
    fun part member => inner part (List.mem_reverse.mp member)
  rw [dropFillerEnd, ← List.map_reverse, dropWhile_inner reversed, ← List.map_reverse,
    List.reverse_reverse]

theorem dropWhile_names {names : List Text} (named : AreNames names) :
    names.dropWhile isFiller = names := by
  have kept := dropWhile_inner named.areInner
  rwa [map_text_names] at kept

theorem dropFillerEnd_names {names : List Text} (named : AreNames names) :
    dropFillerEnd names = names := by
  have kept := dropFillerEnd_inner named.areInner
  rwa [map_text_names] at kept

/-- What a canonical path is relative to a base whose parts it begins with. -/
theorem relativeTo?_of_parts {path base : Path} (canonical : path.IsCanonical)
    (absolute : base.isAbsolute = true) {rest : List Part} (more : rest ≠ [])
    (parts : path.parts = base.parts ++ rest) :
    path.relativeTo? base = some ⟨Text.joinWith ['/'] (rest.map Part.text)⟩ := by
  have baseParts := parts_of_isAbsolute absolute
  generalize partsOf base.text = front at baseParts
  rcases canonical.exists_parts with ⟨inner, areInner, whole⟩
  have split : inner = front ++ rest := by
    rw [whole, baseParts] at parts
    exact (List.cons.inj parts).2
  subst split
  have both := List.forall_mem_append.mp areInner
  have start := start_of_isAbsolute canonical.absolute
  have segments : path.segments = front.map Part.text ++ rest.map Part.text := by
    rw [segments, start, canonical.text whole]
    exact (splitOn_joinWith_inner areInner (by simp [more])).trans List.map_append
  rcases dropParts_append (front.map Part.text) (rest.map Part.text) with ⟨fillers, dropped, each⟩
  rw [partsOfSegments_inner both.1] at dropped
  have leads : base.parts.isPrefixOf path.parts = true := by
    rw [List.isPrefixOf_iff_prefix, parts]
    exact List.prefix_append _ _
  have count : base.parts.length - path.start.parts.length = front.length := by
    rw [baseParts, start]
    rfl
  unfold relativeTo?
  rw [if_pos leads, if_neg (by simp [baseParts])]
  dsimp only
  rw [count, segments, dropped, List.dropWhile_append_of_pos each, dropWhile_inner both.2,
    dropFillerEnd_inner both.2]

/-- Behind a base the further parts of a canonical path lead to it. -/
theorem normalize_join_of_parts {path base : Path} (canonical : path.IsCanonical)
    (absolute : base.isAbsolute = true) {rest : List Part} (inner : AreInner rest)
    (parts : path.parts = base.parts ++ rest) :
    (base.join ⟨Text.joinWith ['/'] (rest.map Part.text)⟩).normalize = path := by
  rw [normalize, parts_join (text_ne_nil_of_isAbsolute absolute) (isAbsolute_joinWith_inner inner),
    partsOf_joinWith_inner inner, ← parts]
  exact canonical.normal

variable {base : Path} {names : List Text}

/-- Names that are joined to a base are segments behind those of the base. -/
theorem segments_join_names (nonempty : base.text ≠ []) (named : AreNames names)
    (inside : names ≠ []) :
    ∃ front, (base.join ⟨Text.joinWith ['/'] names⟩).segments = front ++ names ∧
      partsOfSegments front = partsOfSegments base.segments := by
  rcases exists_join_text nonempty with ⟨before, ends, joined⟩
  rw [joined _ (isAbsolute_joinWith named)]
  rcases base with ⟨baseText⟩
  dsimp only at ends nonempty
  rcases segments_append_slash before (Text.joinWith ['/'] names) with
    ⟨empty, segments⟩ | ⟨_, _, segments⟩
  · rw [splitOn_joinWith named inside] at segments
    rcases ends with noBase | slash
    · exact absurd (noBase.trans empty) nonempty
    · refine ⟨[], by rw [segments, List.nil_append], ?_⟩
      rw [slash, empty]
      decide
  · rw [splitOn_joinWith named inside] at segments
    refine ⟨_, segments, ?_⟩
    rcases ends with same | slash
    · rw [same]
    · rw [slash]
      rcases segments_append_slash before [] with ⟨empty, _⟩ | ⟨_, _, slashed⟩
      · contradiction
      · rw [slashed, partsOfSegments_append]
        exact (List.append_nil _).symm

/-- Names that are joined to a base are what the path is relative to it. -/
theorem relativeTo?_join (nonempty : base.text ≠ []) (named : AreNames names)
    (inside : names ≠ []) :
    (base.join ⟨Text.joinWith ['/'] names⟩).relativeTo? base =
      some ⟨Text.joinWith ['/'] names⟩ := by
  have parts := parts_join_names nonempty named
  have leads : base.parts.isPrefixOf (base.join ⟨Text.joinWith ['/'] names⟩).parts = true := by
    rw [parts, List.isPrefixOf_iff_prefix]
    exact List.prefix_append _ _
  have notEmpty : base.parts ≠ [] := fun empty => nonempty (parts_eq_nil_iff.mp empty)
  rcases segments_join_names nonempty named inside with ⟨front, segments, same⟩
  have start := start_join nonempty (isAbsolute_joinWith named)
  have count : base.parts.length - base.start.parts.length = (partsOfSegments front).length := by
    rw [parts_eq_segments, List.length_append, same]
    omega
  rcases dropParts_append front names with ⟨fillers, dropped, each⟩
  unfold relativeTo?
  rw [if_pos leads, if_neg notEmpty]
  dsimp only
  rw [segments, start, count, dropped, List.dropWhile_append_of_pos each, dropWhile_names named,
    dropFillerEnd_names named]

theorem relativeTo?_descend (nonempty : base.text ≠ []) (named : AreNames names)
    (inside : names ≠ []) :
    (base.descend names).relativeTo? base = some ⟨Text.joinWith ['/'] names⟩ := by
  rw [descend_eq_join base named inside]
  exact relativeTo?_join nonempty named inside

/-! ## Extensions -/

theorem cutExtension?_join {name stem extension : Text}
    (cut : cutExtension? name = some (stem, extension)) :
    name = stem ++ '.' :: extension ∧ stem ≠ [] := by
  unfold cutExtension? at cut
  split at cut
  · rename_i before after found
    split at cut
    · cases cut
    · rename_i nonempty
      cases cut
      rcases Option.map_eq_some_iff.mp found with ⟨⟨last, front⟩, reversed, pieces⟩
      cases pieces
      have joined := congrArg List.reverse (Text.cutAtChar?_join reversed)
      rw [List.reverse_reverse] at joined
      refine ⟨by simpa using joined, ?_⟩
      simpa using nonempty
  · cases cut

/-- The new name of a file whose extension is replaced. -/
def withExtension (name extension : Text) : Text :=
  ((cutExtension? name).map Prod.fst).getD name ++ '.' :: extension

theorem isName_withExtension {name extension : Text} (named : IsName name)
    (unslashed : '/' ∉ extension) (unended : '\x00' ∉ extension) (long : 1 < extension.length) :
    IsName (withExtension name extension) := by
  have within : ∀ character ∈ ((cutExtension? name).map Prod.fst).getD name, character ∈ name := by
    cases cut : cutExtension? name with
    | none => exact fun _ member => member
    | some pieces =>
        rcases pieces with ⟨stem, rest⟩
        intro character member
        rw [(cutExtension?_join cut).1]
        exact List.mem_append_left _ member
  have size : 2 < (withExtension name extension).length := by
    unfold withExtension
    rw [List.length_append, List.length_cons]
    omega
  refine ⟨?_, ?_, ?_, ?_, ?_⟩
  · intro empty
    rw [empty] at size
    cases size
  · intro dot
    rw [dot] at size
    cases size with
    | step impossible => cases impossible
  · intro dots
    rw [dots] at size
    exact absurd size (by decide)
  · intro slash
    rcases List.mem_append.mp slash with inside | behind
    · exact named.unslashed (within _ inside)
    · exact (List.mem_cons.mp behind).elim (by decide) unslashed
  · intro zero
    rcases List.mem_append.mp zero with inside | behind
    · exact named.unended (within _ inside)
    · exact (List.mem_cons.mp behind).elim (by decide) unended

theorem stem_ne_here {name : Text} (named : IsName name) (undotted : name.head? ≠ some '.') :
    ((cutExtension? name).map Prod.fst).getD name ≠ ['.'] := by
  cases cut : cutExtension? name with
  | none => exact named.notHere
  | some pieces =>
      rcases pieces with ⟨stem, rest⟩
      intro dot
      rw [(cutExtension?_join cut).1] at undotted
      have here : stem = ['.'] := dot
      rw [here] at undotted
      exact undotted rfl

/-- A file name gets its new extension where it stands. -/
theorem replaceExtension_text {before name : Text} (named : IsName name)
    (undotted : name.head? ≠ some '.') (extension : Text) :
    (replaceExtension ⟨before ++ '/' :: name⟩ extension).text =
      before ++ '/' :: withExtension name extension := by
  have single : name.splitOn '/' = [name] := List.splitOn_eq_singleton named.unslashed
  have whole := joinWith_segments ⟨before ++ '/' :: name⟩
  have ends : ∃ front, segments ⟨before ++ '/' :: name⟩ = front ++ [name] := by
    rcases segments_append_slash before name with ⟨_, segments⟩ | ⟨_, _, segments⟩
    · exact ⟨[], by rw [segments, single, List.nil_append]⟩
    · exact ⟨_, by rw [segments, single]⟩
  rcases ends with ⟨front, segments⟩
  have fileName : fileName? ⟨before ++ '/' :: name⟩ = some name := by
    unfold fileName?
    rw [parts_eq_segments, segments, partsOfSegments_append,
      partsOfSegments_cons named.not_isFiller, named.ofSegment]
    simp
  unfold replaceExtension
  rw [fileName, segments, List.reverse_append, List.reverse_singleton, List.singleton_append]
  dsimp only
  rw [if_neg (fun both => stem_ne_here named undotted both.1),
    List.dropWhile_cons_of_neg (by simp [named.not_isFiller]), List.drop_one, List.tail_cons,
    List.reverse_cons, List.reverse_reverse]
  -- The name is the last segment, and what stands in front of it stays.
  have last : ∃ behind, ∀ segment,
      Text.joinWith ['/'] (front ++ [segment]) = behind ++ segment := by
    by_cases alone : front = []
    · exact ⟨[], fun segment => by rw [alone, List.nil_append, joinWith_singleton]; rfl⟩
    · refine ⟨Text.joinWith ['/'] front ++ ['/'], fun segment => ?_⟩
      rw [joinWith_concat alone, List.append_assoc, List.singleton_append]
  rcases last with ⟨behind, last⟩
  have together : (start ⟨before ++ '/' :: name⟩).text ++ behind ++ name =
      before ++ ['/'] ++ name := by
    rw [List.append_assoc, ← last, ← segments, whole, List.append_assoc, List.singleton_append]
  have leading := List.append_cancel_right together
  rw [ofSegments, ← withExtension, last, ← List.append_assoc, leading, List.append_assoc,
    List.singleton_append]

/-- A path below a base whose file name gets a new extension. -/
theorem replaceExtension_join {front : List Text} {name : Text} (nonempty : base.text ≠ [])
    (named : AreNames (front ++ [name])) (undotted : name.head? ≠ some '.') {extension : Text}
    (renamed : AreNames (front ++ [withExtension name extension])) :
    (base.join ⟨Text.joinWith ['/'] (front ++ [name])⟩).replaceExtension extension =
      base.join ⟨Text.joinWith ['/'] (front ++ [withExtension name extension])⟩ := by
  have last : IsName name := named.of_append.2 name List.mem_cons_self
  rcases exists_join_text nonempty with ⟨before, _, joined⟩
  rw [joined _ (isAbsolute_joinWith named), joined _ (isAbsolute_joinWith renamed)]
  by_cases alone : front = []
  · rw [alone, List.nil_append, List.nil_append, joinWith_singleton, joinWith_singleton]
    exact congrArg Path.mk (replaceExtension_text last undotted extension)
  · have slashed := @replaceExtension_text (before ++ '/' :: Text.joinWith ['/'] front) name last
      undotted extension
    rw [List.append_assoc, List.append_assoc, List.cons_append, List.cons_append] at slashed
    rw [joinWith_concat alone, joinWith_concat alone]
    exact congrArg Path.mk slashed

end Path
end PageComposer
