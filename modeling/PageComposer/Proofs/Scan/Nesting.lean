import PageComposer.Proofs.Scan.Meeting

namespace PageComposer

/-!
# Tags of several kinds in one document

Scans for different kinds look at the same text, so a tag of one kind may start
inside a tag of another.  An opening begins with a bracket, holds no other one, and
never shares a blank with a closing.  It therefore stands in the body of the other
tag as a whole, and the first closing behind it is that of the other tag
(`nested_of_inside`): two tags that share a byte end together
(`apart_or_nested`).

No two tags start at the same byte (`scan_strict`), so the order in which the kinds
are scanned is lost in the sorted result (`scan_perm`).
-/

/-! ## An opening inside a tag -/

theorem opening_eq_of_isPrefix {kind other : Kind} {text : Text} (one : kind.opening <+: text)
    (another : other.opening <+: text) : kind = other := by
  have told : ∀ kind ∈ Kind.all, ∀ other ∈ Kind.all,
      kind.opening <+: other.opening -> kind = other := by decide
  rcases List.prefix_or_prefix_of_prefix one another with leads | leads
  · exact told kind kind.mem_all other other.mem_all leads
  · exact (told other other.mem_all kind kind.mem_all leads).symm

/-- The end of an opening is not the start of a closing. -/
theorem not_isPrefix_tagClose_append {kind : Kind} {front back more : Text}
    (split : kind.opening = front ++ back) (nonempty : back ≠ []) :
    ¬ back <+: tagClose ++ more := by
  have told : ∀ kind ∈ Kind.all, ∀ count < kind.opening.length,
      ¬ (kind.opening.drop count).take 2 <+: tagClose := by decide
  have positive := List.length_pos_iff.mpr nonempty
  intro leads
  apply told kind kind.mem_all front.length
  · rw [split, List.length_append]
    omega
  · rw [split, List.drop_left]
    apply List.prefix_of_prefix_length_le ((List.take_prefix 2 back).trans leads)
    · exact List.prefix_append _ _
    · have closing : tagClose.length = 4 := by decide
      rw [List.length_take, closing]
      omega

section Inside

variable {outer inner : Kind} {before body after inside behind : Text}

/-- An opening that starts inside a tag starts behind the opening of that tag. -/
theorem opening_isPrefix_of_inside {front rest : Text} (nonempty : front ≠ [])
    (same : outer.opening ++ rest = front ++ (inner.opening ++ after)) :
    outer.opening <+: front := by
  rcases outer.opening_eq_cons with ⟨tail, opened, once⟩
  rcases inner.opening_eq_cons with ⟨innerTail, innerOpened, _⟩
  have leads : outer.opening <+: front ++ (inner.opening ++ after) := ⟨rest, same⟩
  rw [opened] at leads ⊢
  rw [innerOpened, List.cons_append] at leads
  exact Text.isPrefix_of_isPrefix_append_self once nonempty leads

/-- An opening that starts in front of a closing ends in front of it. -/
theorem exists_body_of_inside
    (same : body ++ (tagClose ++ after) = before ++ (inner.opening ++ behind))
    (within : before.length < body.length + tagClose.length) :
    ∃ rest, body = before ++ (inner.opening ++ rest) ∧ rest ++ (tagClose ++ after) = behind := by
  rcases inner.opening_eq_cons with ⟨tail, opened, _⟩
  -- The bracket that the opening starts with is no character of the closing.
  have outside : ∀ more, before = body ++ more -> False := by
    intro more equal
    rw [equal, List.append_assoc, List.append_cancel_left_eq, opened, List.cons_append,
      ← List.singleton_append, ← List.append_assoc] at same
    have leads : more ++ ['<'] <+: tagClose := by
      apply List.prefix_of_prefix_length_le ⟨_, same.symm⟩ (List.prefix_append tagClose after)
      rw [equal, List.length_append] at within
      rw [List.length_append, List.length_singleton]
      omega
    have bracket : '<' ∈ tagClose := leads.subset (List.mem_append_right _ List.mem_cons_self)
    exact absurd bracket (by decide)
  rcases List.append_eq_append_iff.mp same with ⟨more, equal, _⟩ | ⟨left, equal, standing⟩
  · exact (outside more equal).elim
  · rw [equal]
    rcases List.append_eq_append_iff.mp standing with ⟨rest, whole, joined⟩ | ⟨cut, split, closes⟩
    · exact ⟨rest, by rw [whole], joined.symm⟩
    · by_cases nothing : cut = []
      · rw [nothing, List.append_nil] at split
        rw [nothing, List.nil_append] at closes
        exact ⟨[], by rw [split, List.append_nil], closes⟩
      · exact absurd ⟨_, closes.symm⟩ (not_isPrefix_tagClose_append split nothing)

/-- A tag that starts inside another one stands at its end. -/
theorem nested_of_inside {front raw innerRaw : Text} (nonempty : front ≠ [])
    (within : front.length < (outer.opening ++ raw ++ tagClose).length)
    (unclosed : ¬ tagClose <:+: raw) (innerUnclosed : ¬ tagClose <:+: innerRaw)
    (same : outer.opening ++ raw ++ tagClose ++ after =
      front ++ (inner.opening ++ innerRaw ++ tagClose ++ behind)) :
    ∃ before, front = outer.opening ++ before ∧ raw = before ++ inner.opening ++ innerRaw := by
  simp only [List.append_assoc] at same
  rcases opening_isPrefix_of_inside nonempty same with ⟨before, equal⟩
  rw [← equal, List.append_assoc, List.append_cancel_left_eq] at same
  have short : before.length < raw.length + tagClose.length := by
    rw [← equal] at within
    simp only [List.length_append] at within
    omega
  rcases exists_body_of_inside same short with ⟨rest, whole, closes⟩
  have restUnclosed : ¬ tagClose <:+: rest := by
    intro occurs
    apply unclosed
    rw [whole]
    exact occurs.trans ⟨before ++ inner.opening, [], by simp⟩
  rw [← List.append_assoc, ← List.append_assoc] at closes
  have bodies := (Text.append_tagClose_inj restUnclosed innerUnclosed closes).1
  refine ⟨before, equal.symm, ?_⟩
  rw [whole, bodies, List.append_assoc]

end Inside

/-! ## Tags in one list -/

/-- A tag is the end of another one, behind the opening of that tag. -/
def EndOf (inner outer : Placeholder) : Prop :=
  ∃ before, outer.tag = outer.kind.opening ++ before ++ inner.tag ∧
    inner.start = outer.start + Text.byteSize (outer.kind.opening ++ before) ∧
    inner.stop = outer.stop

variable {site : Site} {document : Path} {kinds : List Kind} {text : Text}
  {placeholders : List Placeholder}

theorem exists_raw_of_scan (scanned : scan site document kinds text = .ok placeholders)
    {tag : Placeholder} (member : tag ∈ placeholders) :
    ∃ raw, tag.tag = tag.kind.opening ++ raw ++ tagClose ∧ ¬ tagClose <:+: raw := by
  rcases mem_scanKind_of_scan scanned member with ⟨kind, _, found, read, within⟩
  rcases scanKindFrom_member read tag within with ⟨start, raw, unclosed, accepted⟩
  rw [readTag_kind accepted]
  exact ⟨raw, (readTag_span accepted).2.2, unclosed⟩

/-- Of two tags the one that starts later either starts behind the other one or is its
end. -/
theorem apart_or_nested (scanned : scan site document kinds text = .ok placeholders)
    {former later : Placeholder} (formerMember : former ∈ placeholders)
    (laterMember : later ∈ placeholders) (order : former.start < later.start) :
    former.stop ≤ later.start ∨ EndOf later former := by
  by_cases apart : former.stop ≤ later.start
  · exact Or.inl apart
  · right
    rcases scan_stands scanned former formerMember with ⟨before, after, joined, starts, stops⟩
    rcases scan_stands scanned later laterMember with
      ⟨laterBefore, behind, laterJoined, laterStarts, laterStops⟩
    rcases exists_raw_of_scan scanned formerMember with ⟨raw, spelled, unclosed⟩
    rcases exists_raw_of_scan scanned laterMember with ⟨laterRaw, laterSpelled, laterUnclosed⟩
    have leads : before <+: laterBefore := by
      refine @Text.isPrefix_of_byteSize_le _ _ text ?_ ?_ ?_
      · exact ⟨former.tag ++ after, by rw [joined, List.append_assoc]⟩
      · exact ⟨later.tag ++ behind, by rw [laterJoined, List.append_assoc]⟩
      · omega
    rcases leads with ⟨front, equal⟩
    have size : later.start = former.start + Text.byteSize front := by
      rw [laterStarts, starts, ← equal, Text.byteSize_append, Nat.add_assoc]
    have nonempty : front ≠ [] := by
      intro nothing
      rw [nothing, Text.byteSize_nil] at size
      omega
    have same : former.tag ++ after = front ++ (later.tag ++ behind) := by
      rw [joined, ← equal] at laterJoined
      simpa only [List.append_assoc, List.append_cancel_left_eq] using laterJoined
    have within : front.length < former.tag.length := by
      by_contra long
      have covers : former.tag <+: front := by
        apply List.prefix_of_prefix_length_le ⟨after, same⟩ (List.prefix_append front _)
        omega
      rcases covers with ⟨more, whole⟩
      have sizes := congrArg Text.byteSize whole
      rw [Text.byteSize_append] at sizes
      omega
    rw [spelled] at within same
    rw [laterSpelled] at same
    rcases nested_of_inside nonempty within unclosed laterUnclosed same with
      ⟨inside, whole, body⟩
    have tags : former.tag = former.kind.opening ++ inside ++ later.tag := by
      rw [spelled, laterSpelled, body]
      simp only [List.append_assoc]
    refine ⟨inside, tags, by rw [size, whole], ?_⟩
    have sizes := congrArg Text.byteSize tags
    rw [← whole, Text.byteSize_append] at sizes
    omega

/-! ## The order of the kinds -/

theorem start_ne_of_kind_ne {one another : Kind} (different : one ≠ another)
    {found others : List Placeholder} (read : scanKind site document one text = .ok found)
    (otherRead : scanKind site document another text = .ok others) :
    ∀ tag ∈ found, ∀ other ∈ others, tag.start ≠ other.start := by
  intro tag member other otherMember together
  apply different
  rcases (scanKindFrom_laid read).stands tag member with ⟨before, after, joined, starts, _⟩
  rcases (scanKindFrom_laid otherRead).stands other otherMember with
    ⟨otherBefore, behind, otherJoined, otherStarts, _⟩
  rcases scanKindFrom_member read tag member with ⟨_, raw, _, accepted⟩
  rcases scanKindFrom_member otherRead other otherMember with ⟨_, otherRaw, _, otherAccepted⟩
  rw [(readTag_span accepted).2.2] at joined
  rw [(readTag_span otherAccepted).2.2] at otherJoined
  have leads : before <+: text := ⟨_, by rw [joined, List.append_assoc]⟩
  have otherLeads : otherBefore <+: text := ⟨_, by rw [otherJoined, List.append_assoc]⟩
  have same : before = otherBefore := by
    apply (Text.isPrefix_of_byteSize_le leads otherLeads (by omega)).eq_of_length_le
    exact (Text.isPrefix_of_byteSize_le otherLeads leads (by omega)).length_le
  rw [otherJoined, same] at joined
  simp only [List.append_assoc, List.append_cancel_left_eq] at joined
  exact opening_eq_of_isPrefix ⟨_, joined.symm⟩ (List.prefix_append another.opening _)

section Distinct

variable (distinct : kinds.Nodup)

include distinct

theorem starts_distinct {found : List (List Placeholder)}
    (read : kinds.mapM (fun kind => scanKind site document kind text) = .ok found) :
    found.flatten.Pairwise fun left right => left.start ≠ right.start := by
  have results := mapM_eq_ok_iff.mp read
  rw [List.pairwise_flatten]
  constructor
  · intro list member
    have image : Except.ok list ∈ kinds.map fun kind => scanKind site document kind text := by
      rw [results]
      exact List.mem_map_of_mem member
    rcases List.mem_map.mp image with ⟨kind, _, scanned⟩
    apply (scanKindFrom_laid scanned).ordered.imp_of_mem
    intro former later within _ apart
    rcases scanKindFrom_member scanned former within with ⟨_, _, _, accepted⟩
    have nonempty := readTag_start_lt_stop accepted
    omega
  · have pairs : (kinds.map fun kind => scanKind site document kind text).Pairwise
        fun one another => ∀ list others, one = .ok list -> another = .ok others ->
          ∀ tag ∈ list, ∀ other ∈ others, tag.start ≠ other.start := by
      rw [List.pairwise_map]
      apply distinct.imp
      intro one another different list others scanned otherScanned
      exact start_ne_of_kind_ne different scanned otherScanned
    rw [results, List.pairwise_map] at pairs
    exact pairs.imp fun apart => apart _ _ rfl rfl

/-- No two tags start at the same byte. -/
theorem scan_strict (scanned : scan site document kinds text = .ok placeholders) :
    placeholders.Pairwise fun left right => left.start < right.start := by
  rcases exists_scanKind_of_scan scanned with ⟨found, read, equal⟩
  have same : placeholders.Perm found.flatten := by
    rw [equal]
    exact List.mergeSort_perm _ _
  have apart : placeholders.Pairwise fun left right => left.start ≠ right.start :=
    (same.pairwise_iff Ne.symm).mpr (starts_distinct distinct read)
  apply ((scan_sorted scanned).and apart).imp
  intro left right both
  omega

/-- The order of the kinds does not show in what is found. -/
theorem scan_perm {others : List Kind} (same : kinds.Perm others)
    (scanned : scan site document kinds text = .ok placeholders) :
    scan site document others text = .ok placeholders := by
  rcases exists_scanKind_of_scan scanned with ⟨found, read, equal⟩
  have results := mapM_eq_ok_iff.mp read
  -- What is found of a kind, told from the kind alone.
  let foundOf (kind : Kind) : List Placeholder :=
    (scanKind site document kind text).toOption.getD []
  have foundEqual : found = kinds.map foundOf := by
    have images := congrArg (List.map fun result => (Except.toOption result).getD []) results
    rw [List.map_map, List.map_map] at images
    exact (List.map_id found).symm.trans images.symm
  have each : ∀ kind ∈ kinds, scanKind site document kind text = .ok (foundOf kind) := by
    intro kind member
    have image := List.mem_map_of_mem (f := fun kind => scanKind site document kind text) member
    rw [results] at image
    rcases List.mem_map.mp image with ⟨list, _, succeeds⟩
    dsimp only [foundOf]
    rw [← succeeds]
    rfl
  have otherRead : others.mapM (fun kind => scanKind site document kind text) =
      .ok (others.map foundOf) := by
    rw [mapM_eq_ok_iff, List.map_map]
    exact List.map_congr_left fun kind member => each kind (same.mem_iff.mpr member)
  apply scan_of_perm otherRead _ (scan_strict distinct scanned)
  rw [equal, foundEqual]
  exact ((same.map foundOf).symm.flatten).trans (List.mergeSort_perm _ _).symm

end Distinct

end PageComposer
