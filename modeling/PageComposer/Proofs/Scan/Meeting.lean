import PageComposer.Proofs.Scan.Spans
import PageComposer.Proofs.Text.Field

namespace PageComposer

/-!
# Where a scan meets a tag

A scan passes over what holds no opening (`scanKindFrom_skip`), and reads a tag
where its opening stands (`scanKindFrom_tag_append`).  A tag that stands behind a
text is met as soon as every tag of that text is closed in it
(`scanKindFrom_append_tag`): an opening starts with a bracket and holds no other
one, so none reaches across the seam.
-/

theorem Kind.opening_eq_cons (kind : Kind) :
    ∃ tail, kind.opening = '<' :: tail ∧ '<' ∉ tail := by
  have spelled : ∀ kind ∈ Kind.all, kind.opening.head? = some '<' ∧ '<' ∉ kind.opening.tail := by
    decide
  rcases spelled kind kind.mem_all with ⟨head, fresh⟩
  rcases List.head?_eq_some_iff.mp head with ⟨tail, equal⟩
  refine ⟨tail, equal, ?_⟩
  rwa [equal, List.tail_cons] at fresh

variable {site : Site} {document : Path} {kind : Kind} {offset : Nat}

/-- A part that the search passes over only moves what is read behind it. -/
theorem scanKindFrom_skip {front more : Text} (passed : Text.Passes kind.opening front more) :
    scanKindFrom site document kind offset (front ++ more) =
      scanKindFrom site document kind (offset + Text.byteSize front) more := by
  unfold Text.Passes at passed
  rw [scanKindFrom, scanKindFrom]
  cases found : Text.cut? kind.opening more with
  | none =>
      rw [found] at passed
      split
      · rfl
      · rename_i again
        rw [passed] at again
        cases again
  | some pieces =>
      rcases pieces with ⟨before, inside⟩
      rw [found] at passed
      split
      · rename_i again
        rw [passed] at again
        cases again
      · rename_i again
        rw [passed] at again
        cases again
        simp only [Text.byteSize_append, Nat.add_assoc]

/-- A tag at the front of a text is read up to its closing. -/
theorem scanKindFrom_tag_append {raw : Text} (unclosed : ¬ tagClose <:+: raw) (more : Text) :
    scanKindFrom site document kind offset (kind.opening ++ raw ++ tagClose ++ more) =
      (do
        let placeholder <- readTag site document kind offset raw
        let others <- scanKindFrom site document kind placeholder.stop more
        return placeholder :: others) := by
  have opened : Text.cut? kind.opening (kind.opening ++ raw ++ tagClose ++ more) =
      some ([], raw ++ tagClose ++ more) := by
    rw [List.append_assoc, List.append_assoc, ← List.append_assoc raw]
    exact Text.cut?_self_append kind.opening _
  have closed := Text.cut?_tagClose_append unclosed more
  rw [scanKindFrom]
  split
  · rename_i nothing
    rw [opened] at nothing
    cases nothing
  · rename_i equal
    rw [opened] at equal
    cases equal
    split
    · rename_i nothing
      rw [closed] at nothing
      cases nothing
    · rename_i equal
      rw [closed] at equal
      cases equal
      rfl

theorem scanKindFrom_nil : scanKindFrom site document kind offset [] = .ok [] := by
  have nothing : Text.cut? kind.opening [] = none := by cases kind <;> decide
  rw [scanKindFrom]
  split
  · rfl
  · rename_i found
    rw [nothing] at found
    cases found

/-- No opening reaches from a text without one into a tag behind it. -/
theorem passes_opening {front : Text} (absent : ¬ kind.opening <:+: front) (more : Text) :
    Text.Passes kind.opening front (kind.opening ++ more) := by
  apply Text.passes_of_absent
  intro back suffix nonempty leads
  rcases kind.opening_eq_cons with ⟨tail, equal, once⟩
  rw [equal, List.cons_append] at leads
  have inside := Text.isPrefix_of_isPrefix_append_self once nonempty leads
  rw [← equal] at inside
  exact absent (inside.isInfix.trans suffix.isInfix)

/-- Behind a text whose tags are all closed the scan meets a tag, and goes on
behind it. -/
theorem scanKindFrom_append_tag {before raw : Text} {earlier : List Placeholder}
    (scanned : scanKindFrom site document kind offset before = .ok earlier)
    (unclosed : ¬ tagClose <:+: raw) (after : Text) :
    scanKindFrom site document kind offset
        (before ++ (kind.opening ++ raw ++ tagClose ++ after)) =
      (do
        let placeholder <- readTag site document kind (offset + Text.byteSize before) raw
        let others <- scanKindFrom site document kind placeholder.stop after
        return earlier ++ placeholder :: others) := by
  fun_induction scanKindFrom site document kind offset before generalizing earlier with
  | case1 offset text absent =>
      cases scanned
      rw [scanKindFrom_skip, scanKindFrom_tag_append unclosed]
      · rfl
      · rw [List.append_assoc, List.append_assoc]
        exact passes_opening (Text.cut?_eq_none_iff.mp absent) _
  | case2 => cases scanned
  | case3 offset text front inside opened body rest closed inductionHypothesis =>
      rcases bind_eq_ok_iff.mp scanned with ⟨placeholder, accepted, continued⟩
      rcases bind_eq_ok_iff.mp continued with ⟨others, later, equal⟩
      cases equal
      have span := readTag_span accepted
      have stops : placeholder.stop + Text.byteSize rest = offset + Text.byteSize text := by
        rw [Text.cut?_join opened, Text.cut?_join closed, span.2.1, span.2.2]
        simp only [Text.byteSize_append]
        omega
      have behind := inductionHypothesis placeholder later
      rw [stops] at behind
      have opened' := Text.cut?_append_of_found opened (kind.opening ++ raw ++ tagClose ++ after)
      have closed' := Text.cut?_append_of_found closed (kind.opening ++ raw ++ tagClose ++ after)
      rw [scanKindFrom]
      split
      · rename_i nothing
        rw [opened'] at nothing
        cases nothing
      · rename_i equal
        rw [opened'] at equal
        cases equal
        split
        · rename_i nothing
          rw [closed'] at nothing
          cases nothing
        · rename_i equal
          rw [closed'] at equal
          cases equal
          rw [accepted]
          change (scanKindFrom site document kind placeholder.stop _ >>= _) = _
          rw [behind]
          cases readTag site document kind (offset + Text.byteSize text) raw with
          | error failure => rfl
          | ok tag =>
              dsimp only [bind, Except.bind]
              cases scanKindFrom site document kind tag.stop after <;> rfl

/-- A tag that stands in a text where a scan meets it: the tags in front of it are
closed. -/
structure Meets (site : Site) (document : Path) (kind : Kind) (before raw after text : Text) :
    Prop where
  spelled : text = before ++ (kind.opening ++ raw ++ tagClose ++ after)
  unclosed : ¬ tagClose <:+: raw
  closed : ∃ earlier, scanKind site document kind before = .ok earlier

/-- A scan that succeeds has read the tags that it meets. -/
theorem Meets.exists_read {before raw after text : Text} {kinds : List Kind}
    {placeholders : List Placeholder} (met : Meets site document kind before raw after text)
    (wanted : kind ∈ kinds) (scanned : scan site document kinds text = .ok placeholders) :
    ∃ tag ∈ placeholders, readTag site document kind (Text.byteSize before) raw = .ok tag := by
  rcases met.closed with ⟨earlier, closed⟩
  rcases exists_scanKind_of_scan scanned with ⟨found, each, sorted⟩
  have results := mapM_eq_ok_iff.mp each
  have listed : scanKind site document kind text ∈ found.map Except.ok := by
    rw [← results]
    exact List.mem_map_of_mem wanted
  rcases List.mem_map.mp listed with ⟨tags, within, tagsRead⟩
  have read := scanKindFrom_append_tag closed met.unclosed after
  rw [← met.spelled] at read
  change scanKind site document kind text = _ at read
  rw [← tagsRead, Nat.zero_add] at read
  rcases bind_eq_ok_iff.mp read.symm with ⟨tag, accepted, continued⟩
  rcases bind_eq_ok_iff.mp continued with ⟨others, _, equal⟩
  refine ⟨tag, ?_, accepted⟩
  rw [sorted, List.mem_mergeSort]
  refine List.mem_flatten.mpr ⟨tags, within, ?_⟩
  rw [← Except.ok.inj equal]
  exact List.mem_append_right _ List.mem_cons_self

end PageComposer
