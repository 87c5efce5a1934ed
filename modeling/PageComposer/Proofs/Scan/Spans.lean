import PageComposer.Proofs.Outcome
import PageComposer.Proofs.Scan.Order
import PageComposer.Proofs.Substitution
import PageComposer.Proofs.Text.Occurrence
import PageComposer.Scan.Tags

namespace PageComposer

/-!
# Where the tags of a scan stand

A scan for one kind reads its tags one behind the other.  A scan for several
kinds returns them ordered by their starts, each of them standing in the
document with the bytes that its span says.
-/

section Tag

variable {site : Site} {document : Path} {kind : Kind} {start : Nat} {raw : Text}
  {placeholder : Placeholder}

theorem absoluteName_of_absolute {name : Text} (absolute : isRelativeName name = false) :
    absoluteName site document name = name := by
  rw [absoluteName, absolute, if_neg Bool.false_ne_true]

theorem readTag_eq_ok_iff :
    readTag site document kind start raw = .ok placeholder ↔
      ∃ body, Body.ofRaw kind raw (kind.opening ++ raw ++ tagClose) = .ok body ∧ body.name ≠ [] ∧
        placeholder = {
          name := absoluteName site document body.name
          kind := kind
          start := start
          stop := start + Text.byteSize (kind.opening ++ raw ++ tagClose)
          tag := kind.opening ++ raw ++ tagClose
          args := body.args
          style := body.style
          document := document } := by
  unfold readTag
  dsimp only
  constructor
  · intro accepted
    split at accepted
    · cases accepted
    · rename_i body taken
      split at accepted
      · cases accepted
      · rename_i named
        cases accepted
        exact ⟨body, taken, fun nothing => named (List.isEmpty_iff.mpr nothing), rfl⟩
  · rintro ⟨body, taken, named, equal⟩
    rw [taken, equal]
    dsimp only
    rw [if_neg fun nothing => named (List.isEmpty_iff.mp nothing)]

theorem readTag_kind (accepted : readTag site document kind start raw = .ok placeholder) :
    placeholder.kind = kind := by
  rcases readTag_eq_ok_iff.mp accepted with ⟨_, _, _, equal⟩
  rw [equal]

/-- The name of a tag is that of its body, taken from the root of the site. -/
theorem readTag_name (accepted : readTag site document kind start raw = .ok placeholder) :
    ∃ body, Body.ofRaw kind raw placeholder.tag = .ok body ∧ body.name ≠ [] ∧
      placeholder.name = absoluteName site document body.name := by
  rcases readTag_eq_ok_iff.mp accepted with ⟨body, taken, named, equal⟩
  subst equal
  exact ⟨body, taken, named, rfl⟩

/-- The span of a tag holds at least one byte. -/
theorem readTag_start_lt_stop (accepted : readTag site document kind start raw = .ok placeholder) :
    placeholder.start < placeholder.stop := by
  have span := readTag_span accepted
  have opened : 1 ≤ Text.byteSize placeholder.tag := by
    rw [span.2.2, Text.byteSize_append, Text.byteSize_append]
    have closing : Text.byteSize tagClose = 4 := by decide
    omega
  omega

end Tag

/-- A scan for one kind reads its tags one behind the other. -/
theorem scanKindFrom_laid {site : Site} {document : Path} {kind : Kind} {offset : Nat}
    {text : Text} {placeholders : List Placeholder}
    (scanned : scanKindFrom site document kind offset text = .ok placeholders) :
    Laid offset placeholders text := by
  fun_induction scanKindFrom site document kind offset text generalizing placeholders with
  | case1 =>
      cases scanned
      exact .nil
  | case2 => cases scanned
  | case3 offset text before inside opened raw rest closed inductionHypothesis =>
      rcases bind_eq_ok_iff.mp scanned with ⟨placeholder, accepted, continued⟩
      rcases bind_eq_ok_iff.mp continued with ⟨others, later, equal⟩
      cases equal
      have span := readTag_span accepted
      have joined : text = before ++ placeholder.tag ++ rest := by
        rw [Text.cut?_join opened, Text.cut?_join closed, span.2.2]
        simp only [List.append_assoc]
      rw [joined]
      exact .cons span.1 (span.1 ▸ span.2.1) (inductionHypothesis placeholder later)

/-- Every tag that is found is read from a body without a closing. -/
theorem scanKindFrom_member {site : Site} {document : Path} {kind : Kind} {offset : Nat}
    {text : Text} {placeholders : List Placeholder}
    (scanned : scanKindFrom site document kind offset text = .ok placeholders) :
    ∀ placeholder ∈ placeholders, ∃ start raw, ¬ tagClose <:+: raw ∧
      readTag site document kind start raw = .ok placeholder := by
  fun_induction scanKindFrom site document kind offset text generalizing placeholders with
  | case1 =>
      cases scanned
      simp
  | case2 => cases scanned
  | case3 offset text before inside opened raw rest closed inductionHypothesis =>
      rcases bind_eq_ok_iff.mp scanned with ⟨placeholder, accepted, continued⟩
      rcases bind_eq_ok_iff.mp continued with ⟨others, later, equal⟩
      cases equal
      have unclosed := Text.not_isInfix_of_cut? closed (List.cons_ne_nil _ _)
      intro member within
      rcases List.mem_cons.mp within with same | behind
      · subst same
        exact ⟨_, raw, unclosed, accepted⟩
      · exact inductionHypothesis placeholder later member behind

section SeveralKinds

variable {site : Site} {document : Path} {kinds : List Kind} {text : Text}
  {placeholders : List Placeholder}

theorem exists_scanKind_of_scan (scanned : scan site document kinds text = .ok placeholders) :
    ∃ found, kinds.mapM (fun kind => scanKind site document kind text) = .ok found ∧
      placeholders = found.flatten.mergeSort fun left right => left.start ≤ right.start := by
  rcases bind_eq_ok_iff.mp scanned with ⟨found, read, equal⟩
  cases equal
  exact ⟨found, read, rfl⟩

/-- What is found kind by kind comes in the order in which it starts. -/
theorem scan_of_perm {found : List (List Placeholder)}
    (read : kinds.mapM (fun kind => scanKind site document kind text) = .ok found)
    (same : found.flatten.Perm placeholders)
    (strict : placeholders.Pairwise fun left right => left.start < right.start) :
    scan site document kinds text = .ok placeholders := by
  unfold scan
  rw [read]
  exact congrArg Except.ok (mergeSort_ascending same strict)

theorem mem_scanKind_of_scan (scanned : scan site document kinds text = .ok placeholders)
    {placeholder : Placeholder} (member : placeholder ∈ placeholders) :
    ∃ kind ∈ kinds, ∃ found, scanKind site document kind text = .ok found ∧
      placeholder ∈ found := by
  rcases exists_scanKind_of_scan scanned with ⟨found, read, equal⟩
  rw [equal, List.mem_mergeSort] at member
  rcases List.mem_flatten.mp member with ⟨list, listed, within⟩
  have results := mapM_eq_ok_iff.mp read
  have image : Except.ok list ∈ kinds.map fun kind => scanKind site document kind text := by
    rw [results]
    exact List.mem_map_of_mem listed
  rcases List.mem_map.mp image with ⟨kind, wanted, same⟩
  exact ⟨kind, wanted, list, same, within⟩

theorem scan_stands (scanned : scan site document kinds text = .ok placeholders) :
    ∀ placeholder ∈ placeholders, Stands 0 placeholder text := by
  intro placeholder member
  rcases mem_scanKind_of_scan scanned member with ⟨kind, _, found, read, within⟩
  exact (scanKindFrom_laid read).stands placeholder within

theorem scan_sorted (scanned : scan site document kinds text = .ok placeholders) :
    placeholders.Pairwise fun left right => left.start ≤ right.start := by
  rcases exists_scanKind_of_scan scanned with ⟨found, _, equal⟩
  rw [equal]
  have sorted := @List.pairwise_mergeSort _
    (fun left right : Placeholder => decide (left.start ≤ right.start))
    (by
      intro first second third
      simp only [decide_eq_true_eq]
      exact Nat.le_trans)
    (by
      intro first second
      simp only [Bool.or_eq_true, decide_eq_true_eq]
      exact Nat.le_total _ _)
    found.flatten
  simpa only [decide_eq_true_eq] using sorted

/-- The span of a scanned placeholder holds at least one byte. -/
theorem scan_start_lt_stop (scanned : scan site document kinds text = .ok placeholders)
    {placeholder : Placeholder} (member : placeholder ∈ placeholders) :
    placeholder.start < placeholder.stop := by
  rcases mem_scanKind_of_scan scanned member with ⟨kind, _, found, read, within⟩
  rcases scanKindFrom_member read placeholder within with ⟨start, raw, _, accepted⟩
  exact readTag_start_lt_stop accepted

/-- Scanned placeholders that share no byte are laid out in the document. -/
theorem scan_laid (scanned : scan site document kinds text = .ok placeholders)
    (disjoint : placeholders.Pairwise fun left right =>
      left.stop ≤ right.start ∨ right.stop ≤ left.start) :
    Laid 0 placeholders text ∧
      placeholders.Pairwise fun former later => former.stop ≤ later.start := by
  have ordered : placeholders.Pairwise fun former later => former.stop ≤ later.start := by
    apply ((scan_sorted scanned).and disjoint).imp_of_mem
    intro former later _ member both
    rcases both.2 with before | behind
    · exact before
    · have nonempty := scan_start_lt_stop scanned member
      omega
  exact ⟨laid_of_disjoint (scan_stands scanned) ordered, ordered⟩

end SeveralKinds
end PageComposer
