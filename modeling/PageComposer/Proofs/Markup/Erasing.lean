import PageComposer.Proofs.Markup.Reading

namespace PageComposer

/-!
# Erasing the comments of regions

The comments around regions are no tags, so a scan reads the same tags with and
without them, or fails with the same tag; only the offsets differ
(`scan_erase`).  Erasing them from pieces is deleting them from the text
(`dropMarkers_spell`).
-/

/-- Whether a piece is a comment that leads with this word. -/
def Piece.leads (lead : Lead) : Piece -> Bool
  | .led own _ _ => own == lead
  | .plain _ _ | .remark _ _ _ _ => false

/-- The pieces that are no comment of a region. -/
def erase (pieces : List Piece) : List Piece :=
  pieces.filter fun piece => !piece.isRegionComment

@[simp] theorem erase_append (left right : List Piece) :
    erase (left ++ right) = erase left ++ erase right :=
  List.filter_append _ _

theorem erase_of_unmarked {pieces : List Piece} (unmarked : Unmarked pieces) :
    erase pieces = pieces := by
  apply List.filter_eq_self.mpr
  intro piece member
  rw [unmarked piece member]
  rfl

theorem erase_cons_of_unmarked {piece : Piece} (unmarked : piece.isRegionComment = false)
    (pieces : List Piece) : erase (piece :: pieces) = piece :: erase pieces :=
  List.filter_cons_of_pos (by rw [unmarked]; rfl)

theorem not_isRegionComment_of_tagAmong? {kinds : List Kind} {piece : Piece} {kind : Kind}
    {raw : Text} (tagged : piece.tagAmong? kinds = some (kind, raw)) :
    piece.isRegionComment = false := by
  rcases tagAmong?_eq_some tagged with ⟨_, tidy, equal⟩
  rw [equal]
  rfl

/-! ## Deleting comments from a text -/

/-- The text without the comments that begin with an opening. -/
def dropComments (opening text : Text) : Text :=
  match _opened : Text.cut? opening text with
  | none => text
  | some (before, inside) =>
      match _closed : Text.cut? tagClose inside with
      | none => text
      | some (_, rest) => before ++ dropComments opening rest
termination_by text.length
decreasing_by
  have outer := Text.cut?_length _opened
  have inner := Text.cut?_length _closed
  have closing : 0 < tagClose.length := by decide
  omega

/-- The text without all begin and end comments. -/
def dropMarkers (text : Text) : Text :=
  dropComments endMarker (dropComments beginMarker text)

theorem dropComments_of_none {opening text : Text} (nothing : Text.cut? opening text = none) :
    dropComments opening text = text := by
  rw [dropComments]
  split
  · rfl
  · rename_i found
    rw [nothing] at found
    cases found

theorem dropComments_of_some {opening text before inside : Text}
    (opened : Text.cut? opening text = some (before, inside)) :
    dropComments opening text =
      match Text.cut? tagClose inside with
      | none => text
      | some (_, rest) => before ++ dropComments opening rest := by
  rw [dropComments]
  split
  · rename_i nothing
    rw [opened] at nothing
    cases nothing
  · rename_i found
    rw [opened] at found
    cases found
    cases Text.cut? tagClose inside <;> rfl

theorem dropComments_skip {opening front more : Text}
    (passed : Text.cut? opening (front ++ more) =
      (Text.cut? opening more).map (Text.putBefore front)) :
    dropComments opening (front ++ more) = front ++ dropComments opening more := by
  cases opened : Text.cut? opening more with
  | none =>
      rw [opened] at passed
      rw [dropComments_of_none opened, dropComments_of_none passed]
  | some pieces =>
      rcases pieces with ⟨before, inside⟩
      rw [opened] at passed
      rw [dropComments_of_some opened, dropComments_of_some passed]
      cases Text.cut? tagClose inside with
      | none => rfl
      | some found => exact List.append_assoc _ _ _

theorem dropComments_led (lead : Lead) {rest : Text} (tidy : Tidy rest) (more : Text) :
    dropComments lead.opening ((Piece.led lead rest tidy).text ++ more) =
      dropComments lead.opening more := by
  rw [dropComments_of_some (cut?_opening_led lead rest tidy more),
    Text.cut?_tagClose_append tidy.unclosed more]
  rfl

theorem dropComments_spell (lead : Lead) (pieces : List Piece) :
    dropComments lead.opening (spell pieces) =
      spell (pieces.filter fun piece => !piece.leads lead) := by
  induction pieces with
  | nil =>
      have nothing : ∀ lead ∈ Lead.all, Text.cut? lead.opening [] = none := by decide
      exact dropComments_of_none (nothing lead lead.mem_all)
  | cons piece others inductionHypothesis =>
      rw [spell_cons]
      by_cases own : ∃ rest tidy, piece = .led lead rest tidy
      · rcases own with ⟨rest, tidy, equal⟩
        subst equal
        rw [dropComments_led, inductionHypothesis, List.filter_cons_of_neg (by simp [Piece.leads])]
      · have different : ∀ rest tidy, piece ≠ .led lead rest tidy :=
          fun rest tidy equal => own ⟨rest, tidy, equal⟩
        have kept : (!piece.leads lead) = true := by
          cases piece with
          | plain _ _ => rfl
          | remark _ _ _ _ => rfl
          | led other rest tidy =>
              have foreign : other ≠ lead := by
                intro equal
                subst equal
                exact different rest tidy rfl
              simp [Piece.leads, foreign]
        have filtered : (piece :: others).filter (fun piece => !piece.leads lead) =
            piece :: others.filter fun piece => !piece.leads lead := List.filter_cons_of_pos kept
        rw [dropComments_skip (cut?_opening_skip different _), inductionHypothesis, filtered,
          spell_cons]

theorem dropMarkers_spell (pieces : List Piece) :
    dropMarkers (spell pieces) = spell (erase pieces) := by
  have both (piece : Piece) :
      (!piece.leads .begins && !piece.leads .ends) = !piece.isRegionComment := by
    cases piece with
    | plain _ _ => rfl
    | remark _ _ _ _ => rfl
    | led lead _ _ => cases lead <;> rfl
  unfold dropMarkers
  change dropComments Lead.ends.opening (dropComments Lead.begins.opening (spell pieces)) = _
  rw [dropComments_spell, dropComments_spell, List.filter_filter, erase]
  congr 1
  apply List.filter_congr
  intro piece _
  rw [Bool.and_comm]
  exact both piece

/-! ## Reading without offsets -/

/-- The tags of some kinds among pieces. -/
def tagsOf (kinds : List Kind) (pieces : List Piece) : List (Kind × Text) :=
  pieces.filterMap (Piece.tagAmong? kinds)

theorem tagsOf_erase (kinds : List Kind) (pieces : List Piece) :
    tagsOf kinds (erase pieces) = tagsOf kinds pieces := by
  unfold tagsOf erase
  rw [List.filterMap_filter]
  congr 1
  funext piece
  cases marked : piece.isRegionComment with
  | false => rfl
  | true =>
      cases tagged : piece.tagAmong? kinds with
      | none => rfl
      | some tag =>
          rw [not_isRegionComment_of_tagAmong? tagged] at marked
          cases marked

/-- The placeholder without its place. -/
def Placeholder.unplaced (placeholder : Placeholder) : Placeholder :=
  placeholder.placed 0

/-- Tags read one after the other, wherever they stand. -/
def readTags (site : Site) (document : Path) (tags : List (Kind × Text)) :
    Except Failure (List Placeholder) :=
  tags.mapM fun tag => readTag site document tag.1 0 tag.2

section Unplaced

variable {site : Site} {document : Path} {kinds : List Kind} {offset : Nat}

theorem readTag_unplaced (kind : Kind) (start : Nat) (raw : Text) :
    (readTag site document kind start raw).map Placeholder.unplaced =
      readTag site document kind 0 raw := by
  rw [readTag_placed site document kind start, readTag_placed site document kind 0]
  cases readTag site document kind 0 raw <;> rfl

theorem scanKindFrom_unplaced (kind : Kind) (offset : Nat) (pieces : List Piece) :
    (scanKindFrom site document kind offset (spell pieces)).map
        (List.map Placeholder.unplaced) =
      readTags site document (tagsOf [kind] pieces) := by
  induction pieces generalizing offset with
  | nil =>
      rw [spell_nil, scanKindFrom_nil]
      rfl
  | cons piece others inductionHypothesis =>
      rw [spell_cons]
      cases tagged : piece.tagAmong? [kind] with
      | none =>
          have passed := @cut?_opening_skip (.tag kind) piece
            (ne_tag_of_tagAmong?_eq_none tagged List.mem_cons_self) (spell others)
          rw [scanKindFrom_skip passed, inductionHypothesis, tagsOf, tagsOf,
            List.filterMap_cons_none tagged]
      | some tag =>
          rcases tag with ⟨found, raw⟩
          rcases tagAmong?_eq_some tagged with ⟨wanted, tidy, equal⟩
          rw [List.mem_singleton.mp wanted] at equal tagged
          subst equal
          have alone := @readTag_unplaced site document kind offset raw
          rw [scanKindFrom_tag, tagsOf, List.filterMap_cons_some tagged, readTags, List.mapM_cons,
            ← alone]
          cases readTag site document kind offset raw with
          | error failure => rfl
          | ok placeholder =>
              have later := inductionHypothesis placeholder.stop
              rw [readTags, tagsOf] at later
              simp only [bind, Except.bind, Except.map, ← later]
              cases scanKindFrom site document kind placeholder.stop (spell others) <;> rfl

theorem Reads.readTags {pieces : List Piece} {placeholders : List Placeholder}
    (reads : Reads site document kinds offset pieces placeholders) :
    PageComposer.readTags site document (tagsOf kinds pieces) =
      .ok (placeholders.map Placeholder.unplaced) := by
  unfold PageComposer.readTags tagsOf
  induction reads with
  | nil => rfl
  | skip other _ inductionHypothesis =>
      rw [List.filterMap_cons_none other]
      exact inductionHypothesis
  | @read offset piece pieces kind raw placeholder placeholders tagged accepted _
      inductionHypothesis =>
      have alone := @readTag_unplaced site document kind offset raw
      rw [accepted] at alone
      rw [List.filterMap_cons_some tagged, List.mapM_cons, inductionHypothesis, ← alone]
      rfl

/-- The comments of regions change nothing about a scan but the offsets. -/
theorem scan_erase (distinct : kinds.Nodup) (pieces : List Piece) :
    Alike
      (fun marked plain => marked.map Placeholder.unplaced = plain.map Placeholder.unplaced)
      (scan site document kinds (spell pieces))
      (scan site document kinds (spell (erase pieces))) := by
  have each : (kinds.mapM fun kind => scanKind site document kind (spell pieces)).map
        (List.map (List.map Placeholder.unplaced)) =
      (kinds.mapM fun kind => scanKind site document kind (spell (erase pieces))).map
        (List.map (List.map Placeholder.unplaced)) := by
    rw [mapM_map, mapM_map]
    congr 1
    funext kind
    rw [scanKind, scanKind, scanKindFrom_unplaced, scanKindFrom_unplaced, tagsOf_erase]
  have found := alike_of_map_eq each
  cases marked : scan site document kinds (spell pieces) with
  | error failure =>
      unfold scan at marked ⊢
      generalize (kinds.mapM fun kind => scanKind site document kind (spell pieces)) = left
        at marked found
      generalize (kinds.mapM fun kind => scanKind site document kind (spell (erase pieces))) =
        right at found ⊢
      cases found with
      | failed other =>
          cases marked
          exact .failed failure
      | done _ => cases marked
  | ok placeholders =>
      cases plain : scan site document kinds (spell (erase pieces)) with
      | error failure =>
          unfold scan at marked plain
          generalize (kinds.mapM fun kind => scanKind site document kind (spell pieces)) = left
            at marked found
          generalize (kinds.mapM fun kind => scanKind site document kind (spell (erase pieces))) =
            right at found plain
          cases found with
          | failed other => cases marked
          | done _ => cases plain
      | ok others =>
          have first := ((scan_spell_iff distinct).mp marked).readTags
          have second := ((scan_spell_iff distinct).mp plain).readTags
          rw [tagsOf_erase, first] at second
          exact .done (Except.ok.inj second)

end Unplaced
end PageComposer
