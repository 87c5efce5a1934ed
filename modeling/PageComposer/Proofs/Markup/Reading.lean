import PageComposer.Proofs.Markup.Sound
import PageComposer.Proofs.Scan.Meeting

namespace PageComposer

/-!
# Reading the tags of pieces

A scan of the text that pieces spell reads those pieces that are tags of a
wanted kind, each at the byte where it starts, and nothing else
(`scan_spell_iff`).  Since this is said piece by piece, the scan of joined
texts is the scan of their parts.

What is read from a tag depends on where it stands only in the offsets of its
span (`readTag_placed`).
-/

/-- The placeholder with its span at another byte. -/
def Placeholder.placed (placeholder : Placeholder) (start : Nat) : Placeholder :=
  { placeholder with start := start, stop := start + Text.byteSize placeholder.tag }

theorem readTag_placed (site : Site) (document : Path) (kind : Kind) (start : Nat) (raw : Text) :
    readTag site document kind start raw =
      (readTag site document kind 0 raw).map fun placeholder => placeholder.placed start := by
  unfold readTag
  dsimp only
  cases Body.ofRaw kind raw (kind.opening ++ raw ++ tagClose) with
  | error failure => rfl
  | ok body => cases empty : body.name.isEmpty <;> simp [empty, Except.map, Placeholder.placed]

/-- The kind and the body of a piece that is a tag of one of the kinds. -/
def Piece.tagAmong? (kinds : List Kind) : Piece -> Option (Kind × Text)
  | .led (.tag kind) raw _ => if kind ∈ kinds then some (kind, raw) else none
  | .led .begins _ _ | .led .ends _ _ | .plain _ _ | .remark _ _ _ _ => none

/-- The tags of pieces that stand at byte `offset` are read as placeholders. -/
inductive Reads (site : Site) (document : Path) (kinds : List Kind) :
    Nat -> List Piece -> List Placeholder -> Prop
  | nil {offset : Nat} : Reads site document kinds offset [] []
  | skip {offset : Nat} {piece : Piece} {pieces : List Piece} {placeholders : List Placeholder}
      (other : piece.tagAmong? kinds = none)
      (behind : Reads site document kinds (offset + Text.byteSize piece.text) pieces placeholders) :
      Reads site document kinds offset (piece :: pieces) placeholders
  | read {offset : Nat} {piece : Piece} {pieces : List Piece} {kind : Kind} {raw : Text}
      {placeholder : Placeholder} {placeholders : List Placeholder}
      (tagged : piece.tagAmong? kinds = some (kind, raw))
      (accepted : readTag site document kind offset raw = .ok placeholder)
      (behind : Reads site document kinds placeholder.stop pieces placeholders) :
      Reads site document kinds offset (piece :: pieces) (placeholder :: placeholders)

section Pieces

variable {kinds : List Kind} {piece : Piece}

theorem tagAmong?_eq_some {kind : Kind} {raw : Text}
    (tagged : piece.tagAmong? kinds = some (kind, raw)) :
    kind ∈ kinds ∧ ∃ tidy, piece = .led (.tag kind) raw tidy := by
  unfold Piece.tagAmong? at tagged
  split at tagged
  · rename_i other inner tidy
    split at tagged
    · rename_i wanted
      cases tagged
      exact ⟨wanted, tidy, rfl⟩
    · cases tagged
  all_goals cases tagged

theorem ne_tag_of_tagAmong?_eq_none (other : piece.tagAmong? kinds = none) {kind : Kind}
    (wanted : kind ∈ kinds) : ∀ raw tidy, piece ≠ .led (.tag kind) raw tidy := by
  intro raw tidy equal
  subst equal
  simp [Piece.tagAmong?, wanted] at other

/-- A tag that is looked for among fewer kinds. -/
theorem tagAmong?_of_tagAmong? {kind : Kind} {raw : Text} (fewer : List Kind)
    (tagged : piece.tagAmong? kinds = some (kind, raw)) :
    piece.tagAmong? fewer = if kind ∈ fewer then some (kind, raw) else none := by
  rcases tagAmong?_eq_some tagged with ⟨_, tidy, equal⟩
  subst equal
  rfl

theorem tagAmong?_eq_none_of_subset {fewer : List Kind} (less : fewer ⊆ kinds)
    (other : piece.tagAmong? kinds = none) : piece.tagAmong? fewer = none := by
  cases found : piece.tagAmong? fewer with
  | none => rfl
  | some tag =>
      rcases tagAmong?_eq_some found with ⟨wanted, tidy, equal⟩
      exact absurd equal (ne_tag_of_tagAmong?_eq_none other (less wanted) _ tidy)

theorem text_of_tagAmong? {kind : Kind} {raw : Text}
    (tagged : piece.tagAmong? kinds = some (kind, raw)) :
    piece.text = kind.opening ++ raw ++ tagClose := by
  rcases tagAmong?_eq_some tagged with ⟨_, tidy, equal⟩
  rw [equal]
  rfl

end Pieces

/-! ## One kind -/

section OneKind

variable {site : Site} {document : Path} {kind : Kind} {offset : Nat}

theorem scanKindFrom_tag {raw : Text} (tidy : Tidy raw) (more : Text) :
    scanKindFrom site document kind offset ((Piece.led (.tag kind) raw tidy).text ++ more) =
      (do
        let placeholder <- readTag site document kind offset raw
        let others <- scanKindFrom site document kind placeholder.stop more
        return placeholder :: others) :=
  scanKindFrom_tag_append tidy.unclosed more

/-- A scan for one kind reads the pieces that are tags of this kind. -/
theorem scanKindFrom_spell_iff {pieces : List Piece} {placeholders : List Placeholder} :
    scanKindFrom site document kind offset (spell pieces) = .ok placeholders ↔
      Reads site document [kind] offset pieces placeholders := by
  induction pieces generalizing offset placeholders with
  | nil =>
      rw [spell_nil, scanKindFrom_nil]
      constructor
      · intro equal
        cases equal
        exact .nil
      · intro reads
        cases reads
        rfl
  | cons piece others inductionHypothesis =>
      rw [spell_cons]
      cases tagged : piece.tagAmong? [kind] with
      | none =>
          have passed := @cut?_opening_skip (.tag kind) piece
            (ne_tag_of_tagAmong?_eq_none tagged List.mem_cons_self) (spell others)
          rw [scanKindFrom_skip passed, inductionHypothesis]
          constructor
          · exact .skip tagged
          · intro reads
            cases reads with
            | skip _ behind => exact behind
            | read again _ _ =>
                rw [tagged] at again
                cases again
      | some tag =>
          rcases tag with ⟨found, raw⟩
          rcases tagAmong?_eq_some tagged with ⟨wanted, tidy, equal⟩
          rw [List.mem_singleton.mp wanted] at equal tagged
          subst equal
          rw [scanKindFrom_tag, bind_eq_ok_iff]
          constructor
          · rintro ⟨placeholder, accepted, continued⟩
            rcases bind_eq_ok_iff.mp continued with ⟨rest, later, joined⟩
            cases joined
            exact .read tagged accepted (inductionHypothesis.mp later)
          · intro reads
            cases reads with
            | skip other _ =>
                rw [tagged] at other
                cases other
            | @read _ _ _ _ _ placeholder rest again accepted behind =>
                rw [tagged] at again
                cases again
                exact ⟨placeholder, accepted, bind_eq_ok_iff.mpr
                  ⟨rest, inductionHypothesis.mpr behind, rfl⟩⟩

end OneKind

/-! ## Several kinds -/

namespace Reads

variable {site : Site} {document : Path} {kinds : List Kind} {offset : Nat}
  {pieces : List Piece} {placeholders : List Placeholder}

theorem stop_eq {kind : Kind} {raw : Text} {piece : Piece} {placeholder : Placeholder}
    (tagged : piece.tagAmong? kinds = some (kind, raw))
    (accepted : readTag site document kind offset raw = .ok placeholder) :
    placeholder.stop = offset + Text.byteSize piece.text ∧ placeholder.start = offset ∧
      placeholder.tag = piece.text := by
  have span := readTag_span accepted
  rw [text_of_tagAmong? tagged, ← span.2.2]
  exact ⟨span.2.1, span.1, rfl⟩

theorem laid (reads : Reads site document kinds offset pieces placeholders) :
    Laid offset placeholders (spell pieces) := by
  induction reads with
  | nil => exact .nil
  | skip _ _ inductionHypothesis => exact inductionHypothesis.prepend
  | @read offset piece pieces _ _ placeholder placeholders tagged accepted _ inductionHypothesis =>
      rcases stop_eq tagged accepted with ⟨stops, starts, tag⟩
      have joined : spell (piece :: pieces) = [] ++ placeholder.tag ++ spell pieces := by
        rw [spell_cons, tag, List.nil_append]
      rw [joined]
      refine .cons (starts.trans (Nat.add_zero offset).symm) ?_ inductionHypothesis
      rw [stops, starts, tag]

theorem kind_mem (reads : Reads site document kinds offset pieces placeholders) :
    ∀ placeholder ∈ placeholders, placeholder.kind ∈ kinds := by
  induction reads with
  | nil => simp
  | skip _ _ inductionHypothesis => exact inductionHypothesis
  | read tagged accepted _ inductionHypothesis =>
      rw [List.forall_mem_cons]
      refine ⟨?_, inductionHypothesis⟩
      rw [readTag_kind accepted]
      exact (tagAmong?_eq_some tagged).1

/-- The placeholders are nowhere empty and come one behind the other. -/
theorem ordered (reads : Reads site document kinds offset pieces placeholders) :
    (∀ placeholder ∈ placeholders,
      offset ≤ placeholder.start ∧ placeholder.start < placeholder.stop) ∧
      placeholders.Pairwise fun former later => former.stop ≤ later.start := by
  induction reads with
  | nil => simp
  | skip _ _ inductionHypothesis =>
      refine ⟨?_, inductionHypothesis.2⟩
      intro placeholder member
      have behind := inductionHypothesis.1 placeholder member
      omega
  | @read offset piece pieces kind _ placeholder placeholders tagged accepted _
      inductionHypothesis =>
      rcases stop_eq tagged accepted with ⟨stops, starts, _⟩
      have positive : 0 < Text.byteSize piece.text := by
        rw [text_of_tagAmong? tagged, Text.byteSize_append, Text.byteSize_append]
        have closing : Text.byteSize tagClose = 4 := by decide
        omega
      rw [List.forall_mem_cons, List.pairwise_cons]
      refine ⟨⟨by omega, ?_⟩, fun later member => (inductionHypothesis.1 later member).1,
        inductionHypothesis.2⟩
      intro later member
      have behind := inductionHypothesis.1 later member
      omega

end Reads

/-- A piece that is read as a placeholder, between the pieces around it. -/
structure ReadAt (site : Site) (document : Path) (kinds : List Kind) (offset : Nat)
    (pieces : List Piece) (placeholder : Placeholder) (before : List Piece) (piece : Piece)
    (after : List Piece) : Prop where
  joined : pieces = before ++ piece :: after
  read : ∃ raw, piece.tagAmong? kinds = some (placeholder.kind, raw) ∧
    readTag site document placeholder.kind placeholder.start raw = .ok placeholder
  tag : placeholder.tag = piece.text
  start : placeholder.start = offset + Text.byteSize (spell before)
  stop : placeholder.stop = placeholder.start + Text.byteSize placeholder.tag

namespace Reads

variable {site : Site} {document : Path} {kinds : List Kind} {offset : Nat}
  {pieces : List Piece} {placeholders : List Placeholder}

/-- What is read before a placeholder stands in front of its piece, and what is
read after it behind. -/
theorem split {earlier later : List Placeholder} {placeholder : Placeholder}
    (reads : Reads site document kinds offset pieces (earlier ++ placeholder :: later)) :
    ∃ before piece after,
      ReadAt site document kinds offset pieces placeholder before piece after ∧
      Reads site document kinds offset before earlier ∧
      Reads site document kinds placeholder.stop after later := by
  generalize whole : earlier ++ placeholder :: later = all at reads
  induction reads generalizing earlier with
  | nil => cases earlier <;> cases whole
  | @skip offset first rest _ other _ inductionHypothesis =>
      rcases inductionHypothesis whole with ⟨before, piece, after, found, former, latter⟩
      refine ⟨first :: before, piece, after, ⟨?_, found.read, found.tag, ?_, found.stop⟩,
        .skip other former, latter⟩
      · rw [found.joined]
        rfl
      · rw [found.start, spell_cons, Text.byteSize_append, Nat.add_assoc]
  | @read offset first rest kind raw found _ tagged accepted behind inductionHypothesis =>
      rcases stop_eq tagged accepted with ⟨stops, starts, tag⟩
      cases earlier with
      | nil =>
          cases whole
          refine ⟨[], first, rest, ⟨rfl, ⟨raw, ?_, ?_⟩, tag, starts, ?_⟩, .nil, behind⟩
          · rw [readTag_kind accepted]
            exact tagged
          · rw [readTag_kind accepted, starts]
            exact accepted
          · rw [stops, starts, tag]
      | cons second others =>
          cases whole
          rcases inductionHypothesis rfl with ⟨before, piece, after, inside, former, latter⟩
          refine ⟨first :: before, piece, after, ⟨?_, inside.read, inside.tag, ?_, inside.stop⟩,
            .read tagged accepted former, latter⟩
          · rw [inside.joined]
            rfl
          · rw [inside.start, stops, spell_cons, Text.byteSize_append, Nat.add_assoc]

/-- What is read from joined pieces is read from each part. -/
theorem exists_append {left right : List Piece}
    (reads : Reads site document kinds offset (left ++ right) placeholders) :
    ∃ first second, placeholders = first ++ second ∧
      Reads site document kinds offset left first ∧
      Reads site document kinds (offset + Text.byteSize (spell left)) right second := by
  induction left generalizing offset placeholders with
  | nil => exact ⟨[], placeholders, rfl, .nil, reads⟩
  | cons piece others inductionHypothesis =>
      rw [spell_cons, Text.byteSize_append, ← Nat.add_assoc]
      cases reads with
      | skip other behind =>
          rcases inductionHypothesis behind with ⟨first, second, joined, former, latter⟩
          exact ⟨first, second, joined, .skip other former, latter⟩
      | @read _ _ _ _ _ placeholder _ tagged accepted behind =>
          rcases inductionHypothesis behind with ⟨first, second, joined, former, latter⟩
          rw [(stop_eq tagged accepted).1] at latter
          refine ⟨placeholder :: first, second, ?_, .read tagged accepted former, latter⟩
          rw [joined]
          rfl

theorem exists_readAt (reads : Reads site document kinds offset pieces placeholders)
    {placeholder : Placeholder} (member : placeholder ∈ placeholders) :
    ∃ before piece after,
      ReadAt site document kinds offset pieces placeholder before piece after := by
  rcases List.append_of_mem member with ⟨earlier, later, equal⟩
  rw [equal] at reads
  rcases reads.split with ⟨before, piece, after, found, _, _⟩
  exact ⟨before, piece, after, found⟩

/-- A scan for fewer kinds reads those of the placeholders that are of them. -/
theorem filter (reads : Reads site document kinds offset pieces placeholders)
    {fewer : List Kind} (less : fewer ⊆ kinds) :
    Reads site document fewer offset pieces
      (placeholders.filter fun placeholder => decide (placeholder.kind ∈ fewer)) := by
  induction reads with
  | nil => exact .nil
  | skip other _ inductionHypothesis =>
      exact .skip (tagAmong?_eq_none_of_subset less other) inductionHypothesis
  | @read offset piece pieces kind raw placeholder placeholders tagged accepted _
      inductionHypothesis =>
      have again := tagAmong?_of_tagAmong? fewer tagged
      by_cases wanted : kind ∈ fewer
      · rw [if_pos wanted] at again
        rw [List.filter_cons_of_pos (by simpa [readTag_kind accepted] using wanted)]
        exact .read again accepted inductionHypothesis
      · rw [if_neg wanted] at again
        rw [List.filter_cons_of_neg (by simpa [readTag_kind accepted] using wanted)]
        apply skip again
        rw [← (stop_eq tagged accepted).1]
        exact inductionHypothesis

end Reads

/-- Tags that are read kind by kind are read together. -/
theorem exists_reads {site : Site} {document : Path} {kinds : List Kind} {offset : Nat}
    {pieces : List Piece}
    (each : ∀ kind ∈ kinds, ∃ found, Reads site document [kind] offset pieces found) :
    ∃ placeholders, Reads site document kinds offset pieces placeholders := by
  induction pieces generalizing offset with
  | nil => exact ⟨[], .nil⟩
  | cons piece others inductionHypothesis =>
      have behind : ∀ kind ∈ kinds, ∃ found,
          Reads site document [kind] (offset + Text.byteSize piece.text) others found := by
        intro kind wanted
        rcases each kind wanted with ⟨found, reads⟩
        cases reads with
        | skip _ later => exact ⟨found, later⟩
        | read tagged accepted later =>
            rw [(Reads.stop_eq tagged accepted).1] at later
            exact ⟨_, later⟩
      rcases inductionHypothesis behind with ⟨rest, later⟩
      cases tagged : piece.tagAmong? kinds with
      | none => exact ⟨rest, .skip tagged later⟩
      | some tag =>
          rcases tag with ⟨kind, raw⟩
          have wanted := (tagAmong?_eq_some tagged).1
          rcases each kind wanted with ⟨found, reads⟩
          have own := tagAmong?_of_tagAmong? [kind] tagged
          rw [if_pos List.mem_cons_self] at own
          cases reads with
          | skip other _ =>
              rw [own] at other
              cases other
          | read again accepted _ =>
              rw [own] at again
              cases again
              rw [← (Reads.stop_eq tagged accepted).1] at later
              exact ⟨_, .read tagged accepted later⟩

/-- Pieces can be read, wherever they stand, when each of their tags can. -/
theorem exists_reads_iff {site : Site} {document : Path} {kinds : List Kind} {offset : Nat}
    {pieces : List Piece} :
    (∃ placeholders, Reads site document kinds offset pieces placeholders) ↔
      ∀ piece ∈ pieces, ∀ kind raw, piece.tagAmong? kinds = some (kind, raw) ->
        ∃ placeholder, readTag site document kind 0 raw = .ok placeholder := by
  induction pieces generalizing offset with
  | nil =>
      constructor
      · intro _ piece member
        cases member
      · intro _
        exact ⟨[], .nil⟩
  | cons piece others inductionHypothesis =>
      rw [List.forall_mem_cons]
      constructor
      · rintro ⟨placeholders, reads⟩
        cases reads with
        | skip other behind =>
            refine ⟨?_, inductionHypothesis.mp ⟨_, behind⟩⟩
            intro kind raw tagged
            rw [other] at tagged
            cases tagged
        | read tagged accepted behind =>
            refine ⟨?_, inductionHypothesis.mp ⟨_, behind⟩⟩
            intro kind raw again
            rw [tagged] at again
            cases again
            rw [readTag_placed] at accepted
            rcases map_eq_ok_iff.mp accepted with ⟨unplaced, found, _⟩
            exact ⟨unplaced, found⟩
      · rintro ⟨here, behind⟩
        cases tagged : piece.tagAmong? kinds with
        | none =>
            rcases inductionHypothesis.mpr behind with ⟨placeholders, reads⟩
            exact ⟨placeholders, .skip tagged reads⟩
        | some tag =>
            rcases tag with ⟨kind, raw⟩
            rcases here kind raw tagged with ⟨unplaced, found⟩
            have accepted := readTag_placed site document kind offset raw
            rw [found] at accepted
            rcases (@inductionHypothesis (offset + Text.byteSize piece.text)).mpr behind with
              ⟨placeholders, reads⟩
            rw [← (Reads.stop_eq tagged accepted).1] at reads
            exact ⟨_, .read tagged accepted reads⟩

theorem flatten_filter_perm {kinds : List Kind} (distinct : kinds.Nodup)
    {placeholders : List Placeholder}
    (wanted : ∀ placeholder ∈ placeholders, placeholder.kind ∈ kinds) :
    ((kinds.map fun kind =>
      placeholders.filter fun placeholder => decide (placeholder.kind ∈ [kind])).flatten).Perm
        placeholders := by
  induction kinds generalizing placeholders with
  | nil =>
      cases placeholders with
      | nil => exact .refl []
      | cons first others => exact absurd (wanted first List.mem_cons_self) (by simp)
  | cons kind others inductionHypothesis =>
      rcases List.nodup_cons.mp distinct with ⟨fresh, rest⟩
      have split := List.filter_append_perm
        (fun placeholder : Placeholder => decide (placeholder.kind ∈ [kind])) placeholders
      refine List.Perm.trans ?_ split
      rw [List.map_cons, List.flatten_cons]
      apply List.Perm.append_left
      have remaining : ∀ placeholder ∈ placeholders.filter fun placeholder =>
          !decide (placeholder.kind ∈ [kind]), placeholder.kind ∈ others := by
        intro placeholder member
        rcases List.mem_filter.mp member with ⟨within, different⟩
        rcases List.mem_cons.mp (wanted placeholder within) with same | behind
        · simp [same] at different
        · exact behind
      have later := inductionHypothesis rest remaining
      refine List.Perm.trans (List.Perm.of_eq ?_) later
      congr 1
      apply List.map_congr_left
      intro other member
      rw [List.filter_filter]
      apply List.filter_congr
      intro placeholder _
      by_cases same : placeholder.kind = other
      · have different : other ≠ kind := fun equal => fresh (equal ▸ member)
        simp [same, different]
      · simp [same]

/-- A scan of pieces reads the tags among them in their order. -/
theorem scan_spell_iff {site : Site} {document : Path} {kinds : List Kind}
    (distinct : kinds.Nodup) {pieces : List Piece} {placeholders : List Placeholder} :
    scan site document kinds (spell pieces) = .ok placeholders ↔
      Reads site document kinds 0 pieces placeholders := by
  have backwards {ordered : List Placeholder}
      (reads : Reads site document kinds 0 pieces ordered) :
      scan site document kinds (spell pieces) = .ok ordered := by
    apply scan_of_perm _ (flatten_filter_perm distinct reads.kind_mem)
    · apply reads.ordered.2.imp_of_mem
      intro former later member _ before
      have nonempty := (reads.ordered.1 former member).2
      omega
    · rw [mapM_eq_ok_iff, List.map_map]
      apply List.map_congr_left
      intro kind wanted
      apply scanKindFrom_spell_iff.mpr
      apply reads.filter
      intro other member
      rw [List.mem_singleton.mp member]
      exact wanted
  constructor
  · intro scanned
    rcases exists_scanKind_of_scan scanned with ⟨found, read, _⟩
    have each : ∀ kind ∈ kinds, ∃ list, Reads site document [kind] 0 pieces list := by
      intro kind wanted
      have image : scanKind site document kind (spell pieces) ∈ found.map Except.ok := by
        rw [← mapM_eq_ok_iff.mp read]
        exact List.mem_map_of_mem wanted
      rcases List.mem_map.mp image with ⟨list, _, equal⟩
      exact ⟨list, scanKindFrom_spell_iff.mp equal.symm⟩
    rcases exists_reads each with ⟨ordered, reads⟩
    rw [backwards reads] at scanned
    cases scanned
    exact reads
  · exact backwards

end PageComposer
