import PageComposer.Proofs.Markup.Reading

namespace PageComposer

/-!
# Rewriting the tags of pieces

`rewriteTags` puts a text in place of every tag that a scan finds, all at once.
On pieces this is done piece by piece (`rewriteTags_spell_iff`): a tag becomes
what is looked up for its placeholder, and every other piece stays.  It is the
common form of a run, of an expansion, and of writing tags in another way.
-/

/-- The text with every tag of these kinds replaced by what is looked up for
it. -/
def rewriteTags (site : Site) (document : Path) (kinds : List Kind)
    (look : Placeholder -> Except Failure Text) (text : Text) : Except Failure Text := do
  let placeholders <- scan site document kinds text
  let replaced <- placeholders.mapM fun placeholder =>
    (look placeholder).map (Prod.mk placeholder)
  return substitute replaced text

/-- What stands in place of a piece. -/
def Piece.rewritten (site : Site) (document : Path) (kinds : List Kind)
    (look : Placeholder -> Except Failure Text) (piece : Piece) : Except Failure Text :=
  match piece.tagAmong? kinds with
  | some (kind, raw) => readTag site document kind 0 raw >>= look
  | none => .ok piece.text

/-- What is looked up does not depend on where the tag stands. -/
def Unplaced {A : Type} (look : Placeholder -> A) : Prop :=
  ∀ (placeholder : Placeholder) (start : Nat), look (placeholder.placed start) = look placeholder

section Rewriting

variable {site : Site} {document : Path} {kinds : List Kind}
  {look : Placeholder -> Except Failure Text} {offset : Nat} {pieces : List Piece}

theorem rewritten_of_not_tagged {piece : Piece} (other : piece.tagAmong? kinds = none) :
    piece.rewritten site document kinds look = .ok piece.text := by
  unfold Piece.rewritten
  rw [other]

theorem rewritten_of_tagged (unplaced : Unplaced look) {piece : Piece} {kind : Kind} {raw : Text}
    (tagged : piece.tagAmong? kinds = some (kind, raw)) (start : Nat) :
    piece.rewritten site document kinds look =
      readTag site document kind start raw >>= look := by
  simp only [Piece.rewritten, tagged]
  rw [readTag_placed site document kind start raw]
  cases readTag site document kind 0 raw with
  | error failure => rfl
  | ok placeholder => exact (unplaced placeholder start).symm

theorem placeholders_of_looked {placeholders : List Placeholder}
    {replaced : List (Placeholder × Text)}
    (looked : placeholders.map (fun placeholder => (look placeholder).map (Prod.mk placeholder)) =
      replaced.map .ok) : replaced.map Prod.fst = placeholders := by
  induction placeholders generalizing replaced with
  | nil =>
      cases replaced with
      | nil => rfl
      | cons entry others => cases looked
  | cons placeholder rest inductionHypothesis =>
      cases replaced with
      | nil => cases looked
      | cons entry others =>
          rw [List.map_cons, List.map_cons, List.cons.injEq] at looked
          rcases map_eq_ok_iff.mp looked.1 with ⟨text, _, equal⟩
          rw [List.map_cons, inductionHypothesis looked.2, ← equal]

/-- Replacing the spans that were read replaces their pieces. -/
theorem Reads.substituteFrom (unplaced : Unplaced look) {placeholders : List Placeholder}
    (reads : Reads site document kinds offset pieces placeholders)
    {replaced : List (Placeholder × Text)}
    (looked : placeholders.map (fun placeholder => (look placeholder).map (Prod.mk placeholder)) =
      replaced.map .ok) :
    ∃ parts : List Text, pieces.map (Piece.rewritten site document kinds look) = parts.map .ok ∧
      PageComposer.substituteFrom offset replaced (spell pieces) = parts.flatten := by
  induction reads generalizing replaced with
  | nil =>
      cases replaced with
      | nil => exact ⟨[], rfl, rfl⟩
      | cons entry others => cases looked
  | @skip offset piece pieces placeholders other behind inductionHypothesis =>
      rcases inductionHypothesis looked with ⟨parts, rewritten, joined⟩
      have spans := placeholders_of_looked looked
      refine ⟨piece.text :: parts, ?_, ?_⟩
      · rw [List.map_cons, List.map_cons, rewritten, rewritten_of_not_tagged other]
      · rw [spell_cons, substituteFrom_prepend (spans ▸ behind.laid), joined, List.flatten_cons]
  | @read offset piece pieces kind raw placeholder placeholders tagged accepted behind
      inductionHypothesis =>
      cases replaced with
      | nil => cases looked
      | cons entry others =>
          rw [List.map_cons, List.map_cons, List.cons.injEq] at looked
          rcases map_eq_ok_iff.mp looked.1 with ⟨text, found, equal⟩
          subst equal
          rcases inductionHypothesis looked.2 with ⟨parts, rewritten, joined⟩
          rcases Reads.stop_eq tagged accepted with ⟨stops, starts, tag⟩
          refine ⟨text :: parts, ?_, ?_⟩
          · rw [List.map_cons, List.map_cons, rewritten, rewritten_of_tagged unplaced tagged offset,
              accepted]
            exact congrArg (· :: parts.map Except.ok) found
          · have around : spell (piece :: pieces) = [] ++ placeholder.tag ++ spell pieces := by
              rw [spell_cons, tag, List.nil_append]
            rw [around, substituteFrom_cons starts (by rw [stops, starts, tag]), joined]
            rfl

/-- Pieces that can be rewritten were read. -/
theorem exists_reads_of_rewritten (unplaced : Unplaced look) {parts : List Text}
    (rewritten : pieces.map (Piece.rewritten site document kinds look) = parts.map .ok) :
    ∃ placeholders, Reads site document kinds offset pieces placeholders ∧
      ∃ replaced : List (Placeholder × Text), placeholders.map
        (fun placeholder => (look placeholder).map (Prod.mk placeholder)) =
          replaced.map .ok := by
  induction pieces generalizing offset parts with
  | nil => exact ⟨[], .nil, [], rfl⟩
  | cons piece others inductionHypothesis =>
      cases parts with
      | nil => cases rewritten
      | cons part rest =>
          rw [List.map_cons, List.map_cons, List.cons.injEq] at rewritten
          rcases @inductionHypothesis (offset + Text.byteSize piece.text) rest rewritten.2 with
            ⟨placeholders, reads, replaced, looked⟩
          cases tagged : piece.tagAmong? kinds with
          | none => exact ⟨placeholders, .skip tagged reads, replaced, looked⟩
          | some tag =>
              rcases tag with ⟨kind, raw⟩
              have here := rewritten.1
              rw [rewritten_of_tagged unplaced tagged offset] at here
              rcases bind_eq_ok_iff.mp here with ⟨placeholder, accepted, found⟩
              rw [← (Reads.stop_eq tagged accepted).1] at reads
              refine ⟨placeholder :: placeholders, .read tagged accepted reads,
                (placeholder, part) :: replaced, ?_⟩
              rw [List.map_cons, List.map_cons, looked, found]
              rfl

/-- The tags of pieces are rewritten piece by piece. -/
theorem rewriteTags_spell_iff (distinct : kinds.Nodup) (unplaced : Unplaced look) {result : Text} :
    rewriteTags site document kinds look (spell pieces) = .ok result ↔
      ∃ parts : List Text, pieces.map (Piece.rewritten site document kinds look) = parts.map .ok ∧
        result = parts.flatten := by
  constructor
  · intro done
    rcases bind_eq_ok_iff.mp done with ⟨placeholders, scanned, continued⟩
    rcases bind_eq_ok_iff.mp continued with ⟨replaced, looked, equal⟩
    cases equal
    exact ((scan_spell_iff distinct).mp scanned).substituteFrom unplaced (mapM_eq_ok_iff.mp looked)
  · rintro ⟨parts, rewritten, equal⟩
    rcases @exists_reads_of_rewritten _ _ _ _ 0 _ unplaced _ rewritten with
      ⟨placeholders, reads, replaced, looked⟩
    rcases reads.substituteFrom unplaced looked with ⟨again, same, joined⟩
    rw [rewritten] at same
    have equalParts : parts = again := (List.map_inj_right fun _ _ => Except.ok.inj).mp same
    apply bind_eq_ok_iff.mpr
    refine ⟨placeholders, (scan_spell_iff distinct).mpr reads, bind_eq_ok_iff.mpr
      ⟨replaced, mapM_eq_ok_iff.mpr looked, ?_⟩⟩
    rw [equal, equalParts, ← joined]
    rfl

end Rewriting
end PageComposer
