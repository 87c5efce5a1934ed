import Mathlib.Data.List.Pairwise
import PageComposer.Proofs.Run.Failing
import PageComposer.Proofs.Run.Simultaneous
import PageComposer.Proofs.Scan.Nesting

namespace PageComposer

/-!
# Documents that are rejected for their tags

A run begins by comparing each tag with the one behind it.  That is enough: where
neighbours are apart all tags are (`pairwise_of_ensureDisjoint`), and tags that are not
apart end together (`apart_or_nested`).  So the check refuses a document exactly when
two of its tags share their end (`ensureDisjoint_scanned`), and no other part of a run
fails in this way unless the site itself does (`Composer.run_failsIn`).
-/

/-- Two of the tags end at the same byte. -/
def ShareEnd (placeholders : List Placeholder) : Prop :=
  ∃ first ∈ placeholders, ∃ second ∈ placeholders, first ≠ second ∧ first.stop = second.stop

section Scanned

variable {site : Site} {document template : Path} {kinds : List Kind} {text : Text}
  {placeholders : List Placeholder}

/-- The check of neighbours refuses the tags of a scan exactly when two of them end
together. -/
theorem ensureDisjoint_scanned (distinct : kinds.Nodup)
    (scanned : scan site document kinds text = .ok placeholders) :
    (¬ ShareEnd placeholders ∧
      ensureDisjoint template
        (placeholders.mergeSort fun left right => right.start ≤ left.start) = .ok ()) ∨
    ∃ first ∈ placeholders, ∃ second ∈ placeholders, first.start < second.start ∧
      first.stop = second.stop ∧
      ensureDisjoint template
        (placeholders.mergeSort fun left right => right.start ≤ left.start) =
          .error (.overlapping first.tag second.tag template) := by
  have strict := scan_strict distinct scanned
  rw [mergeSort_descending (List.Perm.refl placeholders) strict]
  have nonempty : ∀ tag ∈ placeholders.reverse, tag.start < tag.stop :=
    fun tag member => scan_start_lt_stop scanned (List.mem_reverse.mp member)
  cases checked : ensureDisjoint template placeholders.reverse with
  | ok _ =>
      refine Or.inl ⟨?_, rfl⟩
      rintro ⟨first, firstMember, second, secondMember, different, together⟩
      have apart : placeholders.Pairwise fun left right =>
          left.stop ≤ right.start ∨ right.stop ≤ left.start :=
        (List.pairwise_reverse.mp (pairwise_of_ensureDisjoint nonempty checked)).imp Or.inl
      have firstFull := nonempty first (List.mem_reverse.mpr firstMember)
      have secondFull := nonempty second (List.mem_reverse.mpr secondMember)
      have symmetric : Std.Symm fun left right : Placeholder =>
          left.stop ≤ right.start ∨ right.stop ≤ left.start := ⟨fun _ _ => Or.symm⟩
      rcases apart.forall firstMember secondMember different with before | behind
      · omega
      · omega
  | error failure =>
      right
      rcases exists_neighbours_of_ensureDisjoint checked with
        ⟨front, second, first, back, split, overlap, equal⟩
      have firstMember : first ∈ placeholders := by
        rw [← List.mem_reverse, split]
        simp
      have secondMember : second ∈ placeholders := by
        rw [← List.mem_reverse, split]
        simp
      have order : first.start < second.start := by
        have descending := List.pairwise_reverse.mpr strict
        rw [split] at descending
        have behind := (List.pairwise_append.mp descending).2.1
        exact (List.pairwise_cons.mp behind).1 first List.mem_cons_self
      rcases apart_or_nested scanned firstMember secondMember order with apart | ⟨_, _, _, stops⟩
      · omega
      · exact ⟨first, firstMember, second, secondMember, order, stops.symm, by rw [equal]⟩

namespace Composer

variable {composer : Composer}

/-- A run on scanned tags is refused when two of them end together, and otherwise fails in
this way only if the site does. -/
theorem run_rejects (distinct : kinds.Nodup) (sited : composer.site = site)
    (scanned : PageComposer.scan site document kinds text = .ok placeholders) (template : Path)
    (options : Options) (includes : Includes) :
    (ShareEnd placeholders ->
      ∃ first ∈ placeholders, ∃ second ∈ placeholders, first.start < second.start ∧
        first.stop = second.stop ∧
        composer.run template options text placeholders includes =
          .error (.overlapping first.tag second.tag template)) ∧
    (¬ ShareEnd placeholders -> ∀ failure,
      composer.run template options text placeholders includes = .error failure ->
      failure.isOverlap = true -> site.Gives failure) := by
  have causes : composer.site.Causes fun failure =>
      failure.isOverlap = true -> site.Gives failure := by
    rw [sited]
    exact ⟨fun failure _ apart overlap => absurd (apart.symm.trans overlap) (by decide),
      fun failure given _ _ => given⟩
  rcases @ensureDisjoint_scanned _ _ template _ _ _ distinct scanned with
    ⟨alone, checked⟩ | ⟨first, firstMember, second, secondMember, order, together, refused⟩
  · refine ⟨fun shared => absurd shared alone, fun _ failure failed => ?_⟩
    apply run_failsIn causes _ options text includes failure failed
    rw [checked]
    exact .ok ()
  · constructor
    · intro _
      refine ⟨first, firstMember, second, secondMember, order, together, ?_⟩
      unfold run
      dsimp only
      rw [refused]
      rfl
    · intro alone
      apply absurd _ alone
      refine ⟨first, firstMember, second, secondMember, ?_, together⟩
      intro same
      rw [same] at order
      exact Nat.lt_irrefl _ order

end Composer

/-- The order of the kinds is lost in what a scan for several kinds finds: tags in the
order of their starts, of which any two are apart or the later one is the end of the
other.  A run refuses the document exactly when two of them end together. -/
theorem scan_nests (site : Site) (document : Path) (text : Text) {kinds others : List Kind}
    (distinct : kinds.Nodup) (same : kinds.Perm others) :
    ((∃ placeholders, scan site document kinds text = .ok placeholders) ↔
      ∃ placeholders, scan site document others text = .ok placeholders) ∧
    ∀ placeholders, scan site document kinds text = .ok placeholders ->
      scan site document others text = .ok placeholders ∧
      placeholders.Pairwise (fun former later => former.start < later.start) ∧
      placeholders.Pairwise
        (fun former later => former.stop ≤ later.start ∨ EndOf later former) ∧
      ∀ (composer : Composer) (template : Path) (options : Options) (includes : Includes),
        composer.site = site ->
        (ShareEnd placeholders ->
          ∃ first ∈ placeholders, ∃ second ∈ placeholders, first.start < second.start ∧
            first.stop = second.stop ∧
            composer.run template options text placeholders includes =
              .error (.overlapping first.tag second.tag template)) ∧
        (¬ ShareEnd placeholders -> ∀ failure,
          composer.run template options text placeholders includes = .error failure ->
          failure.isOverlap = true -> site.Gives failure) := by
  refine ⟨⟨?_, ?_⟩, fun placeholders scanned => ?_⟩
  · rintro ⟨placeholders, scanned⟩
    exact ⟨placeholders, scan_perm distinct same scanned⟩
  · rintro ⟨placeholders, scanned⟩
    exact ⟨placeholders, scan_perm (same.nodup_iff.mp distinct) same.symm scanned⟩
  · have strict := scan_strict distinct scanned
    refine ⟨scan_perm distinct same scanned, strict, ?_, ?_⟩
    · exact strict.imp_of_mem fun formerMember laterMember order =>
        apart_or_nested scanned formerMember laterMember order
    · intro composer template options includes sited
      exact Composer.run_rejects distinct sited scanned template options includes

end Scanned

/-- A tag in the arguments of another one. -/
def coveredText : Text := "<!-- layout:/a:<!-- file:/b -->".toList

/-- Both tags, in the order of their starts. -/
def coveredTags : List Placeholder :=
  let site := Listing.empty.toSite (.atRoot ⟨"/site".toList⟩)
  let read (kind : Kind) (start : Nat) (raw : Text) : List Placeholder :=
    (readTag site ⟨"/site/index.html".toList⟩ kind start raw).toOption.toList
  read .layout 0 "/a:<!-- file:/b".toList ++ read .file 15 "/b".toList

set_option maxRecDepth 100000 in
theorem scan_nests_covered :
    ∃ first ∈ coveredTags, ∃ second ∈ coveredTags, first.start < second.start ∧
      first.stop = second.stop ∧
      ({ site := Listing.empty.toSite (.atRoot ⟨"/site".toList⟩) } : Composer).run
          ⟨"/site/index.html".toList⟩ {} coveredText coveredTags {} =
        .error (.overlapping first.tag second.tag ⟨"/site/index.html".toList⟩) := by
  have scanned : scan (Listing.empty.toSite (.atRoot ⟨"/site".toList⟩))
      ⟨"/site/index.html".toList⟩ [.file, .layout] coveredText = .ok coveredTags := by
    apply @scan_of_perm _ _ _ _ _ ([.file, .layout].map fun kind =>
      coveredTags.filter fun placeholder => placeholder.kind = kind)
    all_goals decide +kernel
  have shared : ShareEnd coveredTags := by
    unfold ShareEnd
    decide +kernel
  have distinct : [Kind.file, .layout].Nodup := by decide
  have swapped := List.Perm.swap Kind.layout .file []
  have nests := (scan_nests _ _ coveredText distinct swapped).2 _ scanned
  exact (nests.2.2.2 _ _ {} {} rfl).1 shared

end PageComposer
