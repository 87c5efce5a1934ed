import PageComposer.Addressing
import PageComposer.Proofs.Path.Selection
import PageComposer.Proofs.Text.Order

namespace PageComposer
namespace Addressing

/-!
# Named directories

However named directories are registered, there is one for each name, and it is an
absolute path in normal form if the root is absolute (`IsSettled`).  So a name leads to
the directory that is listed with it (`IsSettled.lookup`).

The address of a file is below the deepest named directory that it lies in
(`IsSettled.address_named`), and below the root where there is none
(`IsSettled.address_unnamed`).
-/

/-- The root and the named directories are absolute and in normal form, and the names are
in order. -/
structure IsSettled (addressing : Addressing) : Prop where
  root : addressing.root.IsCanonical
  directories : ∀ entry ∈ addressing.named, entry.2.IsCanonical
  sorted : (addressing.named.map Prod.fst).Pairwise (· < ·)

/-! ## Registering -/

theorem mem_insertSorted {name : Text} {directory : Path} {entries : List (Text × Path)}
    {entry : Text × Path} (member : entry ∈ insertSorted name directory entries) :
    entry = (name, directory) ∨ entry ∈ entries := by
  induction entries with
  | nil => exact Or.inl (List.mem_singleton.mp member)
  | cons first rest inductionHypothesis =>
      unfold insertSorted at member
      split at member
      · exact (List.mem_cons.mp member).imp_right (List.mem_cons_of_mem first)
      · split at member
        · exact List.mem_cons.mp member
        · rcases List.mem_cons.mp member with here | later
          · exact Or.inr (here ▸ List.mem_cons_self)
          · exact (inductionHypothesis later).imp_right (List.mem_cons_of_mem first)

theorem pairwise_insertSorted {name : Text} {entries : List (Text × Path)}
    (sorted : (entries.map Prod.fst).Pairwise (· < ·)) (directory : Path) :
    ((insertSorted name directory entries).map Prod.fst).Pairwise (· < ·) := by
  induction entries with
  | nil => exact List.pairwise_singleton _ _
  | cons first rest inductionHypothesis =>
      rw [List.map_cons] at sorted
      have both := List.pairwise_cons.mp sorted
      unfold insertSorted
      split
      · rename_i equal
        rw [List.map_cons, equal]
        exact sorted
      · rename_i different
        split
        · rename_i before
          have before := Text.precedes_iff.mp before
          refine List.pairwise_cons.mpr ⟨?_, sorted⟩
          intro other member
          rcases List.mem_cons.mp member with same | later
          · exact same ▸ before
          · exact lt_trans before (both.1 other later)
        · rename_i notBefore
          refine List.pairwise_cons.mpr ⟨?_, inductionHypothesis both.2⟩
          intro other member
          rcases List.mem_map.mp member with ⟨entry, inserted, key⟩
          rcases mem_insertSorted inserted with new | former
          · rw [← key, new]
            exact Text.lt_of_not_precedes different notBefore
          · exact key ▸ both.1 entry.1 (List.mem_map_of_mem former)

theorem isSettled_atRoot {root : Path} (absolute : root.isAbsolute = true) (stray : Stray) :
    (Addressing.atRoot root stray).IsSettled :=
  ⟨Path.isCanonical_normalize absolute, by simp [atRoot], .nil⟩

namespace IsSettled

variable {addressing : Addressing}

theorem withNamed (settled : addressing.IsSettled) (name : Text) (directory : Path) :
    (addressing.withNamed name directory).IsSettled := by
  refine ⟨settled.root, ?_, pairwise_insertSorted settled.sorted _⟩
  intro entry member
  rcases mem_insertSorted member with new | former
  · rw [new]
    exact Path.isCanonical_normalize (Path.isAbsolute_join settled.root.absolute)
  · exact settled.directories entry former

theorem withAllNamed (settled : addressing.IsSettled) (entries : List (Text × Path)) :
    (addressing.withAllNamed entries).IsSettled := by
  unfold Addressing.withAllNamed
  induction entries generalizing addressing with
  | nil => exact settled
  | cons entry others inductionHypothesis => exact inductionHypothesis (settled.withNamed _ _)

/-- A name leads to the directory that is listed with it. -/
theorem lookup (settled : addressing.IsSettled) {entry : Text × Path}
    (member : entry ∈ addressing.named) : addressing.named.lookup entry.1 = some entry.2 := by
  have sorted := settled.sorted
  generalize addressing.named = entries at member sorted
  induction entries with
  | nil => cases member
  | cons first rest inductionHypothesis =>
      rw [List.map_cons] at sorted
      have both := List.pairwise_cons.mp sorted
      rcases List.mem_cons.mp member with here | later
      · rw [here]
        exact lookup_cons_self first.1 first.2 rest
      · have before := both.1 entry.1 (List.mem_map_of_mem later)
        exact (lookup_cons_other (ne_of_gt before) first.2 rest).trans
          (inductionHypothesis later both.2)

end IsSettled

/-! ## The deepest directory -/

theorem mem_insertByDepth {entry other : Text × Path} {entries : List (Text × Path)} :
    other ∈ insertByDepth entry entries ↔ other = entry ∨ other ∈ entries := by
  induction entries with
  | nil => simp [insertByDepth]
  | cons first rest inductionHypothesis =>
      unfold insertByDepth
      split
      · exact List.mem_cons
      · rw [List.mem_cons, inductionHypothesis, List.mem_cons]
        exact or_left_comm

theorem pairwise_insertByDepth {entry : Text × Path} {entries : List (Text × Path)}
    (sorted : entries.Pairwise fun first second => second.2.parts.length ≤ first.2.parts.length) :
    (insertByDepth entry entries).Pairwise fun first second =>
      second.2.parts.length ≤ first.2.parts.length := by
  induction entries with
  | nil => exact List.pairwise_singleton _ _
  | cons first rest inductionHypothesis =>
      have both := List.pairwise_cons.mp sorted
      unfold insertByDepth
      split
      · rename_i deeper
        refine List.pairwise_cons.mpr ⟨?_, sorted⟩
        intro other member
        rcases List.mem_cons.mp member with same | later
        · exact same ▸ Nat.le_of_lt deeper
        · exact (both.1 other later).trans (Nat.le_of_lt deeper)
      · rename_i notDeeper
        refine List.pairwise_cons.mpr ⟨?_, inductionHypothesis both.2⟩
        intro other member
        rcases mem_insertByDepth.mp member with new | former
        · exact new ▸ Nat.le_of_not_lt notDeeper
        · exact both.1 other former

theorem pairwise_deepestFirst (addressing : Addressing) :
    addressing.deepestFirst.Pairwise fun first second =>
      second.2.parts.length ≤ first.2.parts.length := by
  unfold deepestFirst
  apply List.foldlRecOn
  · exact .nil
  · exact fun _ sorted _ _ => pairwise_insertByDepth sorted

theorem mem_deepestFirst {addressing : Addressing} {entry : Text × Path} :
    entry ∈ addressing.deepestFirst ↔ entry ∈ addressing.named := by
  have grown (entries sorted : List (Text × Path)) :
      entry ∈ entries.foldl (fun sorted entry => insertByDepth entry sorted) sorted ↔
        entry ∈ entries ∨ entry ∈ sorted := by
    induction entries generalizing sorted with
    | nil => simp
    | cons first rest inductionHypothesis =>
        rw [List.foldl_cons, inductionHypothesis, mem_insertByDepth, List.mem_cons, or_left_comm,
          or_assoc]
  unfold deepestFirst
  rw [grown]
  simp

/-! ## Addresses below a directory -/

theorem slashed_eq {stray : Stray} {path : Path} (text : stray.isText path.text = true)
    (plain : '\\' ∉ path.text) : slashed stray path = path.text := by
  unfold slashed
  rw [Stray.shown_of_isText text]
  conv_rhs => rw [← List.map_id path.text]
  apply List.map_congr_left
  intro character member
  apply if_neg
  intro backslash
  exact plain (backslash ▸ member)

theorem relativeTo?_eq_none {path base : Path} (outside : ¬ base.parts <+: path.parts) :
    path.relativeTo? base = none := by
  unfold Path.relativeTo?
  rw [if_neg]
  rwa [List.isPrefixOf_iff_prefix]

namespace IsSettled

variable {addressing : Addressing} {path : Path}

/-- A file in a named directory is served below the name of such a directory, of which none
is deeper. -/
theorem address_named (settled : addressing.IsSettled) (canonical : path.IsCanonical)
    (proper : ∀ entry ∈ addressing.named, entry.2.parts ≠ path.parts)
    (within : ∃ entry ∈ addressing.named, entry.2.parts <+: path.parts) :
    ∃ entry ∈ addressing.named, ∃ rest, rest ≠ [] ∧ path.parts = entry.2.parts ++ rest ∧
      (∀ other ∈ addressing.named, other.2.parts <+: path.parts ->
        other.2.parts.length ≤ entry.2.parts.length) ∧
      addressing.address path = '/' :: entry.1 ++ '/' ::
        slashed addressing.stray ⟨Text.joinWith ['/'] (rest.map Part.text)⟩ := by
  have relative (entry : Text × Path) (member : entry ∈ addressing.named)
      (leads : entry.2.parts <+: path.parts) :
      ∃ rest, rest ≠ [] ∧ path.parts = entry.2.parts ++ rest ∧
        path.relativeTo? entry.2 = some ⟨Text.joinWith ['/'] (rest.map Part.text)⟩ := by
    rcases leads with ⟨rest, joined⟩
    have more : rest ≠ [] := by
      intro nothing
      rw [nothing, List.append_nil] at joined
      exact proper entry member joined
    exact ⟨rest, more, joined.symm, Path.relativeTo?_of_parts canonical
      (settled.directories entry member).absolute more joined.symm⟩
  unfold address
  dsimp only
  rw [canonical.normal]
  cases found : addressing.deepestFirst.findSome? fun entry =>
      (path.relativeTo? entry.2).map fun rest =>
        '/' :: entry.1 ++ '/' :: slashed addressing.stray rest with
  | none =>
      rcases within with ⟨entry, member, leads⟩
      rcases relative entry member leads with ⟨rest, _, _, inside⟩
      have impossible := List.findSome?_eq_none_iff.mp found entry (mem_deepestFirst.mpr member)
      rw [inside] at impossible
      cases impossible
  | some address =>
      rcases List.findSome?_eq_some_iff.mp found with
        ⟨passed, entry, shallower, listed, below, none⟩
      have sorted := pairwise_deepestFirst addressing
      rw [listed] at sorted
      have member : entry ∈ addressing.named := by
        rw [← mem_deepestFirst, listed]
        exact List.mem_append_right passed List.mem_cons_self
      have deepest : ∀ other ∈ addressing.named, other.2.parts <+: path.parts ->
          other.2.parts.length ≤ entry.2.parts.length := by
        intro other named leads
        rcases relative other named leads with ⟨rest, _, _, inside⟩
        rw [← mem_deepestFirst, listed] at named
        rcases List.mem_append.mp named with before | behind
        · have impossible := none other before
          rw [inside] at impossible
          cases impossible
        · rcases List.mem_cons.mp behind with same | later
          · rw [same]
          · exact List.rel_of_pairwise_cons (List.pairwise_append.mp sorted).2.1 later
      refine ⟨entry, member, ?_⟩
      by_cases leads : entry.2.parts <+: path.parts
      · rcases relative entry member leads with ⟨rest, more, joined, inside⟩
        rw [inside] at below
        exact ⟨rest, more, joined, deepest, (Option.some.inj below).symm⟩
      · rw [relativeTo?_eq_none leads] at below
        cases below

/-- A file in no named directory is served below the root. -/
theorem address_unnamed (settled : addressing.IsSettled) (canonical : path.IsCanonical)
    (outside : ∀ entry ∈ addressing.named, ¬ entry.2.parts <+: path.parts) {rest : List Part}
    (more : rest ≠ []) (parts : path.parts = addressing.root.parts ++ rest) :
    addressing.address path =
      '/' :: slashed addressing.stray ⟨Text.joinWith ['/'] (rest.map Part.text)⟩ := by
  unfold address
  dsimp only
  rw [canonical.normal]
  have nowhere : (addressing.deepestFirst.findSome? fun entry =>
      (path.relativeTo? entry.2).map fun rest =>
        '/' :: entry.1 ++ '/' :: slashed addressing.stray rest) = none := by
    apply List.findSome?_eq_none_iff.mpr
    intro entry listed
    rw [relativeTo?_eq_none (outside entry (mem_deepestFirst.mp listed))]
    rfl
  rw [nowhere, Path.relativeTo?_of_parts canonical settled.root.absolute more parts]

end IsSettled
end Addressing
end PageComposer
