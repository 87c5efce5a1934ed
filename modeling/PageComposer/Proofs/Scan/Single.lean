import PageComposer.Proofs.Scan.Finding

namespace PageComposer

/-!
# Scans that find a single tag

A scan for one kind finds nothing exactly if the kind opens nowhere (`scanKind_eq_nil_iff`).
A scan for several kinds finds a single tag exactly if the scan for the kind of that tag
does, that kind is looked for once, and none of the other kinds opens
(`scan_eq_singleton_iff`).
-/

variable {site : Site} {document : Path} {kind : Kind} {kinds : List Kind} {text : Text}
  {tag : Placeholder}

theorem exists_readTag_of_scanKind {inside : Text}
    (scanned : scanKind site document kind (kind.opening ++ inside) = .ok [tag]) :
    ∃ raw rest, Text.cut? tagClose inside = some (raw, rest) ∧
      readTag site document kind 0 raw = .ok tag := by
  have opened := Text.cut?_self_append kind.opening inside
  rw [scanKind, scanKindFrom] at scanned
  split at scanned
  · cases scanned
  · rename_i equal
    rw [opened] at equal
    cases equal
    split at scanned
    · cases scanned
    · rename_i raw rest closed
      rcases bind_eq_ok_iff.mp scanned with ⟨first, accepted, continued⟩
      rcases bind_eq_ok_iff.mp continued with ⟨others, _, same⟩
      cases same
      exact ⟨raw, rest, closed, accepted⟩

theorem scanKind_eq_nil_iff :
    scanKind site document kind text = .ok [] ↔ ¬ kind.opening <:+: text := by
  constructor
  · rintro scanned ⟨front, back, occurs⟩
    rcases scanKindFrom_covers scanned occurs.symm with ⟨_, member, _⟩
    cases member
  · intro absent
    have unopened := Text.cut?_eq_none_iff.mpr absent
    rw [scanKind, scanKindFrom]
    split
    · rfl
    · rename_i equal
      rw [unopened] at equal
      cases equal

theorem all_nil_of_flatten_eq_nil {A B : Type} {related : A -> List B -> Prop} {items : List A}
    {results : List (List B)} (each : List.Forall₂ related items results)
    (nothing : results.flatten = []) : ∀ item ∈ items, related item [] := by
  induction each with
  | nil => simp
  | cons here _ inductionHypothesis =>
      rw [List.flatten_cons, List.append_eq_nil_iff] at nothing
      exact List.forall_mem_cons.mpr ⟨nothing.1 ▸ here, inductionHypothesis nothing.2⟩

/-- A single result was found for one item, and nothing for the others. -/
theorem exists_of_flatten_eq_singleton {A B : Type} {related : A -> List B -> Prop}
    {items : List A} {results : List (List B)} {result : B}
    (each : List.Forall₂ related items results) (one : results.flatten = [result]) :
    ∃ before item after, items = before ++ item :: after ∧ related item [result] ∧
      ∀ other ∈ before ++ after, related other [] := by
  induction each with
  | nil => cases one
  | @cons item _ items _ here rest inductionHypothesis =>
      rw [List.flatten_cons, List.append_eq_singleton_iff] at one
      rcases one with ⟨nothing, later⟩ | ⟨equal, nothing⟩
      · rcases inductionHypothesis later with ⟨before, found, after, split, holds, others⟩
        exact ⟨item :: before, found, after, by rw [split, List.cons_append], holds,
          List.forall_mem_cons.mpr ⟨nothing ▸ here, others⟩⟩
      · exact ⟨[], item, items, rfl, equal ▸ here, all_nil_of_flatten_eq_nil rest nothing⟩

/-- The other kinds that a scan for a single tag looks for open nowhere. -/
theorem scan_eq_singleton_iff :
    scan site document kinds text = .ok [tag] ↔
      scanKind site document tag.kind text = .ok [tag] ∧
        ∃ before after, kinds = before ++ tag.kind :: after ∧
          ∀ kind ∈ before ++ after, ¬ kind.opening <:+: text := by
  constructor
  · intro scanned
    rcases exists_scanKind_of_scan scanned with ⟨found, read, sorted⟩
    have flat : found.flatten = [tag] := by
      apply List.perm_singleton.mp
      rw [sorted]
      exact (List.mergeSort_perm _ _).symm
    rcases exists_of_flatten_eq_singleton (mapM_eq_ok_iff_forall₂.mp read) flat with
      ⟨before, kind, after, split, single, others⟩
    rcases scanKindFrom_member single tag List.mem_cons_self with ⟨_, _, _, accepted⟩
    rw [readTag_kind accepted]
    exact ⟨single, before, after, split,
      fun other member => scanKind_eq_nil_iff.mp (others other member)⟩
  · rintro ⟨single, before, after, split, absent⟩
    have silent (some : List Kind) (within : ∀ kind ∈ some, kind ∈ before ++ after) :
        some.map (fun kind => scanKind site document kind text) =
          (some.map fun _ => []).map Except.ok := by
      rw [List.map_map]
      exact List.map_congr_left fun kind member =>
        scanKind_eq_nil_iff.mpr (absent kind (within kind member))
    have read : kinds.mapM (fun kind => scanKind site document kind text) =
        .ok (before.map (fun _ => []) ++ [tag] :: after.map fun _ => []) := by
      rw [mapM_eq_ok_iff, split, List.map_append, List.map_cons, single,
        silent before fun _ => List.mem_append_left _,
        silent after fun _ => List.mem_append_right _]
      simp
    apply scan_of_perm read _ (List.pairwise_singleton _ _)
    simp

end PageComposer
