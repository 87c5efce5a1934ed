import PageComposer.Proofs.FileTree.Plain
import PageComposer.Proofs.Path.Canonical

namespace PageComposer

/-!
# Where a normal form leads

Read from a folder, a relative path climbs by every `..` that has no name to take back and
goes down by the names that are left (`Standing`).  Where it leads is told by this alone
(`placeFrom_eq`), and so is its normal form (`normalParts_eq`).

A normal form keeps the names, but not the climbing: the `..` that it keeps because nothing is
left to take back is taken back itself by the next one.  Of the levels climbed only the odd one
is left.  So a normal form leads to where its path leads exactly if the path climbs above its
start at most once (`normalize_leads_iff`).
-/

/-- Where a relative path stands: so many levels above its start, and down by names from
there. -/
structure Standing where
  climbed : Nat
  below : List Text

namespace Standing

/-- Where a path stands that has not left its start. -/
def start : Standing := ⟨0, []⟩

/-- One part further.  A `..` takes a name back, or climbs where there is none. -/
def step (standing : Standing) : Part -> Standing
  | .name segment => ⟨standing.climbed, standing.below ++ [segment]⟩
  | .up =>
      if standing.below = [] then ⟨standing.climbed + 1, []⟩
      else ⟨standing.climbed, standing.below.dropLast⟩
  | .here | .root => standing

/-- The place of a standing, for a path that is read from a folder. -/
def placeIn (standing : Standing) (folder : Place) : Place :=
  folder.take (folder.length - standing.climbed) ++ standing.below

/-- What a normal form has on its stack for a standing. -/
def stack (standing : Standing) : List Part :=
  (standing.below.map Part.name).reverse ++ if standing.climbed % 2 = 1 then [.up] else []

variable {part : Part}

theorem step_up_nil (climbed : Nat) : step ⟨climbed, []⟩ .up = ⟨climbed + 1, []⟩ := rfl

theorem step_up_concat (climbed : Nat) (front : List Text) (last : Text) :
    step ⟨climbed, front ++ [last]⟩ .up = ⟨climbed, front⟩ := by
  unfold step
  dsimp only
  rw [if_neg (by simp), List.dropLast_concat]

/-- One part leads from a place to the next one. -/
theorem placeIn_step (standing : Standing) (folder : Place) (notRoot : part ≠ .root) :
    (standing.step part).placeIn folder = stepFrom (standing.placeIn folder) part := by
  rcases standing with ⟨climbed, below⟩
  cases part with
  | root => exact absurd rfl notRoot
  | here => rfl
  | name segment => exact (List.append_assoc _ _ _).symm
  | up =>
      unfold stepFrom placeIn
      rcases List.eq_nil_or_concat below with nothing | ⟨front, last, equal⟩
      · rw [nothing, step_up_nil]
        dsimp only
        rw [List.append_nil, List.append_nil, List.dropLast_eq_take, List.take_take,
          List.length_take]
        congr 1
        omega
      · rw [equal, List.concat_eq_append, step_up_concat]
        dsimp only
        rw [← List.append_assoc, List.dropLast_concat]

/-- Pushing a part is one part further, as far as a normal form can tell. -/
theorem stack_step (standing : Standing) (notRoot : part ≠ .root) :
    (standing.step part).stack = Path.pushPart standing.stack part := by
  rcases standing with ⟨climbed, below⟩
  unfold stack
  cases part with
  | root => exact absurd rfl notRoot
  | here => rfl
  | name segment =>
      unfold step
      rw [List.map_append, List.reverse_append]
      rfl
  | up =>
      rcases List.eq_nil_or_concat below with nothing | ⟨front, last, equal⟩
      · rw [nothing, step_up_nil]
        rcases Nat.mod_two_eq_zero_or_one climbed with even | odd
        · have next : (climbed + 1) % 2 = 1 := by omega
          simp [even, next, Path.pushPart]
        · have next : (climbed + 1) % 2 = 0 := by omega
          simp [odd, next, Path.pushPart]
      · rw [equal, List.concat_eq_append, step_up_concat, List.map_append, List.reverse_append]
        rfl

theorem climbed_step_le (standing : Standing) (part : Part) :
    (standing.step part).climbed ≤ standing.climbed + [part].count .up := by
  rcases standing with ⟨climbed, below⟩
  cases part with
  | root | here | name _ => exact Nat.le_add_right _ _
  | up =>
      rcases List.eq_nil_or_concat below with nothing | ⟨front, last, equal⟩
      · rw [nothing, step_up_nil]
        exact Nat.le_refl _
      · rw [equal, List.concat_eq_append, step_up_concat]
        exact Nat.le_add_right _ _

end Standing

/-- Where a relative path stands in the end. -/
def standingOf (parts : List Part) : Standing :=
  parts.foldl Standing.step .start

section Parts

variable {parts : List Part}

theorem placeFrom_foldl_step (relative : Part.root ∉ parts) (standing : Standing)
    (folder : Place) :
    placeFrom (standing.placeIn folder) parts =
      (parts.foldl Standing.step standing).placeIn folder := by
  induction parts generalizing standing with
  | nil => rfl
  | cons part others inductionHypothesis =>
      rw [List.mem_cons, not_or] at relative
      rw [placeFrom_cons, List.foldl_cons, ← inductionHypothesis relative.2,
        standing.placeIn_step folder (Ne.symm relative.1)]

theorem foldl_pushPart_stack (relative : Part.root ∉ parts) (standing : Standing) :
    parts.foldl Path.pushPart standing.stack =
      (parts.foldl Standing.step standing).stack := by
  induction parts generalizing standing with
  | nil => rfl
  | cons part others inductionHypothesis =>
      rw [List.mem_cons, not_or] at relative
      rw [List.foldl_cons, List.foldl_cons, ← inductionHypothesis relative.2,
        standing.stack_step (Ne.symm relative.1)]

theorem climbed_foldl_step_le (parts : List Part) (standing : Standing) :
    (parts.foldl Standing.step standing).climbed ≤ standing.climbed + parts.count .up := by
  induction parts generalizing standing with
  | nil => exact Nat.le_add_right _ _
  | cons part others inductionHypothesis =>
      have first := standing.climbed_step_le part
      have behind := inductionHypothesis (standing.step part)
      rw [List.foldl_cons, ← List.singleton_append, List.count_append]
      omega

/-- Where a path leads is told by where it stands. -/
theorem placeFrom_eq (relative : Part.root ∉ parts) (folder : Place) :
    placeFrom folder parts = (standingOf parts).placeIn folder := by
  have started : Standing.start.placeIn folder = folder := by
    simp [Standing.start, Standing.placeIn]
  rw [standingOf, ← placeFrom_foldl_step relative, started]

/-- A normal form climbs once or not at all, and then goes down. -/
theorem normalParts_eq (relative : Part.root ∉ parts) :
    Path.normalParts parts = (standingOf parts).stack.reverse := by
  rw [standingOf, ← foldl_pushPart_stack relative]
  rfl

theorem climbed_standingOf_le (parts : List Part) :
    (standingOf parts).climbed ≤ parts.count .up := by
  simpa [standingOf, Standing.start] using climbed_foldl_step_le parts .start

/-- Read from a folder, a normal form leaves out every second level that its path climbs. -/
theorem placeFrom_normalParts (relative : Part.root ∉ parts) (folder : Place) :
    placeFrom folder (Path.normalParts parts) =
      folder.take (folder.length - (standingOf parts).climbed % 2) ++
        (standingOf parts).below := by
  rw [normalParts_eq relative, Standing.stack, List.reverse_append, List.reverse_reverse,
    placeFrom_append, placeFrom_names]
  rcases Nat.mod_two_eq_zero_or_one (standingOf parts).climbed with even | odd
  · simp [even]
  · simp [odd, stepFrom, List.dropLast_eq_take]

end Parts

namespace Path

theorem root_not_mem_parts {path : Path} (relative : path.isAbsolute = false) :
    Part.root ∉ path.parts := by
  intro member
  rw [parts_eq] at member
  rcases List.mem_append.mp member with leading | inner
  · cases start : path.start with
    | root => simp [isAbsolute, start] at relative
    | here => simp [start, Start.parts] at leading
    | nothing => simp [start, Start.parts] at leading
  · exact absurd List.mem_cons_self (areInner_partsOf _ _ inner).unslashed

/-- From a folder that is deep enough, a relative path and its normal form lead to the same
place exactly if the path climbs above its start at most once. -/
theorem normalize_leads_iff {path : Path} (relative : path.isAbsolute = false) {folder : Place}
    (deep : path.parts.count .up ≤ folder.length) :
    placeFrom folder path.normalize.parts = placeFrom folder path.parts ↔
      (standingOf path.parts).climbed ≤ 1 := by
  have rootless := root_not_mem_parts relative
  have inside := Nat.le_trans (climbed_standingOf_le path.parts) deep
  rw [parts_normalize, placeFrom_normalParts rootless, placeFrom_eq rootless, Standing.placeIn,
    List.append_left_inj]
  generalize (standingOf path.parts).climbed = climbed at inside
  constructor
  · intro same
    have lengths := congrArg List.length same
    rw [List.length_take, List.length_take] at lengths
    omega
  · intro once
    rw [Nat.mod_eq_of_lt (by omega : climbed < 2)]

/-- A path that goes down, back up, and past its start once. -/
theorem normalize_leads_iff_beside :
    (standingOf (Path.mk "pages/./a/../../../shared".toList).parts).climbed ≤ 1 ∧
      placeFrom ["srv".toList, "site".toList, "old".toList]
          (Path.mk "pages/./a/../../../shared".toList).normalize.parts =
        placeFrom ["srv".toList, "site".toList, "old".toList]
          (Path.mk "pages/./a/../../../shared".toList).parts := by
  have once : (standingOf (Path.mk "pages/./a/../../../shared".toList).parts).climbed ≤ 1 := by
    decide
  exact ⟨once, (normalize_leads_iff (by decide) (by decide)).mpr once⟩

/-- At the root there is nothing to climb to, so that an absolute path and its normal form
always lead to the same place. -/
theorem placeFrom_normalize_of_isAbsolute {path : Path} (absolute : path.isAbsolute = true)
    (folder : Place) : placeFrom folder path.normalize.parts = placeFrom folder path.parts := by
  have rootless : Part.root ∉ partsOf path.text := fun member =>
    absurd List.mem_cons_self (areInner_partsOf _ _ member).unslashed
  rw [parts_normalize, normalParts_parts, if_pos absolute, parts_of_isAbsolute absolute,
    placeFrom_cons, placeFrom_cons, stepFrom, placeFrom_normalParts rootless,
    placeFrom_eq rootless, Standing.placeIn, List.take_nil, List.take_nil]

/-- From `/srv/site` the path `../../shared` leads to `/shared`, and its normal form to
`/srv/site/shared`. -/
theorem normalize_takes_back_climb :
    (Path.mk "../../shared".toList).isAbsolute = false ∧
      (Path.mk "../../shared".toList).parts.count .up ≤ ["srv".toList, "site".toList].length ∧
      placeFrom ["srv".toList, "site".toList] (Path.mk "../../shared".toList).parts =
        ["shared".toList] ∧
      placeFrom ["srv".toList, "site".toList] (Path.mk "../../shared".toList).normalize.parts =
        ["srv".toList, "site".toList, "shared".toList] := by
  decide

end Path
end PageComposer
