import Mathlib.Data.List.Nodup
import PageComposer.Proofs.Fragment.Missing

namespace PageComposer

/-!
# Chains of wrappers

The first wrap of a file leads to another file, the first wrap of that one to the next,
and so on (`Site.wrapperAfter?`).  A chain that reaches a wrapper twice goes round for
ever from there (`Site.Repeats.endless`).

A reader that follows a chain keeps the wrappers behind it (`Site.Followed`).  The first
of them that it meets again is also the first in the chain that the chain reaches twice
(`Site.Followed.firstTwice`).
-/

namespace Site

/-- The file that the first wrap of a file leads to. -/
def wrapperOf? (site : Site) (path : Path) : Option Path := do
  let raw <- (site.read path).toOption
  let wraps <- (scanKind site path .wrap (prepareEditable site path raw)).toOption
  let wrap <- wraps.head?
  (site.locate wrap).toOption

/-- The file that so many steps from wrapper to wrapper lead to. -/
def wrapperAfter? (site : Site) : Nat -> Path -> Option Path
  | 0, path => some path
  | steps + 1, path => (site.wrapperAfter? steps path).bind site.wrapperOf?

variable {site : Site} {start path wrapper : Path}

theorem wrapperOf?_eq_some_iff :
    site.wrapperOf? path = some wrapper ↔ ∃ raw wrap others, site.read path = .ok raw ∧
      scanKind site path .wrap (prepareEditable site path raw) = .ok (wrap :: others) ∧
      site.locate wrap = .ok wrapper := by
  have toOption {A : Type} (result : Except Failure A) (value : A) :
      result.toOption = some value ↔ result = .ok value := by
    cases result <;> simp [Except.toOption]
  simp only [wrapperOf?, Option.bind_eq_bind, Option.bind_eq_some_iff, toOption,
    List.head?_eq_some_iff]
  constructor
  · rintro ⟨raw, read, wraps, scanned, wrap, ⟨others, equal⟩, located⟩
    exact ⟨raw, wrap, others, read, equal ▸ scanned, located⟩
  · rintro ⟨raw, wrap, others, read, scanned, located⟩
    exact ⟨raw, read, _, scanned, wrap, ⟨others, rfl⟩, located⟩

/-- Every wrapper of a chain has been located. -/
theorem located_of_wrapperAfter? {steps : Nat}
    (reached : site.wrapperAfter? (steps + 1) start = some wrapper) :
    ∃ wrap, site.locate wrap = .ok wrapper := by
  rcases Option.bind_eq_some_iff.mp reached with ⟨path, _, leads⟩
  rcases wrapperOf?_eq_some_iff.mp leads with ⟨_, wrap, _, _, _, located⟩
  exact ⟨wrap, located⟩

theorem isSome_wrapperAfter?_of_le {steps more : Nat} (fewer : steps ≤ more)
    (reached : (site.wrapperAfter? more start).isSome) :
    (site.wrapperAfter? steps start).isSome := by
  induction fewer with
  | refl => exact reached
  | step _ inductionHypothesis =>
      rcases Option.isSome_iff_exists.mp reached with ⟨wrapper, leads⟩
      rcases Option.bind_eq_some_iff.mp leads with ⟨path, before, _⟩
      exact inductionHypothesis (Option.isSome_iff_exists.mpr ⟨path, before⟩)

/-! ## Wrappers that are reached twice -/

/-- The chain reaches the file behind so many steps once more later on. -/
def Repeats (site : Site) (start : Path) (turn : Nat) : Prop :=
  ∃ again wrapper, turn < again ∧ site.wrapperAfter? turn start = some wrapper ∧
    site.wrapperAfter? again start = some wrapper

/-- The first wrapper of the chain that the chain reaches twice. -/
def FirstTwice (site : Site) (start wrapper : Path) : Prop :=
  ∃ turn, 1 ≤ turn ∧ site.wrapperAfter? turn start = some wrapper ∧ site.Repeats start turn ∧
    ∀ earlier, 1 ≤ earlier -> earlier < turn -> ¬ site.Repeats start earlier

/-- A chain that has come round only meets what it has met. -/
theorem exists_within_round {turn again : Nat} (before : turn < again)
    (same : site.wrapperAfter? again start = site.wrapperAfter? turn start) {steps : Nat}
    (behind : turn ≤ steps) :
    ∃ within, turn ≤ within ∧ within < again ∧
      site.wrapperAfter? steps start = site.wrapperAfter? within start := by
  induction behind with
  | refl => exact ⟨turn, Nat.le_refl turn, before, rfl⟩
  | @step steps _ inductionHypothesis =>
      rcases inductionHypothesis with ⟨within, after, inside, equal⟩
      have next : site.wrapperAfter? (steps + 1) start =
          site.wrapperAfter? (within + 1) start := by
        rw [wrapperAfter?, wrapperAfter?, equal]
      by_cases last : within + 1 = again
      · exact ⟨turn, Nat.le_refl turn, before, by rw [next, last, same]⟩
      · exact ⟨within + 1, by omega, by omega, next⟩

theorem Repeats.endless {turn : Nat} (repeats : site.Repeats start turn) (steps : Nat) :
    (site.wrapperAfter? steps start).isSome := by
  rcases repeats with ⟨again, wrapper, before, here, there⟩
  have reached : (site.wrapperAfter? again start).isSome := by
    rw [there]
    rfl
  by_cases short : steps ≤ again
  · exact isSome_wrapperAfter?_of_le short reached
  · rcases exists_within_round before (there.trans here.symm) (show turn ≤ steps by omega) with
      ⟨within, _, inside, equal⟩
    rw [equal]
    exact isSome_wrapperAfter?_of_le (Nat.le_of_lt inside) reached

theorem FirstTwice.endless (first : site.FirstTwice start wrapper) (steps : Nat) :
    (site.wrapperAfter? steps start).isSome := by
  rcases first with ⟨turn, _, _, repeats, _⟩
  exact repeats.endless steps

theorem FirstTwice.unique {other : Path} (first : site.FirstTwice start wrapper)
    (second : site.FirstTwice start other) : wrapper = other := by
  rcases first with ⟨turn, outset, reached, repeats, earliest⟩
  rcases second with ⟨turn', outset', reached', repeats', earliest'⟩
  rcases Nat.lt_trichotomy turn turn' with sooner | same | later
  · exact absurd repeats (earliest' turn outset sooner)
  · subst same
    exact Option.some.inj (reached.symm.trans reached')
  · exact absurd repeats' (earliest turn' outset' later)

/-- Where the wrappers of a chain stop being different, the one that comes again is the
first that the chain reaches twice. -/
theorem firstTwice_of_different {turn again : Nat} (outset : 1 ≤ turn) (before : turn < again)
    (reached : site.wrapperAfter? turn start = some wrapper)
    (reachedAgain : site.wrapperAfter? again start = some wrapper)
    (different : ∀ one other, 1 ≤ one -> one < other -> other < again ->
      site.wrapperAfter? one start ≠ site.wrapperAfter? other start) :
    site.FirstTwice start wrapper := by
  refine ⟨turn, outset, reached, ⟨again, wrapper, before, reached, reachedAgain⟩, ?_⟩
  rintro earlier first sooner ⟨later, former, behind, here, there⟩
  by_cases inside : later < again
  · exact different earlier later first behind inside (here.trans there.symm)
  · rcases exists_within_round before (reachedAgain.trans reached.symm)
      (show turn ≤ later by omega) with ⟨within, after, round, equal⟩
    exact different earlier within first (by omega) round (here.trans (there.symm.trans equal))

/-! ## Following a chain -/

/-- The wrappers in the list lead from `start` to `path`, the last one coming first, and
no two of them are the same. -/
structure Followed (site : Site) (start : Path) (wrapping : List Path) (path : Path) : Prop where
  arrived : site.wrapperAfter? wrapping.length start = some path
  visited : ∀ place, place < wrapping.length ->
    site.wrapperAfter? (wrapping.length - place) start = wrapping[place]?
  distinct : wrapping.Nodup

namespace Followed

theorem outset (site : Site) (start : Path) : site.Followed start [] start :=
  ⟨rfl, fun _ impossible => absurd impossible (Nat.not_lt_zero _), .nil⟩

variable {wrapping : List Path}

theorem next (followed : site.Followed start wrapping path)
    (leads : site.wrapperOf? path = some wrapper) :
    site.wrapperAfter? (wrapping.length + 1) start = some wrapper := by
  rw [wrapperAfter?, followed.arrived]
  exact leads

theorem step (followed : site.Followed start wrapping path)
    (leads : site.wrapperOf? path = some wrapper) (fresh : wrapper ∉ wrapping) :
    site.Followed start (wrapper :: wrapping) wrapper := by
  refine ⟨followed.next leads, ?_, List.nodup_cons.mpr ⟨fresh, followed.distinct⟩⟩
  intro place inside
  rw [List.length_cons] at inside ⊢
  cases place with
  | zero => exact followed.next leads
  | succ former =>
      rw [Nat.add_sub_add_right, List.getElem?_cons_succ]
      exact followed.visited former (by omega)

theorem different (followed : site.Followed start wrapping path) {one other : Nat}
    (first : 1 ≤ one) (before : one < other) (inside : other ≤ wrapping.length) :
    site.wrapperAfter? one start ≠ site.wrapperAfter? other start := by
  have visited := followed.visited (wrapping.length - one) (by omega)
  have visited' := followed.visited (wrapping.length - other) (by omega)
  rw [Nat.sub_sub_self (by omega)] at visited visited'
  rw [visited, visited']
  exact Ne.symm (List.nodup_iff_getElem?_ne_getElem?.mp followed.distinct _ _ (by omega) (by omega))

/-- A wrapper that is met again is the first that the chain reaches twice. -/
theorem firstTwice (followed : site.Followed start wrapping path)
    (leads : site.wrapperOf? path = some wrapper) (within : wrapper ∈ wrapping) :
    site.FirstTwice start wrapper := by
  rcases List.mem_iff_getElem?.mp within with ⟨place, found⟩
  have inside : place < wrapping.length := (List.getElem?_eq_some_iff.mp found).1
  have reached := (followed.visited place inside).trans found
  refine firstTwice_of_different (show 1 ≤ wrapping.length - place by omega) ?_ reached
    (followed.next leads) ?_
  · omega
  · intro one other first before last
    exact followed.different first before (by omega)

end Followed
end Site
end PageComposer
