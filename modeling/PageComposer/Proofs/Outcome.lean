import Mathlib.Data.List.Forall2
import PageComposer.Failure

namespace PageComposer

/-!
# Steps that may fail

What a chain of steps says about its single steps when it succeeds, and where
its failure comes from.  Steps that are taken one after the other over a list
are separated here from what is done with their results.  `FailsIn` says which
failures a chain can end with.
-/

variable {Fault A B C : Type}

instance decidableEqOutcome [DecidableEq Fault] [DecidableEq A] : DecidableEq (Except Fault A)
  | .error left, .error right =>
      decidable_of_iff (left = right) ⟨congrArg _, fun equal => Except.error.inj equal⟩
  | .ok left, .ok right =>
      decidable_of_iff (left = right) ⟨congrArg _, fun equal => Except.ok.inj equal⟩
  | .error _, .ok _ => isFalse (fun equal => by cases equal)
  | .ok _, .error _ => isFalse (fun equal => by cases equal)

theorem bind_eq_ok_iff {first : Except Fault A} {next : A -> Except Fault B} {result : B} :
    first >>= next = .ok result ↔ ∃ value, first = .ok value ∧ next value = .ok result := by
  cases first with
  | error fault =>
      constructor
      · intro impossible
        cases impossible
      · rintro ⟨value, impossible, _⟩
        cases impossible
  | ok value =>
      constructor
      · intro finished
        exact ⟨value, rfl, finished⟩
      · rintro ⟨other, equal, finished⟩
        cases equal
        exact finished

theorem bind_eq_error_iff {first : Except Fault A} {next : A -> Except Fault B} {fault : Fault} :
    first >>= next = .error fault ↔
      first = .error fault ∨ ∃ value, first = .ok value ∧ next value = .error fault := by
  cases first with
  | error other => simp [bind, Except.bind]
  | ok value => simp [bind, Except.bind]

theorem map_eq_ok_iff {first : Except Fault A} {after : A -> B} {result : B} :
    first.map after = .ok result ↔ ∃ value, first = .ok value ∧ after value = result := by
  cases first <;> simp [Except.map]

/-- All steps over a list succeed exactly when each one does. -/
theorem mapM_eq_ok_iff {step : A -> Except Fault B} {list : List A} {results : List B} :
    list.mapM step = .ok results ↔ list.map step = results.map .ok := by
  induction list generalizing results with
  | nil =>
      rw [List.mapM_nil, List.map_nil]
      cases results with
      | nil => simp [pure, Except.pure]
      | cons head tail => simp [pure, Except.pure]
  | cons head tail inductionHypothesis =>
      rw [List.mapM_cons, bind_eq_ok_iff]
      constructor
      · rintro ⟨value, first, others⟩
        rcases bind_eq_ok_iff.mp others with ⟨values, later, equal⟩
        cases equal
        rw [List.map_cons, List.map_cons, first, inductionHypothesis.mp later]
      · intro equal
        cases results with
        | nil => simp at equal
        | cons value values =>
            rw [List.map_cons, List.map_cons, List.cons.injEq] at equal
            exact ⟨value, equal.1, bind_eq_ok_iff.mpr
              ⟨values, inductionHypothesis.mpr equal.2, rfl⟩⟩

/-- All steps over a list succeed exactly when each one has its result. -/
theorem mapM_eq_ok_iff_forall₂ {step : A -> Except Fault B} {list : List A} {results : List B} :
    list.mapM step = .ok results ↔
      List.Forall₂ (fun item result => step item = .ok result) list results := by
  rw [mapM_eq_ok_iff]
  induction list generalizing results with
  | nil => cases results <;> simp
  | cons head tail inductionHypothesis =>
      cases results with
      | nil => simp
      | cons result others =>
          rw [List.map_cons, List.map_cons, List.cons.injEq, inductionHypothesis,
            List.forall₂_cons]

/-- Steps over a list fail with the first one that fails. -/
theorem mapM_eq_error_iff {step : A -> Except Fault B} {list : List A} {fault : Fault} :
    list.mapM step = .error fault ↔ ∃ earlier item later, list = earlier ++ item :: later ∧
      (∀ former ∈ earlier, ∃ result, step former = .ok result) ∧ step item = .error fault := by
  induction list with
  | nil => simp [pure, Except.pure]
  | cons head tail inductionHypothesis =>
      rw [List.mapM_cons, bind_eq_error_iff]
      constructor
      · rintro (failed | ⟨value, first, others⟩)
        · exact ⟨[], head, tail, rfl, by simp, failed⟩
        · have continued : tail.mapM step = .error fault := by
            rcases bind_eq_error_iff.mp others with failed | ⟨values, _, impossible⟩
            · exact failed
            · cases impossible
          rcases inductionHypothesis.mp continued with ⟨earlier, item, later, split, done, failed⟩
          refine ⟨head :: earlier, item, later, by rw [split]; rfl, ?_, failed⟩
          exact List.forall_mem_cons.mpr ⟨⟨value, first⟩, done⟩
      · rintro ⟨earlier, item, later, split, done, failed⟩
        cases earlier with
        | nil =>
            cases split
            exact Or.inl failed
        | cons former others =>
            cases split
            rw [List.forall_mem_cons] at done
            rcases done.1 with ⟨value, first⟩
            refine Or.inr ⟨value, first, bind_eq_error_iff.mpr (Or.inl ?_)⟩
            exact inductionHypothesis.mpr ⟨others, item, later, rfl, done.2, failed⟩

theorem mapM_reverse_eq_ok_iff {step : A -> Except Fault B} {list : List A} {results : List B} :
    list.reverse.mapM step = .ok results ↔ list.mapM step = .ok results.reverse := by
  rw [mapM_eq_ok_iff, mapM_eq_ok_iff, List.map_reverse, List.map_reverse]
  exact List.reverse_eq_iff

/-- A fold whose step first does something that does not look at the state can
do all of that beforehand. -/
theorem foldlM_eq_map_foldl {step : C -> A -> Except Fault C} {look : A -> Except Fault B}
    {absorb : C -> A × B -> C}
    (splits : ∀ state item,
      step state item = (look item).map fun found => absorb state (item, found))
    (list : List A) (state : C) :
    list.foldlM step state =
      (list.mapM fun item => (look item).map (Prod.mk item)).map fun found =>
        found.foldl absorb state := by
  induction list generalizing state with
  | nil => rfl
  | cons head tail inductionHypothesis =>
      rw [List.foldlM_cons, List.mapM_cons, splits]
      cases looked : look head with
      | error fault => rfl
      | ok found =>
          change tail.foldlM step (absorb state (head, found)) = _
          rw [inductionHypothesis]
          cases later : tail.mapM fun item => (look item).map (Prod.mk item) with
          | error fault => simp [Except.map, bind, Except.bind]
          | ok others => simp [Except.map, bind, Except.bind, pure, Except.pure]

/-! ## Failures of a chain -/

/-- Every failure of the result is one of the causes. -/
def FailsIn (causes : Fault -> Prop) (result : Except Fault A) : Prop :=
  ∀ fault, result = .error fault -> causes fault

namespace FailsIn

variable {causes : Fault -> Prop}

theorem ok (value : A) : FailsIn causes (.ok value) := by
  intro fault impossible
  cases impossible

theorem error {fault : Fault} (cause : causes fault) :
    FailsIn causes (.error fault : Except Fault A) := by
  intro other equal
  cases equal
  exact cause

theorem mono {others : Fault -> Prop} {result : Except Fault A} (fails : FailsIn causes result)
    (each : ∀ fault, causes fault -> others fault) : FailsIn others result :=
  fun fault failed => each fault (fails fault failed)

theorem bind {first : Except Fault A} {next : A -> Except Fault B} (begins : FailsIn causes first)
    (follows : ∀ value, first = .ok value -> FailsIn causes (next value)) :
    FailsIn causes (first >>= next) := by
  intro fault failed
  rcases bind_eq_error_iff.mp failed with before | ⟨value, done, after⟩
  · exact begins fault before
  · exact follows value done fault after

theorem map {first : Except Fault A} (begins : FailsIn causes first) (after : A -> B) :
    FailsIn causes (first.map after) := by
  cases first with
  | error fault => exact error (begins fault rfl)
  | ok value => exact ok _

theorem mapM {step : A -> Except Fault B} (each : ∀ item, FailsIn causes (step item))
    (list : List A) : FailsIn causes (list.mapM step) := by
  induction list with
  | nil => exact ok []
  | cons head tail inductionHypothesis =>
      rw [List.mapM_cons]
      exact (each head).bind fun _ _ => inductionHypothesis.bind fun _ _ => ok _

end FailsIn

/-! ## Two chains side by side -/

theorem mapM_map {step : A -> Except Fault B} {after : B -> C} (list : List A) :
    (list.mapM step).map (List.map after) = list.mapM fun item => (step item).map after := by
  induction list with
  | nil => rfl
  | cons head tail inductionHypothesis =>
      rw [List.mapM_cons, List.mapM_cons, ← inductionHypothesis]
      cases step head with
      | error fault => rfl
      | ok value => cases tail.mapM step <;> rfl

/-- Both chains fail, and in the same way, or both succeed with related
results. -/
inductive Alike (related : A -> B -> Prop) : Except Fault A -> Except Fault B -> Prop
  | failed (fault : Fault) : Alike related (.error fault) (.error fault)
  | done {left : A} {right : B} (both : related left right) : Alike related (.ok left) (.ok right)

theorem Alike.bind {D : Type} {related : A -> B -> Prop} {after : C -> D -> Prop}
    {left : Except Fault A} {right : Except Fault B} {next : A -> Except Fault C}
    {other : B -> Except Fault D} (first : Alike related left right)
    (then' : ∀ one another, related one another -> Alike after (next one) (other another)) :
    Alike after (left >>= next) (right >>= other) := by
  cases first with
  | failed fault => exact .failed fault
  | done both => exact then' _ _ both

theorem Alike.map {D : Type} {related : A -> B -> Prop} {after : C -> D -> Prop}
    {left : Except Fault A} {right : Except Fault B} {next : A -> C} {other : B -> D}
    (first : Alike related left right)
    (then' : ∀ one another, related one another -> after (next one) (other another)) :
    Alike after (left.map next) (right.map other) := by
  cases first with
  | failed fault => exact .failed fault
  | done both => exact .done (then' _ _ both)

theorem alike_self {related : A -> A -> Prop} (result : Except Fault A)
    (each : ∀ value, result = .ok value -> related value value) : Alike related result result := by
  cases result with
  | error fault => exact .failed fault
  | ok value => exact .done (each value rfl)

theorem alike_of_map_eq {left : Except Fault A} {right : Except Fault B} {first : A -> C}
    {second : B -> C} (same : left.map first = right.map second) :
    Alike (fun one another => first one = second another) left right := by
  cases left with
  | error fault =>
      cases right with
      | error other =>
          cases same
          exact .failed fault
      | ok value => cases same
  | ok value =>
      cases right with
      | error fault => cases same
      | ok other => exact .done (Except.ok.inj same)

end PageComposer
