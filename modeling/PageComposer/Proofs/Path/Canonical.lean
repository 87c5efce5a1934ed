import PageComposer.Proofs.Path.Names

namespace PageComposer
namespace Path

/-!
# Parts of a normal form

What pushing builds is a stack that pushing its own parts builds again (`IsStack`), and
its parts are read back from the text of the normal form (`parts_normalize`).  So a
normal form is its own normal form (`normalize_normalize`), and two normal forms that
name the same thing are the same text (`normalize_eq_of_same`).
-/

/-! ## Stacks that pushing builds -/

/-- A stack of parts whose top comes first: a `..` is left only where nothing or just the
root lies below it. -/
inductive IsStack : List Part -> Prop
  | empty : IsStack []
  | climbed : IsStack [.up]
  | climbedRoot : IsStack [.up, .root]
  | push {stack : List Part} {part : Part} (below : IsStack stack) (notHere : part ≠ .here)
      (notUp : part ≠ .up) : IsStack (part :: stack)

namespace IsStack

variable {stack : List Part}

theorem tail {part : Part} (isStack : IsStack (part :: stack)) : IsStack stack := by
  cases isStack with
  | climbed => exact .empty
  | climbedRoot => exact .push .empty (by simp) (by simp)
  | push below _ _ => exact below

theorem pushPart (isStack : IsStack stack) (part : Part) : IsStack (pushPart stack part) := by
  unfold Path.pushPart
  split
  · exact isStack
  · split
    · exact .climbed
    · exact .climbedRoot
    · exact isStack.tail
  · rename_i notHere notUp
    exact .push isStack notHere notUp

theorem foldl_pushPart (isStack : IsStack stack) (parts : List Part) :
    IsStack (parts.foldl Path.pushPart stack) := by
  induction parts generalizing stack with
  | nil => exact isStack
  | cons part others inductionHypothesis => exact inductionHypothesis (isStack.pushPart part)

/-- Pushing the parts of a stack builds it again. -/
theorem rebuild (isStack : IsStack stack) : stack.reverse.foldl Path.pushPart [] = stack := by
  induction isStack with
  | empty => rfl
  | climbed => rfl
  | climbedRoot => rfl
  | @push stack part _ notHere notUp inductionHypothesis =>
      rw [List.reverse_cons, List.foldl_append, inductionHypothesis]
      cases part with
      | here => exact absurd rfl notHere
      | up => exact absurd rfl notUp
      | root => rfl
      | name segment => rfl

end IsStack

/-- Normal parts stay as they are. -/
theorem normalParts_normalParts (parts : List Part) :
    normalParts (normalParts parts) = normalParts parts := by
  unfold normalParts
  rw [(IsStack.empty.foldl_pushPart parts).rebuild]

/-- A name at the end is never taken back. -/
theorem normalParts_concat_name (parts : List Part) (segment : Text) :
    normalParts (parts ++ [.name segment]) = normalParts parts ++ [.name segment] := by
  unfold normalParts
  rw [List.foldl_append, ← List.reverse_cons]
  rfl

/-! ## The root in front -/

theorem mem_pushPart {stack : List Part} {pushed part : Part}
    (member : part ∈ pushPart stack pushed) : part ∈ stack ∨ part = pushed ∨ part = .up := by
  unfold pushPart at member
  split at member
  · exact Or.inl member
  · split at member
    · exact Or.inr (Or.inr (List.mem_singleton.mp member))
    · rcases List.mem_cons.mp member with up | root
      · exact Or.inr (Or.inr up)
      · exact Or.inl root
    · exact Or.inl (List.mem_cons_of_mem _ member)
  · rcases List.mem_cons.mp member with equal | below
    · exact Or.inr (Or.inl equal)
    · exact Or.inl below

/-- Pushing invents no part but `..`. -/
theorem mem_foldl_pushPart {parts stack : List Part} {part : Part}
    (member : part ∈ parts.foldl pushPart stack) : part ∈ stack ∨ part ∈ parts ∨ part = .up := by
  induction parts generalizing stack with
  | nil => exact Or.inl member
  | cons first others inductionHypothesis =>
      rcases inductionHypothesis member with below | later | up
      · rcases mem_pushPart below with inside | equal | up
        · exact Or.inl inside
        · exact Or.inr (Or.inl (equal ▸ List.mem_cons_self))
        · exact Or.inr (Or.inr up)
      · exact Or.inr (Or.inl (List.mem_cons_of_mem _ later))
      · exact Or.inr (Or.inr up)

theorem areInner_normalParts {parts : List Part} (inner : AreInner parts) :
    AreInner (normalParts parts) := by
  intro part member
  rcases mem_foldl_pushPart (List.mem_reverse.mp member) with below | later | up
  · cases below
  · exact inner part later
  · exact up ▸ Part.isInner_up

theorem pushPart_above_root {stack : List Part} (inner : AreInner stack) {part : Part}
    (single : part.IsInner) :
    pushPart (stack ++ [.root]) part = pushPart stack part ++ [.root] := by
  cases part with
  | here => rfl
  | root => exact absurd List.mem_cons_self single.unslashed
  | name segment => rfl
  | up =>
      cases stack with
      | nil => rfl
      | cons top below =>
          cases top with
          | root => exact absurd List.mem_cons_self (inner _ List.mem_cons_self).unslashed
          | here => rfl
          | up => rfl
          | name segment => rfl

/-- The root is never taken back, and nothing else moves because of it. -/
theorem foldl_pushPart_above_root {parts stack : List Part} (inner : AreInner parts)
    (above : AreInner stack) :
    parts.foldl pushPart (stack ++ [.root]) = parts.foldl pushPart stack ++ [.root] := by
  induction parts generalizing stack with
  | nil => rfl
  | cons part others inductionHypothesis =>
      have both := List.forall_mem_cons.mp inner
      have pushed : AreInner (pushPart stack part) := by
        intro other member
        rcases mem_pushPart member with below | equal | up
        · exact above other below
        · exact equal ▸ both.1
        · exact up ▸ Part.isInner_up
      rw [List.foldl_cons, pushPart_above_root above both.1, inductionHypothesis both.2 pushed,
        List.foldl_cons]

theorem normalParts_root {parts : List Part} (inner : AreInner parts) :
    normalParts (.root :: parts) = .root :: normalParts parts := by
  have pushed := @foldl_pushPart_above_root parts [] inner (by simp [AreInner])
  unfold normalParts
  rw [List.foldl_cons]
  change (parts.foldl pushPart ([] ++ [.root])).reverse = _
  rw [pushed, List.reverse_append]
  rfl

/-! ## Reading a normal form back -/

theorem ofParts_inner {parts : List Part} (inner : AreInner parts) :
    ofParts parts = ⟨Text.joinWith ['/'] (parts.map Part.text)⟩ := by
  unfold ofParts
  split
  · exact absurd List.mem_cons_self (inner _ List.mem_cons_self).unslashed
  · rfl

theorem parts_ofParts_inner {parts : List Part} (inner : AreInner parts) :
    (ofParts parts).parts = parts := by
  rw [ofParts_inner inner, parts_eq, start_joinWith_inner inner, partsOf_joinWith_inner inner]
  rfl

theorem parts_ofParts_root {parts : List Part} (inner : AreInner parts) :
    (ofParts (.root :: parts)).parts = .root :: parts := by
  rw [parts_eq, ofParts, partsOf_slash, partsOf_joinWith_inner inner]
  rfl

theorem start_of_isAbsolute {path : Path} (absolute : path.isAbsolute = true) :
    path.start = .root := by
  simpa [isAbsolute] using absolute

theorem parts_of_isAbsolute {path : Path} (absolute : path.isAbsolute = true) :
    path.parts = .root :: partsOf path.text := by
  rw [parts_eq, start_of_isAbsolute absolute]
  rfl

/-- The parts of a normal form, with the root in front if the path is absolute. -/
theorem normalParts_parts (path : Path) :
    normalParts path.parts =
      if path.isAbsolute then .root :: normalParts (partsOf path.text)
      else normalParts (partsOf path.text) := by
  by_cases absolute : path.isAbsolute = true
  · rw [if_pos absolute, parts_of_isAbsolute absolute, normalParts_root (areInner_partsOf _)]
  · rw [if_neg absolute, parts_eq]
    unfold isAbsolute at absolute
    cases start : path.start with
    | root =>
        rw [start] at absolute
        exact absurd rfl absolute
    | here => rfl
    | nothing => rfl

/-- The parts of a normal form are read back from its text. -/
theorem parts_normalize (path : Path) : path.normalize.parts = normalParts path.parts := by
  have inner := areInner_normalParts (areInner_partsOf path.text)
  rw [normalize, normalParts_parts]
  split
  · exact parts_ofParts_root inner
  · exact parts_ofParts_inner inner

theorem normalize_normalize (path : Path) : path.normalize.normalize = path.normalize := by
  rw [normalize, parts_normalize, normalParts_normalParts, normalize]

/-- Normal forms that name the same thing are the same text. -/
theorem normalize_eq_of_same {path other : Path}
    (same : path.normalize.same other.normalize = true) : path.normalize = other.normalize := by
  rw [same_iff, parts_normalize, parts_normalize] at same
  rw [normalize, normalize, same]

/-! ## Absolute normal forms -/

theorem isAbsolute_of_parts {path : Path} {rest : List Part} (parts : path.parts = .root :: rest) :
    path.isAbsolute = true := by
  rw [parts_eq] at parts
  unfold isAbsolute
  cases start : path.start with
  | root => rfl
  | here =>
      rw [start] at parts
      cases parts
  | nothing =>
      rw [start] at parts
      have inner := areInner_partsOf path.text .root
        (by rw [show partsOf path.text = .root :: rest from parts]; exact List.mem_cons_self)
      exact absurd List.mem_cons_self inner.unslashed

theorem isAbsolute_join {base path : Path} (absolute : base.isAbsolute = true) :
    (base.join path).isAbsolute = true := by
  by_cases replaced : path.isAbsolute = true
  · rw [join, if_pos replaced]
    exact replaced
  · rw [isAbsolute, start_join (text_ne_nil_of_isAbsolute absolute)
      (Bool.eq_false_iff.mpr replaced)]
    exact absolute

/-- An absolute path in normal form. -/
structure IsCanonical (path : Path) : Prop where
  absolute : path.isAbsolute = true
  normal : path.normalize = path

theorem isCanonical_normalize {path : Path} (absolute : path.isAbsolute = true) :
    path.normalize.IsCanonical := by
  refine ⟨?_, normalize_normalize path⟩
  have parts := parts_normalize path
  rw [normalParts_parts, if_pos absolute] at parts
  exact isAbsolute_of_parts parts

namespace IsCanonical

variable {path : Path}

theorem exists_parts (canonical : path.IsCanonical) :
    ∃ inner, AreInner inner ∧ path.parts = .root :: inner :=
  ⟨_, areInner_partsOf path.text, parts_of_isAbsolute canonical.absolute⟩

theorem normalParts_parts (canonical : path.IsCanonical) : normalParts path.parts = path.parts := by
  rw [← parts_normalize, canonical.normal]

theorem eq_of_parts {other : Path} (canonical : path.IsCanonical) (second : other.IsCanonical)
    (same : path.parts = other.parts) : path = other := by
  rw [← canonical.normal, ← second.normal, normalize, normalize, same]

/-- The text of a canonical path is its parts behind slashes. -/
theorem text (canonical : path.IsCanonical) {inner : List Part}
    (parts : path.parts = .root :: inner) :
    path.text = '/' :: Text.joinWith ['/'] (inner.map Part.text) := by
  rw [← canonical.normal, normalize, canonical.normalParts_parts, parts]
  rfl

end IsCanonical
end Path
end PageComposer
