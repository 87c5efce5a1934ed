import PageComposer.Glob.Regular

namespace PageComposer
namespace Glob
namespace Regular

/-!
# What a regular expression matches

`Matches` says by rules which byte strings an expression stands for, without
any reference to how a string is read.  Following a string byte by byte through
sets of expressions finds exactly these strings (`accepts_iff`).
-/

/-- The byte strings of an expression. -/
inductive Matches : Regular -> Text.Bytes -> Prop
  | empty : Matches empty []
  | byte {byteClass : ByteClass} {value : UInt8} (member : byteClass.has value = true) :
      Matches (byte byteClass) [value]
  | sequence {first second : Regular} {front back : Text.Bytes} :
      Matches first front -> Matches second back -> Matches (sequence first second) (front ++ back)
  | left {left right : Regular} {bytes : Text.Bytes} :
      Matches left bytes -> Matches (either left right) bytes
  | right {left right : Regular} {bytes : Text.Bytes} :
      Matches right bytes -> Matches (either left right) bytes
  | none {repeated : Regular} : Matches (many repeated) []
  | more {repeated : Regular} {front back : Text.Bytes} :
      Matches repeated front -> Matches (many repeated) back ->
        Matches (many repeated) (front ++ back)

theorem matches_sequence_iff {first second : Regular} {bytes : Text.Bytes} :
    Matches (sequence first second) bytes ↔
      ∃ front back, bytes = front ++ back ∧ Matches first front ∧ Matches second back := by
  constructor
  · intro whole
    cases whole with
    | sequence inFirst inSecond => exact ⟨_, _, rfl, inFirst, inSecond⟩
  · rintro ⟨front, back, rfl, inFirst, inSecond⟩
    exact .sequence inFirst inSecond

theorem matches_either_iff {left right : Regular} {bytes : Text.Bytes} :
    Matches (either left right) bytes ↔ Matches left bytes ∨ Matches right bytes := by
  constructor
  · intro whole
    cases whole with
    | left inLeft => exact Or.inl inLeft
    | right inRight => exact Or.inr inRight
  · intro side
    rcases side with inLeft | inRight
    · exact .left inLeft
    · exact .right inRight

/-- A repetition that begins with a byte begins with a part that does. -/
theorem Matches.firstPart {expression repeated : Regular} {bytes : Text.Bytes}
    (whole : Matches expression bytes) (isMany : expression = many repeated)
    {value : UInt8} {rest : Text.Bytes} (begins : bytes = value :: rest) :
    ∃ front back, rest = front ++ back ∧ Matches repeated (value :: front) ∧
      Matches (many repeated) back := by
  induction whole generalizing value rest with
  | empty => cases isMany
  | byte => cases isMany
  | sequence => cases isMany
  | left => cases isMany
  | right => cases isMany
  | none => cases begins
  | @more part front back inPart inRest _ later =>
      cases isMany
      cases front with
      | nil => exact later rfl begins
      | cons head others =>
          cases begins
          exact ⟨others, back, rfl, inPart, inRest⟩

/-- `nullable` tells whether the empty string matches. -/
theorem nullable_iff (expression : Regular) :
    expression.nullable = true ↔ Matches expression [] := by
  induction expression with
  | empty => exact ⟨fun _ => .empty, fun _ => rfl⟩
  | byte byteClass =>
      constructor
      · intro impossible
        cases impossible
      · intro whole
        cases whole
  | sequence first second inFirst inSecond =>
      simp only [nullable, Bool.and_eq_true, inFirst, inSecond, matches_sequence_iff]
      constructor
      · intro both
        exact ⟨[], [], rfl, both.1, both.2⟩
      · rintro ⟨front, back, nothing, first, second⟩
        have parts := List.append_eq_nil_iff.mp nothing.symm
        exact ⟨parts.1 ▸ first, parts.2 ▸ second⟩
  | either left right inLeft inRight =>
      simp only [nullable, Bool.or_eq_true, inLeft, inRight, matches_either_iff]
  | many repeated => exact ⟨fun _ => .none, fun _ => rfl⟩

theorem matches_followedBy_iff {first second : Regular} {bytes : Text.Bytes} :
    Matches (first.followedBy second) bytes ↔ Matches (sequence first second) bytes := by
  unfold followedBy
  split
  · rename_i nothing
    subst nothing
    constructor
    · intro whole
      exact .sequence .empty whole
    · intro whole
      obtain ⟨front, back, rfl, inFront, inBack⟩ := matches_sequence_iff.mp whole
      cases inFront
      exact inBack
  · exact Iff.rfl

/-- The expressions `after` a byte match what may follow that byte. -/
theorem exists_mem_after_iff (value : UInt8) (expression : Regular) (rest : Text.Bytes) :
    (∃ next ∈ after value expression, Matches next rest) ↔
      Matches expression (value :: rest) := by
  induction expression generalizing rest with
  | empty =>
      constructor
      · rintro ⟨next, member, _⟩
        cases member
      · intro whole
        cases whole
  | byte byteClass =>
      constructor
      · rintro ⟨next, member, inNext⟩
        unfold after at member
        split at member
        · rename_i inClass
          cases List.mem_singleton.mp member
          cases inNext
          exact .byte inClass
        · cases member
      · intro whole
        cases whole with
        | byte inClass => exact ⟨Regular.empty, by simp [after, inClass], .empty⟩
  | sequence first second inFirst inSecond =>
      constructor
      · rintro ⟨next, member, inNext⟩
        have fromFirst : next ∈ (after value first).map (·.followedBy second) →
            Matches (sequence first second) (value :: rest) := by
          intro mapped
          obtain ⟨part, partMember, rfl⟩ := List.mem_map.mp mapped
          obtain ⟨front, back, rfl, inPart, inBack⟩ :=
            matches_sequence_iff.mp (matches_followedBy_iff.mp inNext)
          have begins := (inFirst front).mp ⟨part, partMember, inPart⟩
          exact .sequence begins inBack
        unfold after at member
        simp only at member
        split at member
        · rename_i skippable
          rcases List.mem_append.mp member with mapped | direct
          · exact fromFirst mapped
          · have begins := (inSecond rest).mp ⟨next, direct, inNext⟩
            exact .sequence ((nullable_iff first).mp skippable) begins
        · exact fromFirst member
      · intro whole
        obtain ⟨front, back, equal, inFront, inBack⟩ := matches_sequence_iff.mp whole
        cases front with
        | nil =>
            have skippable := (nullable_iff first).mpr inFront
            cases equal
            obtain ⟨next, member, inNext⟩ := (inSecond rest).mpr inBack
            refine ⟨next, ?_, inNext⟩
            simp only [after, skippable, if_true]
            exact List.mem_append_right _ member
        | cons head others =>
            cases equal
            obtain ⟨part, member, inPart⟩ := (inFirst others).mpr inFront
            refine ⟨part.followedBy second, ?_,
              matches_followedBy_iff.mpr (.sequence inPart inBack)⟩
            have mapped := List.mem_map_of_mem (f := (·.followedBy second)) member
            unfold after
            simp only
            split
            · exact List.mem_append_left _ mapped
            · exact mapped
  | either left right inLeft inRight =>
      rw [matches_either_iff, ← inLeft, ← inRight]
      simp only [after, List.mem_append]
      constructor
      · rintro ⟨next, member | member, inNext⟩
        · exact Or.inl ⟨next, member, inNext⟩
        · exact Or.inr ⟨next, member, inNext⟩
      · rintro (⟨next, member, inNext⟩ | ⟨next, member, inNext⟩)
        · exact ⟨next, Or.inl member, inNext⟩
        · exact ⟨next, Or.inr member, inNext⟩
  | many repeated inRepeated =>
      constructor
      · rintro ⟨next, member, inNext⟩
        obtain ⟨part, partMember, rfl⟩ := List.mem_map.mp member
        obtain ⟨front, back, rfl, inPart, inBack⟩ :=
          matches_sequence_iff.mp (matches_followedBy_iff.mp inNext)
        have begins := (inRepeated front).mp ⟨part, partMember, inPart⟩
        exact .more begins inBack
      · intro whole
        obtain ⟨front, back, rfl, inFront, inBack⟩ := whole.firstPart rfl rfl
        obtain ⟨part, member, inPart⟩ := (inRepeated front).mpr inFront
        exact ⟨part.followedBy (many repeated), List.mem_map.mpr ⟨part, member, rfl⟩,
          matches_followedBy_iff.mpr (.sequence inPart inBack)⟩

/-- The set of expressions that is followed through a byte string matches what
the expressions at its start match. -/
theorem any_nullable_foldl_iff (states : List Regular) (bytes : Text.Bytes) :
    (bytes.foldl (fun states value => (states.flatMap (after value)).eraseDups) states).any
        nullable = true ↔
      ∃ state ∈ states, Matches state bytes := by
  induction bytes generalizing states with
  | nil =>
      simp only [List.foldl_nil, List.any_eq_true]
      constructor
      · rintro ⟨state, member, nothingLeft⟩
        exact ⟨state, member, (nullable_iff state).mp nothingLeft⟩
      · rintro ⟨state, member, nothingLeft⟩
        exact ⟨state, member, (nullable_iff state).mpr nothingLeft⟩
  | cons value rest inductionHypothesis =>
      rw [List.foldl_cons, inductionHypothesis]
      simp only [List.mem_eraseDups, List.mem_flatMap]
      constructor
      · rintro ⟨next, ⟨state, member, follows⟩, inNext⟩
        exact ⟨state, member, (exists_mem_after_iff value state rest).mp ⟨next, follows, inNext⟩⟩
      · rintro ⟨state, member, whole⟩
        obtain ⟨next, follows, inNext⟩ := (exists_mem_after_iff value state rest).mpr whole
        exact ⟨next, ⟨state, member, follows⟩, inNext⟩

/-- Exactly the byte strings of an expression are accepted. -/
theorem accepts_iff (expression : Regular) (bytes : Text.Bytes) :
    expression.accepts bytes = true ↔ Matches expression bytes := by
  unfold accepts
  rw [any_nullable_foldl_iff]
  simp

end Regular
end Glob
end PageComposer
