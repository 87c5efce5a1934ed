import Mathlib.Algebra.Order.Group.Nat
import Mathlib.Algebra.Order.Interval.Finset.Basic
import Mathlib.Order.Interval.Finset.Nat
import PageComposer.Proofs.Substitution
import PageComposer.Proofs.Text.Occurrence

namespace PageComposer
namespace Text

/-!
# Counting occurrences

An occurrence is told by the byte at which it starts.  How many of them start
in a stretch is counted over all bytes of the stretch, whether they overlap or
not and wherever they end; a search that goes on behind what it has found
counts the same only if no two occurrences overlap.

Offsets of a text become those of a longer text by adding the size of what
stands in front (`startsAt_append_iff`, `startsBetween_append`).
-/

/-- An occurrence of the needle starts at this byte of the text. -/
def StartsAt (needle text : Text) (offset : Nat) : Prop :=
  ∃ before after, text = before ++ needle ++ after ∧ byteSize before = offset

theorem startsAt_iff_splitAtByte {needle text : Text} {offset : Nat} :
    StartsAt needle text offset ↔
      byteSize (splitAtByte offset text).1 = offset ∧ needle <+: (splitAtByte offset text).2 := by
  constructor
  · rintro ⟨before, after, joined, size⟩
    rw [joined, ← size, List.append_assoc, splitAtByte_append]
    exact ⟨rfl, List.prefix_append needle after⟩
  · rintro ⟨size, after, joined⟩
    refine ⟨(splitAtByte offset text).1, after, ?_, size⟩
    rw [List.append_assoc, joined, splitAtByte_join]

instance (needle text : Text) : DecidablePred (StartsAt needle text) :=
  fun _ => decidable_of_iff _ startsAt_iff_splitAtByte.symm

/-- How many occurrences of the needle start at byte `start` or behind it and
before byte `stop`. -/
def startsBetween (needle text : Text) (start stop : Nat) : Nat :=
  ((Finset.Ico start stop).filter (StartsAt needle text)).card

section Occurrences

variable {needle text : Text}

theorem StartsAt.append (front : Text) {offset : Nat} (starts : StartsAt needle text offset) :
    StartsAt needle (front ++ text) (byteSize front + offset) := by
  rcases starts with ⟨before, after, joined, size⟩
  refine ⟨front ++ before, after, ?_, by rw [byteSize_append, size]⟩
  rw [joined]
  simp only [List.append_assoc]

theorem startsAt_append_iff {front : Text} {offset : Nat} :
    StartsAt needle (front ++ text) (byteSize front + offset) ↔ StartsAt needle text offset := by
  constructor
  · rintro ⟨before, after, joined, size⟩
    have leads : before <+: front ++ text := ⟨needle ++ after, by rw [joined, List.append_assoc]⟩
    rcases isPrefix_of_byteSize_le (List.prefix_append front text) leads (by omega) with
      ⟨gap, equal⟩
    rw [← equal, List.append_assoc, List.append_assoc] at joined
    rw [← equal, byteSize_append] at size
    exact ⟨gap, after, by rw [List.append_cancel_left joined, List.append_assoc], by omega⟩
  · exact StartsAt.append front

/-- From one occurrence to another that does not start before it. -/
theorem exists_gap_of_startsAt {one other : Text} {former later : Nat}
    (starts : StartsAt one text former) (starts' : StartsAt other text later)
    (order : former ≤ later) :
    ∃ gap after after', one ++ after = gap ++ (other ++ after') ∧
      former + byteSize gap = later := by
  rcases starts with ⟨before, after, joined, size⟩
  rcases starts' with ⟨before', after', joined', size'⟩
  have leads : before <+: text := ⟨one ++ after, by rw [joined, List.append_assoc]⟩
  have leads' : before' <+: text := ⟨other ++ after', by rw [joined', List.append_assoc]⟩
  rcases isPrefix_of_byteSize_le leads leads' (by omega) with ⟨gap, equal⟩
  rw [joined, ← equal, List.append_assoc, List.append_assoc, List.append_assoc] at joined'
  rw [← equal, byteSize_append, size] at size'
  exact ⟨gap, after, after', List.append_cancel_left joined', size'⟩

/-- Where an occurrence starts inside of another one, what is left of that one begins it. -/
theorem exists_overlap_of_startsAt {one other : Text} {former later : Nat}
    (starts : StartsAt one text former) (starts' : StartsAt other text later)
    (inside : former < later ∧ later < former + byteSize one) :
    ∃ back more, back <:+ one ∧ back ≠ [] ∧ back ≠ one ∧ other <+: back ++ more := by
  rcases exists_gap_of_startsAt starts starts' (Nat.le_of_lt inside.1) with
    ⟨gap, after, after', joined, size⟩
  have leads : gap <+: one :=
    isPrefix_of_byteSize_le ⟨_, joined.symm⟩ (List.prefix_append one after) (by omega)
  rcases leads with ⟨back, split⟩
  have sizes := congrArg byteSize split
  rw [byteSize_append] at sizes
  rw [← split, List.append_assoc] at joined
  refine ⟨back, after, ⟨gap, split⟩, ?_, ?_, after', (List.append_cancel_left joined).symm⟩
  · intro empty
    rw [empty, byteSize_nil] at sizes
    omega
  · intro whole
    rw [whole] at sizes
    omega

theorem startsBetween_add {start middle stop : Nat} (first : start ≤ middle)
    (second : middle ≤ stop) :
    startsBetween needle text start stop =
      startsBetween needle text start middle + startsBetween needle text middle stop := by
  unfold startsBetween
  rw [← Finset.Ico_union_Ico_eq_Ico first second, Finset.filter_union,
    Finset.card_union_of_disjoint]
  exact Finset.disjoint_filter_filter (Finset.Ico_disjoint_Ico_consecutive start middle stop)

theorem startsBetween_append (front : Text) (start stop : Nat) :
    startsBetween needle (front ++ text) (byteSize front + start) (byteSize front + stop) =
      startsBetween needle text start stop := by
  unfold startsBetween
  rw [← Finset.map_add_left_Ico, Finset.filter_map, Finset.card_map]
  congr 1
  exact Finset.filter_congr fun offset _ => startsAt_append_iff

theorem startsBetween_eq_zero {start stop : Nat}
    (absent : ∀ offset, start ≤ offset -> offset < stop -> ¬ StartsAt needle text offset) :
    startsBetween needle text start stop = 0 := by
  unfold startsBetween
  rw [Finset.card_eq_zero, Finset.filter_eq_empty_iff]
  intro offset bounds
  rcases Finset.mem_Ico.mp bounds with ⟨lower, upper⟩
  exact absent offset lower upper

/-- One is counted where there is one occurrence in a stretch and no other. -/
theorem startsBetween_eq_ite {start stop offset : Nat} (inside : start ≤ offset ∧ offset < stop)
    (only : ∀ other, start ≤ other -> other < stop -> StartsAt needle text other ->
      other = offset) :
    startsBetween needle text start stop = if StartsAt needle text offset then 1 else 0 := by
  split
  · rename_i here
    unfold startsBetween
    rw [Finset.card_eq_one]
    refine ⟨offset, Finset.eq_singleton_iff_unique_mem.mpr ⟨?_, fun other member => ?_⟩⟩
    · exact Finset.mem_filter.mpr ⟨Finset.mem_Ico.mpr inside, here⟩
    · rcases Finset.mem_filter.mp member with ⟨bounds, starts⟩
      rcases Finset.mem_Ico.mp bounds with ⟨lower, upper⟩
      exact only other lower upper starts
  · rename_i absent
    apply startsBetween_eq_zero
    intro other lower upper starts
    exact absent (only other lower upper starts ▸ starts)

end Occurrences
end Text
end PageComposer
