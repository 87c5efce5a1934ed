import PageComposer.Decompile.Collapse
import PageComposer.Proofs.Text.Occurrence

namespace PageComposer

/-!
# The comments of one definition

The search for the end of a region looks at the comments with its own definition
only.  It passes over every text in which neither of the two is found
(`matchingEnd?_pass`), goes one level deeper at a begin comment and comes up
again at an end comment.
-/

section Matching

variable {definition front more : Text}

theorem nextComment?_pass (begins : Text.Passes (beginTag definition) front more)
    (ends : Text.Passes (endTag definition) front more) :
    nextComment? definition (front ++ more) =
      (nextComment? definition more).map fun comment =>
        { comment with before := front ++ comment.before } := by
  unfold nextComment?
  rw [begins, ends]
  cases Text.cut? (endTag definition) more with
  | none => rfl
  | some endParts =>
      cases Text.cut? (beginTag definition) more with
      | none => rfl
      | some beginParts =>
          by_cases opens : beginParts.1.length < endParts.1.length <;>
            simp [Text.putBefore, opens]

theorem nextComment?_begins (ends : Text.Passes (endTag definition) (beginTag definition) more) :
    nextComment? definition (beginTag definition ++ more) =
      (Text.cut? (endTag definition) more).map fun _ => ⟨true, [], more⟩ := by
  have positive : 0 < (beginTag definition).length := by
    simp [beginTag, beginMarker, tagOpen]
  unfold nextComment?
  rw [Text.cut?_self_append, ends]
  cases Text.cut? (endTag definition) more with
  | none => rfl
  | some endParts =>
      simp only [Option.map_some, Text.putBefore, List.length_append, List.length_nil]
      rw [if_pos (by omega)]

theorem nextComment?_ends (definition more : Text) :
    nextComment? definition (endTag definition ++ more) = some ⟨false, [], more⟩ := by
  unfold nextComment?
  rw [Text.cut?_self_append]
  cases Text.cut? (beginTag definition) (endTag definition ++ more) with
  | none => rfl
  | some beginParts => simp

theorem matchingEnd?_eq (depth : Nat) (text : Text) :
    matchingEnd? definition depth text =
      (nextComment? definition text).bind fun comment =>
        if comment.opens then
          (matchingEnd? definition (depth + 1) comment.after).map (comment.reattach definition)
        else
          match depth with
          | 0 => some (comment.before, comment.after)
          | outer + 1 =>
              (matchingEnd? definition outer comment.after).map (comment.reattach definition) := by
  rw [matchingEnd?]
  split
  · rename_i nothing
    rw [nothing]
    rfl
  · rename_i comment next
    rw [next]
    rfl

theorem matchingEnd?_pass (begins : Text.Passes (beginTag definition) front more)
    (ends : Text.Passes (endTag definition) front more) (depth : Nat) :
    matchingEnd? definition depth (front ++ more) =
      (matchingEnd? definition depth more).map (Text.putBefore front) := by
  rw [matchingEnd?_eq, matchingEnd?_eq depth more, nextComment?_pass begins ends]
  have moved (comment : RegionComment) (found : Option (Text × Text)) :
      found.map (RegionComment.reattach
          { comment with before := front ++ comment.before } definition) =
        (found.map (comment.reattach definition)).map (Text.putBefore front) := by
    rw [Option.map_map]
    congr 1
    funext rest
    simp [RegionComment.reattach, Text.putBefore, RegionComment.tag]
  cases nextComment? definition more with
  | none => rfl
  | some comment =>
      cases opens : comment.opens with
      | true => simpa [opens] using moved comment _
      | false =>
          cases depth with
          | zero => simp [opens, Text.putBefore]
          | succ outer => simpa [opens] using moved comment _

theorem matchingEnd?_begins (ends : Text.Passes (endTag definition) (beginTag definition) more)
    (depth : Nat) :
    matchingEnd? definition depth (beginTag definition ++ more) =
      (matchingEnd? definition (depth + 1) more).map (Text.putBefore (beginTag definition)) := by
  rw [matchingEnd?_eq, nextComment?_begins ends]
  cases closed : Text.cut? (endTag definition) more with
  | none =>
      -- Without an end comment nothing is looked for behind the begin comment either.
      have nothing : nextComment? definition more = none := by
        unfold nextComment?
        rw [closed]
      rw [matchingEnd?_eq (depth + 1) more, nothing]
      rfl
  | some parts => rfl

theorem matchingEnd?_ends (definition more : Text) :
    matchingEnd? definition 0 (endTag definition ++ more) = some ([], more) := by
  rw [matchingEnd?_eq, nextComment?_ends]
  rfl

theorem matchingEnd?_ends_of_inner (definition more : Text) (depth : Nat) :
    matchingEnd? definition (depth + 1) (endTag definition ++ more) =
      (matchingEnd? definition depth more).map (Text.putBefore (endTag definition)) := by
  rw [matchingEnd?_eq, nextComment?_ends]
  rfl

end Matching
end PageComposer
