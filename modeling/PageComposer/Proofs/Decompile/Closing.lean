import Mathlib.Order.Bounds.Basic
import PageComposer.Proofs.Decompile.Forest
import PageComposer.Proofs.Text.Counting

namespace PageComposer

/-!
# The end comment that closes a region

A region may hold regions that say the same.  The end comment that closes it is
told by counting: it is the first one before which as many end comments start as
begin comments (`Closes`).  The search does not count over the text.  It is a
loop that goes from one comment to the next, always on behind the comment it has
found, and keeps how many inner regions are open.

The two agree (`matchingEnd?_eq_some_iff`, `matchingEnd?_eq_none_iff`) because the
comments of one definition never overlap (`comments_apart`).  A definition may spell
comments itself, so a comment could well seem to start inside another one; but a
comment goes up to the first closing in it, and one that started inside another one
would have to be that comment.
-/

/-! ## Comments do not overlap -/

namespace Lead

/-- What a comment leads with and says holds no closing. -/
theorem not_tagClose_isInfix (lead : Lead) {body : Text} (unclosed : ¬ tagClose <:+: body) :
    ¬ tagClose <:+: lead.opening ++ body := by
  have apart : ∀ lead ∈ all, ∀ back ∈ lead.opening.tails, back ≠ [] ->
      Text.Apart tagClose back := by
    decide
  have quiet := Text.quiet_of_apart (apart lead lead.mem_all)
  exact Text.Passes.not_isInfix (Text.cut?_quiet_append quiet body) unclosed

/-- No comment starts inside another one that says the same. -/
theorem not_comment_isPrefix_inside (lead other : Lead) {body back : Text}
    (unclosed : ¬ tagClose <:+: body) (inside : back <:+ other.opening ++ body ++ tagClose)
    (nonempty : back ≠ []) (proper : back ≠ other.opening ++ body ++ tagClose) (more : Text) :
    ¬ lead.opening ++ body ++ tagClose <+: back ++ more := by
  rcases lead.opening_eq_cons with ⟨letters, opening, _⟩
  rintro ⟨after, joined⟩
  rcases List.suffix_or_suffix_of_suffix inside (List.suffix_append _ tagClose) with
    inClosing | ⟨inner, whole⟩
  · -- The closing holds no bracket to start from.
    cases back with
    | nil => exact nonempty rfl
    | cons head others =>
        rw [opening] at joined
        have bracket : '<' ∈ tagClose := by
          rw [(List.cons.inj joined).1]
          exact inClosing.subset List.mem_cons_self
        exact absurd bracket (by decide)
  · -- Both comments go up to the first closing, so that they say the same up to there.
    rcases inside with ⟨front, split⟩
    rw [← whole, ← List.append_assoc] at split
    have spelled := List.append_cancel_right split
    have innerUnclosed : ¬ tagClose <:+: inner := fun occurs =>
      other.not_tagClose_isInfix unclosed
        (occurs.trans ⟨front, [], by rw [spelled, List.append_nil]⟩)
    rw [← whole] at joined
    have same :=
      (Text.append_tagClose_inj (lead.not_tagClose_isInfix unclosed) innerUnclosed joined).1
    rw [← same, ← List.append_assoc] at spelled
    have openings := List.append_cancel_right spelled
    cases front with
    | nil =>
        apply proper
        rw [← whole, ← same, ← openings, List.nil_append]
    | cons head others =>
        rcases other.opening_eq_cons with ⟨tail, otherOpening, once⟩
        rw [otherOpening, opening] at openings
        apply once
        rw [← (List.cons.inj openings).2]
        exact List.mem_append_right others List.mem_cons_self

end Lead

/-- The comments around regions with this definition. -/
def regionComments (definition : Text) : List Text :=
  [beginTag definition, endTag definition]

theorem beginTag_mem_regionComments (definition : Text) :
    beginTag definition ∈ regionComments definition :=
  List.mem_cons_self

theorem endTag_mem_regionComments (definition : Text) :
    endTag definition ∈ regionComments definition :=
  List.mem_cons_of_mem _ List.mem_cons_self

theorem beginTag_ne_endTag (definition : Text) : beginTag definition ≠ endTag definition := by
  intro equal
  have lengths := congrArg List.length equal
  have markers : beginMarker.length = 11 ∧ endMarker.length = 9 := by decide
  simp only [beginTag, endTag, List.length_append] at lengths
  omega

section Comments

variable {definition text one other : Text}

theorem exists_lead_of_mem_regionComments (member : one ∈ regionComments definition) :
    ∃ lead : Lead, one = lead.opening ++ definition ++ tagClose := by
  rcases List.mem_pair.mp member with begins | ends
  · exact ⟨.begins, begins⟩
  · exact ⟨.ends, ends⟩

/-- A comment has ended where a later one starts. -/
theorem stop_le_of_startsAt (unclosed : ¬ tagClose <:+: definition)
    (first : one ∈ regionComments definition) (second : other ∈ regionComments definition)
    {former later : Nat} (starts : Text.StartsAt one text former)
    (starts' : Text.StartsAt other text later) (earlier : former < later) :
    former + Text.byteSize one ≤ later := by
  rcases exists_lead_of_mem_regionComments first with ⟨lead, equal⟩
  rcases exists_lead_of_mem_regionComments second with ⟨lead', equal'⟩
  by_contra overlap
  rcases Text.exists_overlap_of_startsAt starts starts' ⟨earlier, by omega⟩ with
    ⟨back, more, inside, nonempty, proper, leads⟩
  rw [equal] at inside proper
  rw [equal'] at leads
  exact lead'.not_comment_isPrefix_inside lead unclosed inside nonempty proper more leads

theorem eq_of_startsAt (unclosed : ¬ tagClose <:+: definition)
    (first : one ∈ regionComments definition) (second : other ∈ regionComments definition)
    {offset : Nat} (starts : Text.StartsAt one text offset)
    (starts' : Text.StartsAt other text offset) : one = other := by
  rcases exists_lead_of_mem_regionComments first with ⟨lead, equal⟩
  rcases exists_lead_of_mem_regionComments second with ⟨lead', equal'⟩
  rcases Text.exists_gap_of_startsAt starts starts' (Nat.le_refl offset) with
    ⟨gap, after, after', joined, size⟩
  have nothing : gap = [] := Text.eq_nil_of_byteSize_eq_zero (by omega)
  rw [nothing, List.nil_append, equal, equal'] at joined
  have same := (lead.comment_injective lead' unclosed unclosed ⟨after, joined⟩).1
  rw [equal, equal', same]

/-- Two comments of one definition are the same one, or one has ended where the other
starts. -/
theorem comments_apart (unclosed : ¬ tagClose <:+: definition)
    (first : one ∈ regionComments definition) (second : other ∈ regionComments definition)
    {offset offset' : Nat} (starts : Text.StartsAt one text offset)
    (starts' : Text.StartsAt other text offset') :
    (offset = offset' ∧ one = other) ∨ offset + Text.byteSize one ≤ offset' ∨
      offset' + Text.byteSize other ≤ offset := by
  rcases Nat.lt_trichotomy offset offset' with earlier | same | later
  · exact Or.inr (Or.inl (stop_le_of_startsAt unclosed first second starts starts' earlier))
  · subst same
    exact Or.inl ⟨rfl, eq_of_startsAt unclosed first second starts starts'⟩
  · exact Or.inr (Or.inr (stop_le_of_startsAt unclosed second first starts' starts later))

end Comments

/-! ## The next comment -/

namespace RegionComment

/-- The text up to the end of a comment. -/
def passed (comment : RegionComment) (definition : Text) : Text :=
  comment.before ++ comment.tag definition

/-- Behind a begin comment one more region is open, behind an end comment one less. -/
def Leads (comment : RegionComment) (depth inner : Nat) : Prop :=
  if comment.opens then inner = depth + 1 else depth = inner + 1

theorem leads_of_opens (comment : RegionComment) (opens : comment.opens) (depth : Nat) :
    comment.Leads depth (depth + 1) := by
  rw [Leads, if_pos opens]

theorem leads_of_not_opens (comment : RegionComment) (ends : ¬ comment.opens) (outer : Nat) :
    comment.Leads (outer + 1) outer := by
  rw [Leads, if_neg ends]

variable (comment : RegionComment) (definition : Text)

theorem byteSize_tag_pos : 0 < Text.byteSize (comment.tag definition) := by
  apply Nat.pos_of_ne_zero
  intro zero
  have positive := comment.tag_length_pos definition
  rw [Text.eq_nil_of_byteSize_eq_zero zero] at positive
  exact absurd positive (Nat.lt_irrefl 0)

theorem tag_mem_regionComments : comment.tag definition ∈ regionComments definition := by
  unfold tag
  split
  · exact beginTag_mem_regionComments definition
  · exact endTag_mem_regionComments definition

theorem tag_eq_beginTag_iff : comment.tag definition = beginTag definition ↔ comment.opens := by
  have different := (beginTag_ne_endTag definition).symm
  unfold tag
  split <;> simp_all

theorem tag_eq_endTag_iff : comment.tag definition = endTag definition ↔ ¬ comment.opens := by
  have different := beginTag_ne_endTag definition
  unfold tag
  split <;> simp_all

end RegionComment

section Next

variable {definition text : Text} {comment : RegionComment}

theorem nextComment?_eq_none_iff :
    nextComment? definition text = none ↔ ¬ endTag definition <:+: text := by
  rw [← Text.cut?_eq_none_iff]
  unfold nextComment?
  cases Text.cut? (endTag definition) text with
  | none => simp
  | some ended =>
      cases Text.cut? (beginTag definition) text with
      | none => simp
      | some begun =>
          by_cases opens : begun.1.length < ended.1.length <;> simp [opens]

theorem passed_append_after (next : nextComment? definition text = some comment) :
    text = comment.passed definition ++ comment.after :=
  nextComment?_join next

/-- No comment starts before the next one. -/
theorem nextComment?_first (next : nextComment? definition text = some comment) {tag : Text}
    (member : tag ∈ regionComments definition) {left right : Text}
    (occurs : text = left ++ tag ++ right) : comment.before.length ≤ left.length := by
  unfold nextComment? at next
  split at next
  · cases next
  · rename_i beforeEnd afterEnd ended
    have notBeforeEnd (ends : tag = endTag definition) : beforeEnd.length ≤ left.length :=
      Text.cut?_first ended (ends ▸ occurs)
    split at next
    · rename_i beforeBegin afterBegin begun
      have notBeforeBegin (begins : tag = beginTag definition) :
          beforeBegin.length ≤ left.length :=
        Text.cut?_first begun (begins ▸ occurs)
      split at next
      · rename_i sooner
        cases next
        rcases List.mem_pair.mp member with begins | ends
        · exact notBeforeBegin begins
        · exact Nat.le_trans (Nat.le_of_lt sooner) (notBeforeEnd ends)
      · rename_i later
        cases next
        rcases List.mem_pair.mp member with begins | ends
        · exact Nat.le_trans (Nat.le_of_not_lt later) (notBeforeBegin begins)
        · exact notBeforeEnd ends
    · rename_i unbegun
      cases next
      rcases List.mem_pair.mp member with begins | ends
      · exact absurd ⟨left, right, (begins ▸ occurs).symm⟩ (Text.cut?_eq_none_iff.mp unbegun)
      · exact notBeforeEnd ends

/-- The same said of the bytes at which they start. -/
theorem le_of_startsAt (next : nextComment? definition text = some comment) {tag : Text}
    (member : tag ∈ regionComments definition) {offset : Nat}
    (starts : Text.StartsAt tag text offset) : Text.byteSize comment.before ≤ offset := by
  rcases starts with ⟨left, right, joined, size⟩
  have first := nextComment?_first next member joined
  have before : comment.before <+: text :=
    ⟨_, by rw [nextComment?_join next, List.append_assoc]⟩
  have leads : left <+: text := ⟨_, by rw [joined, List.append_assoc]⟩
  rcases List.prefix_of_prefix_length_le before leads first with ⟨gap, equal⟩
  rw [← size, ← equal, Text.byteSize_append]
  omega

theorem startsAt_before (next : nextComment? definition text = some comment) :
    Text.StartsAt (comment.tag definition) text (Text.byteSize comment.before) :=
  ⟨comment.before, comment.after, nextComment?_join next, rfl⟩

/-- A comment other than the next one starts behind it. -/
theorem passed_le_of_startsAt (unclosed : ¬ tagClose <:+: definition)
    (next : nextComment? definition text = some comment) {tag : Text}
    (member : tag ∈ regionComments definition) {offset : Nat}
    (starts : Text.StartsAt tag text offset) (behind : Text.byteSize comment.before ≠ offset) :
    Text.byteSize (comment.passed definition) ≤ offset := by
  have further : Text.byteSize comment.before < offset :=
    Nat.lt_of_le_of_ne (le_of_startsAt next member starts) behind
  rw [RegionComment.passed, Text.byteSize_append]
  exact stop_le_of_startsAt unclosed (comment.tag_mem_regionComments definition) member
    (startsAt_before next) starts further

/-- Counting begins with the next comment and goes on behind it. -/
theorem startsBetween_of_nextComment? (unclosed : ¬ tagClose <:+: definition)
    (next : nextComment? definition text = some comment) {tag : Text}
    (member : tag ∈ regionComments definition) (stop : Nat) :
    Text.startsBetween tag text 0 (Text.byteSize (comment.passed definition) + stop) =
      (if comment.tag definition = tag then 1 else 0) +
        Text.startsBetween tag comment.after 0 stop := by
  have nonempty := comment.byteSize_tag_pos definition
  have size : Text.byteSize (comment.passed definition) =
      Text.byteSize comment.before + Text.byteSize (comment.tag definition) :=
    Text.byteSize_append _ _
  have here : Text.StartsAt tag text (Text.byteSize comment.before) ↔
      comment.tag definition = tag := by
    constructor
    · exact eq_of_startsAt unclosed (comment.tag_mem_regionComments definition) member
        (startsAt_before next)
    · intro equal
      exact equal ▸ startsAt_before next
  have first : Text.startsBetween tag text 0 (Text.byteSize (comment.passed definition)) =
      if comment.tag definition = tag then 1 else 0 := by
    have only : ∀ other, 0 ≤ other -> other < Text.byteSize (comment.passed definition) ->
        Text.StartsAt tag text other -> other = Text.byteSize comment.before := by
      intro other _ inside starts
      by_contra different
      have beyond := passed_le_of_startsAt unclosed next member starts (Ne.symm different)
      omega
    rw [Text.startsBetween_eq_ite ⟨Nat.zero_le _, by omega⟩ only]
    simp only [here]
  have behind : Text.startsBetween tag text (Text.byteSize (comment.passed definition))
      (Text.byteSize (comment.passed definition) + stop) =
      Text.startsBetween tag comment.after 0 stop := by
    have moved := @Text.startsBetween_append tag comment.after (comment.passed definition) 0 stop
    rwa [← passed_append_after next] at moved
  rw [Text.startsBetween_add (Nat.zero_le _) (Nat.le_add_right _ stop), first, behind]

theorem startsBetween_beginTag (unclosed : ¬ tagClose <:+: definition)
    (next : nextComment? definition text = some comment) (stop : Nat) :
    Text.startsBetween (beginTag definition) text 0
        (Text.byteSize (comment.passed definition) + stop) =
      (if comment.opens then 1 else 0) +
        Text.startsBetween (beginTag definition) comment.after 0 stop := by
  rw [startsBetween_of_nextComment? unclosed next (beginTag_mem_regionComments definition)]
  simp only [comment.tag_eq_beginTag_iff]

theorem startsBetween_endTag (unclosed : ¬ tagClose <:+: definition)
    (next : nextComment? definition text = some comment) (stop : Nat) :
    Text.startsBetween (endTag definition) text 0
        (Text.byteSize (comment.passed definition) + stop) =
      (if comment.opens then 0 else 1) +
        Text.startsBetween (endTag definition) comment.after 0 stop := by
  rw [startsBetween_of_nextComment? unclosed next (endTag_mem_regionComments definition)]
  simp only [comment.tag_eq_endTag_iff, ite_not]

end Next

/-! ## Closing by counting -/

/-- The end comment at byte `stop` closes a region whose inside begins at byte
`start` while `depth` regions inside of it are open: up to there as many end
comments start as begin comments, and one more for each of those regions. -/
structure Closes (definition text : Text) (start depth stop : Nat) : Prop where
  behind : start ≤ stop
  ends : Text.StartsAt (endTag definition) text stop
  balanced : Text.startsBetween (endTag definition) text start stop =
    Text.startsBetween (beginTag definition) text start stop + depth

section Moved

variable {ends behind : Set Nat} {size : Nat} (moved : ∀ stop, size + stop ∈ ends ↔ stop ∈ behind)
  (beyond : ∀ stop ∈ ends, size ≤ stop)
include moved beyond

/-- The least of numbers that are all moved by the same amount is moved by it. -/
theorem isLeast_add_iff {stop : Nat} : IsLeast ends (size + stop) ↔ IsLeast behind stop := by
  constructor
  · rintro ⟨member, least⟩
    refine ⟨(moved stop).mp member, fun other within => ?_⟩
    exact Nat.le_of_add_le_add_left (least ((moved other).mpr within))
  · rintro ⟨member, least⟩
    refine ⟨(moved stop).mpr member, fun other within => ?_⟩
    rcases Nat.exists_eq_add_of_le (beyond other within) with ⟨further, equal⟩
    rw [equal] at within ⊢
    exact Nat.add_le_add_left (least ((moved further).mp within)) size

theorem forall_not_mem_iff : (∀ stop, stop ∉ ends) ↔ ∀ stop, stop ∉ behind := by
  constructor
  · intro absent stop within
    exact absent (size + stop) ((moved stop).mpr within)
  · intro absent stop within
    rcases Nat.exists_eq_add_of_le (beyond stop within) with ⟨further, equal⟩
    rw [equal] at within
    exact absent further ((moved further).mp within)

end Moved

section Closing

variable {definition text : Text} {depth : Nat}

section Front

variable {front : Text}

/-- Text in front moves the end and nothing else. -/
theorem closes_append_iff (stop : Nat) :
    Closes definition (front ++ text) (Text.byteSize front) depth (Text.byteSize front + stop) ↔
      Closes definition text 0 depth stop := by
  have counted (needle : Text) :
      Text.startsBetween needle (front ++ text) (Text.byteSize front)
          (Text.byteSize front + stop) =
        Text.startsBetween needle text 0 stop :=
    Text.startsBetween_append front 0 stop
  constructor
  · rintro ⟨_, ends, balanced⟩
    rw [counted, counted] at balanced
    exact ⟨Nat.zero_le _, Text.startsAt_append_iff.mp ends, balanced⟩
  · rintro ⟨_, ends, balanced⟩
    refine ⟨Nat.le_add_right _ _, ends.append front, ?_⟩
    rw [counted, counted, balanced]

theorem isLeast_closes_append_iff {stop : Nat} :
    IsLeast {stop | Closes definition (front ++ text) (Text.byteSize front) depth stop}
        (Text.byteSize front + stop) ↔
      IsLeast {stop | Closes definition text 0 depth stop} stop :=
  isLeast_add_iff closes_append_iff fun _ closes => closes.behind

theorem forall_not_closes_append_iff :
    (∀ stop, ¬ Closes definition (front ++ text) (Text.byteSize front) depth stop) ↔
      ∀ stop, ¬ Closes definition text 0 depth stop :=
  forall_not_mem_iff closes_append_iff fun _ closes => closes.behind

end Front

section Step

variable {comment : RegionComment} (next : nextComment? definition text = some comment)
include next

/-- No comment is counted in front of the next one. -/
theorem startsBetween_before {tag : Text} (member : tag ∈ regionComments definition) :
    Text.startsBetween tag text 0 (Text.byteSize comment.before) = 0 := by
  apply Text.startsBetween_eq_zero
  intro offset _ inside starts
  exact absurd (le_of_startsAt next member starts) (Nat.not_le_of_lt inside)

/-- At the outermost level the next comment closes if it is an end comment. -/
theorem isLeast_closes_before (ends : ¬ comment.opens) :
    IsLeast {stop | Closes definition text 0 0 stop} (Text.byteSize comment.before) := by
  constructor
  · have here := startsAt_before next
    rw [(comment.tag_eq_endTag_iff definition).mpr ends] at here
    refine ⟨Nat.zero_le _, here, ?_⟩
    rw [startsBetween_before next (endTag_mem_regionComments definition),
      startsBetween_before next (beginTag_mem_regionComments definition)]
  · intro stop closes
    exact le_of_startsAt next (endTag_mem_regionComments definition) closes.ends

variable (unclosed : ¬ tagClose <:+: definition) {inner : Nat} (leads : comment.Leads depth inner)
include unclosed leads

/-- Both counts go on behind the next comment, at the depth that it leads to. -/
theorem balanced_passed_iff (stop : Nat) :
    Text.startsBetween (endTag definition) text 0
          (Text.byteSize (comment.passed definition) + stop) =
        Text.startsBetween (beginTag definition) text 0
          (Text.byteSize (comment.passed definition) + stop) + depth ↔
      Text.startsBetween (endTag definition) comment.after 0 stop =
        Text.startsBetween (beginTag definition) comment.after 0 stop + inner := by
  unfold RegionComment.Leads at leads
  rw [startsBetween_beginTag unclosed next, startsBetween_endTag unclosed next]
  split at leads
  · rename_i opens
    rw [if_pos opens, if_pos opens]
    omega
  · rename_i ends
    rw [if_neg ends, if_neg ends]
    omega

theorem closes_passed_iff (stop : Nat) :
    Closes definition text 0 depth (Text.byteSize (comment.passed definition) + stop) ↔
      Closes definition comment.after 0 inner stop := by
  have stands : Text.StartsAt (endTag definition) text
      (Text.byteSize (comment.passed definition) + stop) ↔
      Text.StartsAt (endTag definition) comment.after stop := by
    conv_lhs => rw [passed_append_after next]
    exact Text.startsAt_append_iff
  have counted := balanced_passed_iff next unclosed leads stop
  constructor
  · rintro ⟨_, here, balanced⟩
    exact ⟨Nat.zero_le _, stands.mp here, counted.mp balanced⟩
  · rintro ⟨_, there, balanced⟩
    exact ⟨Nat.zero_le _, stands.mpr there, counted.mpr balanced⟩

/-- As long as the next comment leads on, no end closes in front of it or with it. -/
theorem passed_le_of_closes {stop : Nat} (closes : Closes definition text 0 depth stop) :
    Text.byteSize (comment.passed definition) ≤ stop := by
  have member := endTag_mem_regionComments definition
  apply passed_le_of_startsAt unclosed next member closes.ends
  intro here
  rw [← here] at closes
  have same := eq_of_startsAt unclosed (comment.tag_mem_regionComments definition) member
    (startsAt_before next) closes.ends
  have balanced := closes.balanced
  rw [startsBetween_before next member,
    startsBetween_before next (beginTag_mem_regionComments definition)] at balanced
  rw [RegionComment.Leads, if_neg ((comment.tag_eq_endTag_iff definition).mp same)] at leads
  omega

/-- The first end that closes stays the first one when the search goes on behind a
comment. -/
theorem isLeast_closes_passed {stop : Nat}
    (least : IsLeast {stop | Closes definition comment.after 0 inner stop} stop) :
    IsLeast {stop | Closes definition text 0 depth stop}
      (Text.byteSize (comment.passed definition) + stop) :=
  (isLeast_add_iff (closes_passed_iff next unclosed leads)
    fun _ => passed_le_of_closes next unclosed leads).mpr least

theorem not_closes_passed (behind : ∀ stop, ¬ Closes definition comment.after 0 inner stop) :
    ∀ stop, ¬ Closes definition text 0 depth stop :=
  (forall_not_mem_iff (closes_passed_iff next unclosed leads)
    fun _ => passed_le_of_closes next unclosed leads).mpr behind

end Step

/-- The search finds the first end that closes. -/
theorem isLeast_of_matchingEnd? (unclosed : ¬ tagClose <:+: definition) {inner after : Text}
    (closed : matchingEnd? definition depth text = some (inner, after)) :
    IsLeast {stop | Closes definition text 0 depth stop} (Text.byteSize inner) := by
  -- One case for each kind of round; what closes behind a comment closes at its depth.
  fun_induction matchingEnd? definition depth text generalizing inner after with
  | case1 => cases closed
  | case2 depth text comment next opens inductionHypothesis =>
      rcases Option.map_eq_some_iff.mp closed with ⟨rest, found, equal⟩
      cases equal
      have least := isLeast_closes_passed next unclosed (comment.leads_of_opens opens depth)
        (inductionHypothesis found)
      rwa [← Text.byteSize_append] at least
  | case3 text comment next closes =>
      cases closed
      exact isLeast_closes_before next closes
  | case4 text comment next closes outer inductionHypothesis =>
      rcases Option.map_eq_some_iff.mp closed with ⟨rest, found, equal⟩
      cases equal
      have least := isLeast_closes_passed next unclosed (comment.leads_of_not_opens closes outer)
        (inductionHypothesis found)
      rwa [← Text.byteSize_append] at least

/-- Where the search is in vain no end closes. -/
theorem not_closes_of_matchingEnd? (unclosed : ¬ tagClose <:+: definition)
    (unclosing : matchingEnd? definition depth text = none) (stop : Nat) :
    ¬ Closes definition text 0 depth stop := by
  fun_induction matchingEnd? definition depth text generalizing stop with
  | case1 depth text nothing =>
      rintro ⟨_, ⟨before, after, joined, _⟩, _⟩
      exact nextComment?_eq_none_iff.mp nothing ⟨before, after, joined.symm⟩
  | case2 depth text comment next opens inductionHypothesis =>
      have behind := inductionHypothesis (Option.map_eq_none_iff.mp unclosing)
      exact not_closes_passed next unclosed (comment.leads_of_opens opens depth) behind stop
  | case3 => cases unclosing
  | case4 text comment next closes outer inductionHypothesis =>
      have behind := inductionHypothesis (Option.map_eq_none_iff.mp unclosing)
      exact not_closes_passed next unclosed (comment.leads_of_not_opens closes outer) behind stop

/-- The search finds an end comment exactly if it is the first one that closes. -/
theorem matchingEnd?_eq_some_iff (unclosed : ¬ tagClose <:+: definition) {inner after : Text} :
    matchingEnd? definition depth text = some (inner, after) ↔
      text = inner ++ endTag definition ++ after ∧
        IsLeast {stop | Closes definition text 0 depth stop} (Text.byteSize inner) := by
  constructor
  · intro closed
    exact ⟨matchingEnd?_join closed, isLeast_of_matchingEnd? unclosed closed⟩
  · rintro ⟨joined, first⟩
    cases closed : matchingEnd? definition depth text with
    | none => exact absurd first.1 (not_closes_of_matchingEnd? unclosed closed _)
    | some parts =>
        -- What is found ends at the same byte, and a text is taken apart there in one way.
        have found := isLeast_of_matchingEnd? unclosed closed
        have joined' := matchingEnd?_join closed
        rw [joined, List.append_assoc, List.append_assoc] at joined'
        rcases Text.append_inj_of_byteSize joined' (first.unique found) with ⟨same, behind⟩
        rw [same, List.append_cancel_left behind]

theorem matchingEnd?_eq_none_iff (unclosed : ¬ tagClose <:+: definition) :
    matchingEnd? definition depth text = none ↔ ∀ stop, ¬ Closes definition text 0 depth stop := by
  constructor
  · exact not_closes_of_matchingEnd? unclosed
  · intro absent
    cases closed : matchingEnd? definition depth text with
    | none => rfl
    | some parts => exact absurd (isLeast_of_matchingEnd? unclosed closed).1 (absent _)

end Closing

/-! ## Rounds of the search -/

/-- The loop, broken off when it is not done within so many rounds. -/
def matchingEndWithin? (definition : Text) : Nat -> Nat -> Text -> Option (Option (Text × Text))
  | 0, _, _ => none
  | rounds + 1, depth, text =>
      match nextComment? definition text with
      | none => some none
      | some comment =>
          if comment.opens then
            (matchingEndWithin? definition rounds (depth + 1) comment.after).map
              (Option.map (comment.reattach definition))
          else
            match depth with
            | 0 => some (some (comment.before, comment.after))
            | outer + 1 =>
                (matchingEndWithin? definition rounds outer comment.after).map
                  (Option.map (comment.reattach definition))

/-- How many begin comments and end comments with a definition start in a text. -/
def commentCount (definition text : Text) : Nat :=
  Text.startsBetween (beginTag definition) text 0 (Text.byteSize text) +
    Text.startsBetween (endTag definition) text 0 (Text.byteSize text)

section Rounds

variable {definition text : Text}

/-- The next comment is one more than those behind it. -/
theorem commentCount_of_nextComment? (unclosed : ¬ tagClose <:+: definition)
    {comment : RegionComment} (next : nextComment? definition text = some comment) :
    commentCount definition text = commentCount definition comment.after + 1 := by
  have size : Text.byteSize text =
      Text.byteSize (comment.passed definition) + Text.byteSize comment.after := by
    rw [← Text.byteSize_append, ← passed_append_after next]
  unfold commentCount
  rw [size, startsBetween_beginTag unclosed next, startsBetween_endTag unclosed next]
  split <;> omega

/-- Every round but the last one uses up a comment. -/
theorem matchingEndWithin?_eq (unclosed : ¬ tagClose <:+: definition) {rounds : Nat}
    (enough : commentCount definition text < rounds) (depth : Nat) :
    matchingEndWithin? definition rounds depth text =
      some (matchingEnd? definition depth text) := by
  induction rounds generalizing depth text with
  | zero => omega
  | succ rounds inductionHypothesis =>
      rw [matchingEndWithin?, matchingEnd?_eq]
      cases next : nextComment? definition text with
      | none => rfl
      | some comment =>
          have fewer := commentCount_of_nextComment? unclosed next
          have behind (depth : Nat) : matchingEndWithin? definition rounds depth comment.after =
              some (matchingEnd? definition depth comment.after) :=
            inductionHypothesis (by omega) depth
          cases opens : comment.opens with
          | true => simp only [opens, behind, Option.bind_some, if_true, Option.map_some]
          | false =>
              cases depth with
              | zero => simp [opens]
              | succ outer => simp [opens, behind]

end Rounds

/-! ## The end of a region -/

/-- In every text the comments of one definition lie apart.  From every place on, the
search for the end of a region is done when it has gone through the comments behind
that place, and it finds the first end comment that closes by counting; it is in
vain exactly when no end comment closes. -/
theorem matchingEnd_closes {definition : Text} (unclosed : ¬ tagClose <:+: definition)
    (front rest : Text) :
    (∀ one ∈ regionComments definition, ∀ other ∈ regionComments definition,
      ∀ offset offset', Text.StartsAt one (front ++ rest) offset ->
        Text.StartsAt other (front ++ rest) offset' ->
        (offset = offset' ∧ one = other) ∨ offset + Text.byteSize one ≤ offset' ∨
          offset' + Text.byteSize other ≤ offset) ∧
    (∀ rounds, commentCount definition rest < rounds ->
      matchingEndWithin? definition rounds 0 rest = some (matchingEnd? definition 0 rest)) ∧
    (∀ inner after, matchingEnd? definition 0 rest = some (inner, after) ↔
      rest = inner ++ endTag definition ++ after ∧
        IsLeast {stop | Closes definition (front ++ rest) (Text.byteSize front) 0 stop}
          (Text.byteSize (front ++ inner))) ∧
    (matchingEnd? definition 0 rest = none ↔
      ∀ stop, ¬ Closes definition (front ++ rest) (Text.byteSize front) 0 stop) := by
  refine ⟨fun one first other second offset offset' => comments_apart unclosed first second,
    fun rounds enough => matchingEndWithin?_eq unclosed enough 0, fun inner after => ?_, ?_⟩
  · rw [Text.byteSize_append, isLeast_closes_append_iff]
    exact matchingEnd?_eq_some_iff unclosed
  · rw [forall_not_closes_append_iff]
    exact matchingEnd?_eq_none_iff unclosed

/-- A definition that opens an end comment itself. -/
def endingDefinition : Text := "file-<!-- end_".toList

/-- A text up to the inside of a region. -/
def openedFront : Text := 'é' :: beginTag endingDefinition

/-- What is left of the text when only the region inside is closed. -/
def openRest : Text := beginTag endingDefinition ++ 'A' :: endTag endingDefinition

def closedRest : Text := openRest ++ 'B' :: endTag endingDefinition ++ ['C']

theorem matchingEnd_closes_reopened :
    ¬ tagClose <:+: endingDefinition ∧
      ((2 = 61 ∧ beginTag endingDefinition = endTag endingDefinition) ∨
        2 + Text.byteSize (beginTag endingDefinition) ≤ 61 ∨
        61 + Text.byteSize (endTag endingDefinition) ≤ 2) ∧
      (matchingEndWithin? endingDefinition 4 0 closedRest =
          some (matchingEnd? endingDefinition 0 closedRest) ∧
        matchingEnd? endingDefinition 0 closedRest = some (openRest ++ ['B'], ['C']) ∧
        IsLeast {stop | Closes endingDefinition (openedFront ++ closedRest) 31 0 stop} 89) ∧
      matchingEnd? endingDefinition 0 openRest = none ∧
      ∀ stop, ¬ Closes endingDefinition (openedFront ++ openRest) 31 0 stop := by
  have unclosed : ¬ tagClose <:+: endingDefinition := by decide
  have enough : commentCount endingDefinition closedRest < 4 := by decide +kernel
  have found : matchingEnd? endingDefinition 0 closedRest = some (openRest ++ ['B'], ['C']) := by
    decide +kernel
  have nothing : matchingEnd? endingDefinition 0 openRest = none := by decide +kernel
  rcases matchingEnd_closes unclosed openedFront closedRest with ⟨apart, done, closes, _⟩
  rcases matchingEnd_closes unclosed openedFront openRest with ⟨_, _, _, vain⟩
  have begins : Text.StartsAt (beginTag endingDefinition) (openedFront ++ closedRest) 2 := by
    decide +kernel
  have ends : Text.StartsAt (endTag endingDefinition) (openedFront ++ closedRest) 61 := by
    decide +kernel
  exact ⟨unclosed, apart _ (beginTag_mem_regionComments _) _ (endTag_mem_regionComments _) 2 61
    begins ends, ⟨done 4 enough, found, ((closes _ _).mp found).2⟩, nothing, vain.mp nothing⟩

end PageComposer
