import Mathlib.Data.List.Forall2
import PageComposer.Decompile.Nested
import PageComposer.Proofs.Decompile.Matching
import PageComposer.Proofs.Decompile.Reopening
import PageComposer.Proofs.Markup.Piece

namespace PageComposer

/-!
# Forests of regions

A page with marked regions is the rendering of a forest.  Nothing is asked of the
text between the comments but that it holds no opening of a region comment, and
nothing of what a comment says but that it ends with the comment: regions that say
the same may stand inside each other and side by side.

Collapsing a rendered forest takes out its roots (`decompile_render`), and the
levels below are taken out of the contents of the roots.
-/

/-- A text that stands between the comments of regions. -/
structure Gap where
  text : Text
  unbegun : ¬ beginMarker <:+: text
  unended : ¬ endMarker <:+: text

/-- What the comments of a region say: a kind, and a name with its arguments. -/
structure Origin where
  kind : Kind
  rest : Text
  unclosed : ¬ tagClose <:+: rest
  unbegun : ¬ beginMarker <:+: rest
  unended : ¬ endMarker <:+: rest

namespace Origin

def definition (origin : Origin) : Text :=
  origin.kind.name ++ '-' :: origin.rest

def tag (origin : Origin) : Text :=
  origin.kind.opening ++ origin.rest ++ tagClose

/-- A name goes up to the first colon or parenthesis. -/
def inName (character : Char) : Bool :=
  character != ':' && character != '('

def name (origin : Origin) : Text :=
  origin.rest.takeWhile inName

def args (origin : Origin) : Text :=
  origin.rest.dropWhile inName

end Origin

/-- Regions one behind the other with the text in front of each of them and the
text behind the last one. -/
inductive Forest
  | text (gap : Gap)
  | region (gap : Gap) (origin : Origin) (inside behind : Forest)

/-- A region of a forest. -/
structure RegionTree where
  origin : Origin
  inside : Forest

namespace Forest

/-- The text with all regions between their comments. -/
def render : Forest -> Text
  | text gap => gap.text
  | region gap origin inside behind =>
      gap.text ++ (beginTag origin.definition ++ (inside.render ++
        (endTag origin.definition ++ behind.render)))

/-- The top level, with the tags of its regions in place of them. -/
def collapsed : Forest -> Text
  | text gap => gap.text
  | region gap origin _ behind => gap.text ++ (origin.tag ++ behind.collapsed)

/-- The regions of the top level. -/
def roots : Forest -> List RegionTree
  | text _ => []
  | region _ origin inside behind => ⟨origin, inside⟩ :: behind.roots

/-- How many regions lie inside each other. -/
def depth : Forest -> Nat
  | text _ => 0
  | region _ _ inside behind => max (inside.depth + 1) behind.depth

end Forest

namespace RegionTree

/-- The regions right inside of a region. -/
def children (region : RegionTree) : List RegionTree :=
  region.inside.roots

/-- What a level is followed by when one goes down so many levels. -/
def below : List RegionTree -> Nat -> List RegionTree
  | level, 0 => level
  | level, levels + 1 => below (level.flatMap children) levels

end RegionTree

/-- All regions, level by level. -/
def Forest.levelOrder (forest : Forest) : List RegionTree :=
  (List.range forest.depth).flatMap (RegionTree.below forest.roots)

/-! ## Searching a rendered forest -/

/-- A text that a bracket starts, or that is empty. -/
def Bracketed (text : Text) : Prop :=
  text = [] ∨ ∃ rest, text = '<' :: rest

namespace Lead

theorem opening_eq_cons (lead : Lead) : ∃ tail, lead.opening = '<' :: tail ∧ '<' ∉ tail := by
  have spelled : ∀ lead ∈ all, lead.opening.head? = some '<' ∧ '<' ∉ lead.opening.tail := by
    decide
  rcases spelled lead lead.mem_all with ⟨head, fresh⟩
  rcases List.head?_eq_some_iff.mp head with ⟨tail, equal⟩
  refine ⟨tail, equal, ?_⟩
  rwa [equal, List.tail_cons] at fresh

variable {lead : Lead} {needle : Text}

/-- No opening starts in a text without one, when a bracket follows. -/
theorem passes_gap (lead : Lead) (opens : lead.opening <+: needle) {gap : Text}
    (absent : ¬ lead.opening <:+: gap) {more : Text} (bracketed : Bracketed more) :
    Text.Passes needle gap more := by
  apply Text.passes_of_absent
  intro back suffix nonempty leads
  apply absent
  refine List.IsInfix.trans ?_ suffix.isInfix
  rcases lead.opening_eq_cons with ⟨tail, equal, once⟩
  have opening := opens.trans leads
  rcases bracketed with empty | ⟨rest, bracket⟩
  · rw [empty, List.append_nil] at opening
    exact opening.isInfix
  · rw [bracket, equal] at opening
    rw [equal]
    exact (Text.isPrefix_of_isPrefix_append_self once nonempty opening).isInfix

/-- An opening in the body of a comment does not reach into its closing. -/
theorem opening_isPrefix_body {body rest : Text}
    (leads : lead.opening <+: body ++ tagClose ++ rest) : lead.opening <+: body := by
  have started := lead.commentStart_isPrefix.trans leads
  have spaced : body ++ tagClose ++ rest = body ++ ' ' :: (['-', '-', '>'] ++ rest) := by
    rw [List.append_assoc]
    rfl
  rw [spaced] at started
  rcases Text.isPrefix_of_isPrefix_append_cons (by decide) started with ⟨inner, joined⟩
  rw [← joined, lead.opening_eq, List.append_assoc, List.append_assoc,
    List.prefix_append_right_inj] at leads
  rw [← joined, lead.opening_eq, List.prefix_append_right_inj]
  rw [← List.append_assoc] at leads
  exact word_isPrefix_body leads

theorem quiet_closed {body : Text} (absent : ¬ lead.opening <:+: body) :
    Text.Quiet lead.opening (body ++ tagClose) := by
  intro back suffix nonempty rest leads
  rcases List.suffix_or_suffix_of_suffix suffix (List.suffix_append body tagClose) with
    inClosing | ⟨inner, joined⟩
  · -- The closing holds no bracket to start from.
    rcases lead.opening_eq_cons with ⟨tail, opening, _⟩
    rw [opening] at leads
    cases back with
    | nil => exact nonempty rfl
    | cons head others =>
        have bracket : '<' ∈ tagClose := by
          rw [(List.cons_prefix_cons.mp leads).1]
          exact inClosing.subset List.mem_cons_self
        exact absurd bracket (by decide)
  · rcases suffix with ⟨front, equal⟩
    rw [← joined, ← List.append_assoc] at equal
    rw [← joined] at leads
    apply absent
    rw [← List.append_cancel_right equal]
    exact (opening_isPrefix_body leads).isInfix.trans (List.suffix_append _ _).isInfix

/-- A comment is passed over unless it is the one that is looked for. -/
theorem passes_comment (lead other : Lead) (opens : lead.opening <+: needle) {body : Text}
    (absent : ¬ lead.opening <:+: body) {more : Text}
    (elsewhere : ¬ needle <+: other.opening ++ body ++ tagClose ++ more) :
    Text.Passes needle (other.opening ++ body ++ tagClose) more := by
  have inner : ¬ lead.opening <:+: ['!', '-', '-'] ++ (' ' :: other.word ++ body) := by
    intro occurs
    rcases lead.opening_eq_cons with ⟨tail, opening, _⟩
    have without : ∀ other ∈ all, '<' ∉ ['!', '-', '-'] ++ ' ' :: other.word := by decide
    apply absent
    rw [opening] at occurs ⊢
    apply Text.infix_of_infix_append (without other other.mem_all)
    rwa [List.append_assoc]
  apply Text.passes_of_absent
  rw [led_text] at elsewhere ⊢
  intro back suffix nonempty
  rcases List.suffix_cons_iff.mp suffix with whole | behind
  · rw [whole]
    exact elsewhere
  · exact (quiet_closed inner).of_isPrefix opens back behind nonempty more

end Lead

namespace Origin

variable (origin : Origin)

theorem definition_free {head : Char} {tail : Text} (bracketOrBlank : head = '<' ∨ head = ' ')
    (free : ¬ head :: tail <:+: origin.rest) : ¬ head :: tail <:+: origin.definition := by
  have without : ∀ kind ∈ Kind.all, '<' ∉ kind.name ++ ['-'] ∧ ' ' ∉ kind.name ++ ['-'] := by
    decide
  have fresh : head ∉ origin.kind.name ++ ['-'] := by
    rcases bracketOrBlank with bracket | blank
    · rw [bracket]
      exact (without _ origin.kind.mem_all).1
    · rw [blank]
      exact (without _ origin.kind.mem_all).2
  intro occurs
  apply free
  apply Text.infix_of_infix_append fresh
  rwa [List.append_assoc]

theorem definition_unclosed : ¬ tagClose <:+: origin.definition :=
  origin.definition_free (Or.inr rfl) origin.unclosed

theorem definition_unbegun : ¬ beginMarker <:+: origin.definition :=
  origin.definition_free (Or.inl rfl) origin.unbegun

theorem definition_unended : ¬ endMarker <:+: origin.definition :=
  origin.definition_free (Or.inl rfl) origin.unended

theorem read_definition :
    MarkerDefinition.read origin.definition = .ok ⟨origin.kind, origin.name, origin.args⟩ := by
  have names : ∀ kind ∈ Kind.all, '-' ∉ kind.name ∧ Kind.ofName? kind.name = some kind := by decide
  rcases names origin.kind origin.kind.mem_all with ⟨fresh, named⟩
  unfold MarkerDefinition.read
  rw [definition, Text.cutAtChar?_append_cons fresh]
  dsimp only
  rw [named]
  rfl

theorem tag_eq : MarkerDefinition.tag ⟨origin.kind, origin.name, origin.args⟩ = origin.tag := by
  rw [MarkerDefinition.tag, List.append_assoc origin.kind.opening, name, args,
    List.takeWhile_append_dropWhile]
  rfl

end Origin

/-! ## The matching end in a rendered forest -/

section Matching

variable (origin other : Origin)

theorem passes_begins_of_gap (gap : Gap) {more : Text} (bracketed : Bracketed more) :
    Text.Passes (beginTag origin.definition) gap.text more := by
  refine Lead.passes_gap .begins ?_ gap.unbegun bracketed
  rw [beginTag, List.append_assoc]
  exact List.prefix_append _ _

theorem passes_ends_of_gap (gap : Gap) {more : Text} (bracketed : Bracketed more) :
    Text.Passes (endTag origin.definition) gap.text more := by
  refine Lead.passes_gap .ends ?_ gap.unended bracketed
  rw [endTag, List.append_assoc]
  exact List.prefix_append _ _

variable {origin other}

theorem passes_begins (lead : Lead)
    (different : lead = .begins -> origin.definition ≠ other.definition) (more : Text) :
    Text.Passes (beginTag origin.definition) (lead.opening ++ other.definition ++ tagClose)
      more := by
  refine Lead.passes_comment .begins lead ?_ other.definition_unbegun ?_
  · rw [beginTag, List.append_assoc]
    exact List.prefix_append _ _
  · intro leads
    rcases Lead.comment_injective .begins lead origin.definition_unclosed
      other.definition_unclosed leads with ⟨same, equal⟩
    exact different same.symm equal

theorem passes_ends (lead : Lead)
    (different : lead = .ends -> origin.definition ≠ other.definition) (more : Text) :
    Text.Passes (endTag origin.definition) (lead.opening ++ other.definition ++ tagClose) more := by
  refine Lead.passes_comment .ends lead ?_ other.definition_unended ?_
  · rw [endTag, List.append_assoc]
    exact List.prefix_append _ _
  · intro leads
    rcases Lead.comment_injective .ends lead origin.definition_unclosed
      other.definition_unclosed leads with ⟨same, equal⟩
    exact different same.symm equal

theorem bracketed_begins (definition more : Text) : Bracketed (beginTag definition ++ more) :=
  Or.inr ⟨_, rfl⟩

theorem bracketed_ends (definition more : Text) : Bracketed (endTag definition ++ more) :=
  Or.inr ⟨_, rfl⟩

/-- The search for an end passes over a rendered forest. -/
theorem matchingEnd?_forest (forest : Forest) (depth : Nat) {tail : Text}
    (bracketed : Bracketed tail) :
    matchingEnd? origin.definition depth (forest.render ++ tail) =
      (matchingEnd? origin.definition depth tail).map (Text.putBefore forest.render) := by
  induction forest generalizing depth tail with
  | text gap =>
      exact matchingEnd?_pass (passes_begins_of_gap origin gap bracketed)
        (passes_ends_of_gap origin gap bracketed) depth
  | region gap other inside behind insideHypothesis behindHypothesis =>
      have opens := bracketed_begins other.definition
        (inside.render ++ (endTag other.definition ++ (behind.render ++ tail)))
      have closes := bracketed_ends other.definition (behind.render ++ tail)
      rw [Forest.render]
      simp only [List.append_assoc]
      rw [matchingEnd?_pass (passes_begins_of_gap origin gap opens)
        (passes_ends_of_gap origin gap opens)]
      by_cases same : origin.definition = other.definition
      · rw [← same] at closes ⊢
        have ends : Text.Passes (endTag origin.definition) (beginTag origin.definition)
            (inside.render ++ (endTag origin.definition ++ (behind.render ++ tail))) :=
          passes_ends .begins (by simp) _
        rw [matchingEnd?_begins ends, insideHypothesis _ closes, matchingEnd?_ends_of_inner,
          behindHypothesis _ bracketed]
        simp only [Text.putBefore_append]
      · have overBegin (more : Text) :
            matchingEnd? origin.definition depth (beginTag other.definition ++ more) =
              (matchingEnd? origin.definition depth more).map
                (Text.putBefore (beginTag other.definition)) :=
          matchingEnd?_pass (passes_begins .begins (fun _ => same) more)
            (passes_ends .begins (fun _ => same) more) depth
        have overEnd (more : Text) :
            matchingEnd? origin.definition depth (endTag other.definition ++ more) =
              (matchingEnd? origin.definition depth more).map
                (Text.putBefore (endTag other.definition)) :=
          matchingEnd?_pass (passes_begins .ends (fun _ => same) more)
            (passes_ends .ends (fun _ => same) more) depth
        rw [overBegin, insideHypothesis _ closes, overEnd, behindHypothesis _ bracketed]
        simp only [Text.putBefore_append]

end Matching

/-! ## Collapsing the roots -/

/-- What the marker of a region says of it when it is taken out. -/
structure RegionTree.Found (region : RegionTree) (marker : Marker) : Prop where
  kind : marker.kind = region.origin.kind
  name : marker.name = region.origin.name
  args : marker.args = region.origin.args
  content : marker.content = region.inside.render
  nested : marker.nested = []

/-- No begin comment ends in a text behind this one unless it starts there too. -/
def Unopened (front : Text) : Prop :=
  ∀ text, ¬ beginMarker <:+: text -> ¬ beginMarker <:+: front ++ text

theorem unopened_nil : Unopened [] :=
  fun _ unbegun => unbegun

/-- The search for a region passes over a tag. -/
theorem passes_tag (origin : Origin) (more : Text) : Text.Passes beginMarker origin.tag more := by
  refine Lead.passes_comment .begins (.tag origin.kind) List.prefix_rfl origin.unbegun ?_
  intro leads
  have words : Lead.begins.word <+: (Lead.tag origin.kind).word ++
      (origin.rest ++ tagClose ++ more) := by
    rw [(Lead.tag origin.kind).opening_eq, Lead.begins.opening_eq] at leads
    simpa [commentStart] using leads
  exact absurd (Lead.eq_of_word_isPrefix words) (by simp)

theorem Unopened.passes {front : Text} (unopened : Unopened front) (gap : Gap) {more : Text}
    (bracketed : Bracketed more) : Text.Passes beginMarker (front ++ gap.text) more :=
  Lead.passes_gap .begins List.prefix_rfl (unopened gap.text gap.unbegun) bracketed

theorem Unopened.append_tag {front : Text} (unopened : Unopened front) (gap : Gap)
    (origin : Origin) : Unopened (front ++ gap.text ++ origin.tag) := by
  intro text unbegun
  have first := unopened.passes gap (Or.inr ⟨_, rfl⟩ : Bracketed (origin.tag ++ text))
  rw [List.append_assoc]
  exact first.not_isInfix ((passes_tag origin text).not_isInfix unbegun)

/-- The first region of a forest is taken out. -/
theorem collapseFirst?_region {front : Text} (unopened : Unopened front) (gap : Gap)
    (origin : Origin) (inside behind : Forest) :
    ∃ marker, RegionTree.Found ⟨origin, inside⟩ marker ∧
      collapseFirst? (front ++ (Forest.region gap origin inside behind).render) =
        .ok (some (marker, front ++ gap.text ++ origin.tag ++ behind.render)) := by
  have opened : Text.cut? beginMarker
      (front ++ (Forest.region gap origin inside behind).render) =
      some (front ++ gap.text, origin.definition ++ tagClose ++
        (inside.render ++ (endTag origin.definition ++ behind.render))) := by
    have passes := unopened.passes gap (bracketed_begins origin.definition
      (inside.render ++ (endTag origin.definition ++ behind.render)))
    unfold Text.Passes at passes
    rw [Forest.render, ← List.append_assoc, passes, beginTag, List.append_assoc, List.append_assoc,
      Text.cut?_self_append, Option.map_some, Text.putBefore, List.append_nil, List.append_assoc]
  have defined := Text.cut?_tagClose_append origin.definition_unclosed
    (inside.render ++ (endTag origin.definition ++ behind.render))
  have closed : matchingEnd? origin.definition 0
      (inside.render ++ (endTag origin.definition ++ behind.render)) =
      some (inside.render, behind.render) := by
    rw [matchingEnd?_forest inside 0 (bracketed_ends origin.definition behind.render),
      matchingEnd?_ends, Option.map_some, Text.putBefore, List.append_nil]
  unfold collapseFirst?
  rw [opened]
  dsimp only
  rw [defined]
  dsimp only
  rw [origin.read_definition]
  dsimp only [bind, Except.bind]
  rw [closed]
  exact ⟨_, ⟨rfl, rfl, rfl, rfl, rfl⟩, by rw [origin.tag_eq]; rfl⟩

/-- Decompiling a rendered forest gives its top level, and a marker for each of
its roots. -/
theorem decompile_render (forest : Forest) {front : Text} (unopened : Unopened front) :
    ∃ markers, decompile (front ++ forest.render) = .ok ⟨front ++ forest.collapsed, markers⟩ ∧
      List.Forall₂ RegionTree.Found forest.roots markers := by
  induction forest generalizing front with
  | text gap =>
      have unbegun := Text.cut?_eq_none_iff.mpr (unopened gap.text gap.unbegun)
      refine ⟨[], ?_, .nil⟩
      rw [decompile_eq, Forest.render, collapseFirst?, unbegun]
      rfl
  | region gap origin inside behind _ behindHypothesis =>
      rcases collapseFirst?_region unopened gap origin inside behind with ⟨marker, found, round⟩
      rcases behindHypothesis (unopened.append_tag gap origin) with ⟨others, later, rest⟩
      refine ⟨marker :: others, ?_, .cons found rest⟩
      rw [decompile_eq, round]
      dsimp only
      rw [later]
      simp [Except.map, Forest.collapsed]

end PageComposer
