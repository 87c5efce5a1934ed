import PageComposer.Proofs.Layout.Binding
import PageComposer.Proofs.Path.Markup

namespace PageComposer

/-!
# Quoted literals among the arguments

An argument is taken apart before its quotes are looked at.  A literal in quotes
therefore reaches its slot as it is only if nothing in it looks like a separator:
a comma ends a part of the value, and the equals sign of a positional literal
makes a name of what stands in front of it.  Everything else in a literal is left
alone (`Composer.receives_literal_iff`).
-/

/-- A literal between quotes of either kind. -/
inductive Quoted (literal : Text) : Text -> Prop
  | single : Quoted literal ('\'' :: (literal ++ ['\'']))
  | double : Quoted literal ('"' :: (literal ++ ['"']))

section Quotes

variable {literal written : Text}

theorem Quoted.unquote (quoted : Quoted literal written) : unquote? written = some literal := by
  have inside (quote : Char) : Text.dropEnd? [quote] (literal ++ [quote]) = some literal :=
    Text.dropEnd?_eq_some_iff.mpr rfl
  cases quoted with
  | single => simp [unquote?, inside]
  | double => simp [unquote?, inside]

theorem Quoted.mem_iff {character : Char} (quoted : Quoted literal written)
    (plain : character ≠ '\'' ∧ character ≠ '"') : character ∈ written ↔ character ∈ literal := by
  cases quoted with
  | single => simp [plain.1]
  | double => simp [plain.2]

theorem Quoted.length (quoted : Quoted literal written) : written.length = literal.length + 2 := by
  cases quoted with
  | single => simp
  | double => simp

end Quotes

theorem exists_quote_of_unquote {part literal : Text} (unquoted : unquote? part = some literal) :
    ∃ quote, part = quote :: literal ∨ part = quote :: (literal ++ [quote]) := by
  cases part with
  | nil => cases unquoted
  | cons quote inner =>
      refine ⟨quote, ?_⟩
      unfold unquote? at unquoted
      dsimp only at unquoted
      split at unquoted
      · cases dropped : Text.dropEnd? [quote] inner with
        | none =>
            rw [dropped] at unquoted
            cases unquoted
            exact Or.inl rfl
        | some before =>
            rw [dropped] at unquoted
            cases unquoted
            rw [Text.dropEnd?_eq_some_iff.mp dropped]
            exact Or.inr rfl
      · cases unquoted

namespace Composer

variable {composer : Composer} {value bound part text : Text}

/-- A character that occurs in no tag bracket was there before. -/
theorem PartMarkup.mem {character : Char} (markup : PartMarkup composer part text)
    (plain : character ∉ tagOpen ∧ character ∉ tagClose) (member : character ∈ text) :
    character ∈ part := by
  cases markup with
  | quoted unquoted =>
      rcases exists_quote_of_unquote unquoted with ⟨quote, unclosed | closed⟩
      · exact unclosed ▸ List.mem_cons_of_mem _ member
      · exact closed ▸ List.mem_cons_of_mem _ (List.mem_append_left _ member)
  | reference _ _ =>
      rcases List.mem_append.mp member with front | closing
      · rcases List.mem_append.mp front with opening | inside
        · exact absurd opening plain.1
        · exact inside
      · exact absurd closing plain.2

/-- Commas only separate: none of them is left in the markup of a value. -/
theorem ValueMarkup.comma_not_mem {value? : Option Text}
    (markup : ValueMarkup composer value? bound) : ',' ∉ bound := by
  cases markup with
  | nothing => exact List.not_mem_nil
  | @parts value texts each =>
      intro member
      rcases List.mem_flatten.mp member with ⟨text, listed, inside⟩
      rcases List.forall₂_iff_get.mp each with ⟨sizes, related⟩
      rcases List.mem_iff_getElem.mp listed with ⟨index, within, found⟩
      have partMarkup := related index (sizes ▸ within) within
      have inPart := partMarkup.mem (by decide) (found.symm ▸ inside)
      exact Text.separator_not_mem_of_mem_splitOn (List.get_mem _ _) inPart

theorem valueMarkup_of_quoted {literal written : Text} (quoted : Quoted literal written)
    (whole : ',' ∉ literal) : ValueMarkup composer (some written) literal := by
  have absent : ',' ∉ written := fun member => whole ((quoted.mem_iff (by decide)).mp member)
  have one : List.Forall₂ (PartMarkup composer) (written.splitOn ',') [literal] := by
    rw [List.splitOn_eq_singleton absent]
    exact .cons (.quoted quoted.unquote) .nil
  have markup := ValueMarkup.parts one
  rwa [List.flatten_singleton] at markup

/-- Without a reference a value is longer than its markup. -/
theorem ValueMarkup.length_lt (markup : ValueMarkup composer (some value) bound)
    (untagged : ¬ tagOpen <:+: bound) : bound.length < value.length := by
  cases markup with
  | @parts _ texts each =>
      have shorter : ∀ {parts texts : List Text}, List.Forall₂ (PartMarkup composer) parts texts ->
          ¬ tagOpen <:+: texts.flatten ->
          texts.flatten.length + parts.length ≤ parts.flatten.length := by
        intro parts texts each
        induction each with
        | nil => simp
        | @cons part text parts texts markup _ inductionHypothesis =>
            intro plain
            rw [List.flatten_cons] at plain
            have rest := inductionHypothesis fun inside =>
              plain (inside.trans (List.suffix_append text _).isInfix)
            cases markup with
            | quoted unquoted =>
                rcases exists_quote_of_unquote unquoted with ⟨quote, unclosed | closed⟩
                all_goals
                  subst part
                  simp only [List.flatten_cons, List.length_append, List.length_cons] at rest ⊢
                  omega
            | reference _ _ =>
                refine absurd ?_ plain
                rw [List.append_assoc, List.append_assoc]
                exact (List.prefix_append tagOpen _).isInfix
      have parts := Text.length_flatten_splitOn_le ',' value
      have nonempty := List.length_pos_of_ne_nil (List.splitOn_ne_nil ',' value)
      have all := shorter each untagged
      omega

/-! ## From the tag to the slot -/

/-- The arguments that stand between semicolons. -/
def writtenArgs (pieces : List Text) : List Text :=
  (pieces.map Text.trim).filter fun arg => !arg.isEmpty

theorem splitArgs_joinWith {separator : Char} {pieces : List Text}
    (apart : ∀ piece ∈ pieces, separator ∉ piece) :
    Body.splitArgs separator (Text.joinWith [separator] pieces) = writtenArgs pieces := by
  by_cases empty : pieces = []
  · subst empty
    rfl
  · unfold Body.splitArgs Text.joinWith
    rw [List.splitOn_intercalate separator apart empty]
    rfl

/-- The markup that the slot at `index` receives from a tag. -/
def Receives (composer : Composer) (tag : Placeholder) (slots : List Placeholder) (index : Nat)
    (bound : Text) : Prop :=
  ∃ mode slot, BindingMode.detect tag.tag tag.args.reverse = .ok mode ∧
    slots[index]? = some slot ∧
    composer.received (boundValue? mode tag.args slot (slots.length - 1 - index)) = .ok bound

section Slots

variable {tag slot : Placeholder} {slots : List Placeholder} {index : Nat} {mode : BindingMode}

theorem receives_iff (detected : BindingMode.detect tag.tag tag.args.reverse = .ok mode)
    (found : slots[index]? = some slot) :
    Receives composer tag slots index bound ↔
      ValueMarkup composer (boundValue? mode tag.args slot (slots.length - 1 - index)) bound := by
  rw [← received_iff_valueMarkup]
  constructor
  · rintro ⟨otherMode, other, again, same, received⟩
    rw [detected] at again
    rw [found] at same
    cases again
    cases same
    exact received
  · exact fun received => ⟨mode, slot, detected, found, received⟩

/-- In the filled layout it stands in place of the slot. -/
theorem Receives.placed {path : Path} {contents body : Text}
    (receives : Receives composer tag slots index bound)
    (layout : LayoutRead composer tag path contents slots)
    (filled : composer.layoutText tag = .ok body) (here : slots[index]? = some slot) :
    ∃ texts text, body = Text.trim (substitute (slots.zip texts) (Text.trim contents)) ∧
      texts[index]? = some text ∧ Placed composer slot bound text := by
  rcases receives with ⟨mode, other, detected, found, received⟩
  rw [here] at found
  cases found
  rcases (layoutText_eq_ok_iff layout detected).mp filled with ⟨texts, each, equal⟩
  rcases List.forall₂_iff_get.mp each with ⟨sizes, related⟩
  rw [List.length_zip, length_slotValues, Nat.min_self] at sizes
  have inside := (List.getElem?_eq_some_iff.mp here).1
  have within : index < (slots.zip (slotValues mode tag.args slots)).length := by
    rw [List.length_zip, length_slotValues, Nat.min_self]
    exact inside
  have value := getElem?_slotValues mode tag.args here
  have pair : (slots.zip (slotValues mode tag.args slots)).get ⟨index, within⟩ =
      (slot, boundValue? mode tag.args slot (slots.length - 1 - index)) := by
    rw [List.get_eq_getElem, List.getElem_zip]
    rw [List.getElem?_eq_some_iff] at here value
    exact Prod.ext here.2 value.2
  rcases pair ▸ related index within (sizes ▸ inside) with ⟨other, markup, placed⟩
  cases received.symm.trans (received_iff_valueMarkup.mpr markup)
  exact ⟨texts, _, equal, List.getElem?_eq_getElem (sizes ▸ inside), placed⟩

end Slots

theorem exists_key_of_named {arg : Text} (named : isNamedArgument arg = true) :
    ∃ key value, Text.cutAtChar? '=' arg = some (key, value) ∧ key ≠ [] := by
  unfold isNamedArgument at named
  split at named
  · rename_i key value cut
    refine ⟨key, value, cut, ?_⟩
    rintro rfl
    cases named
  · cases named

theorem valueMarkup_quoted_iff {literal written : Text} (quoted : Quoted literal written) :
    ValueMarkup composer (some written) literal ↔ ',' ∉ literal :=
  ⟨fun markup => markup.comma_not_mem, valueMarkup_of_quoted quoted⟩

/-- The markup that the slot at `index` receives from the tag with body `raw`. -/
def ReceivesFrom (composer : Composer) (document : Path) (start : Nat) (raw : Text)
    (slots : List Placeholder) (index : Nat) (bound : Text) : Prop :=
  ∃ tag, readTag composer.site document .layout start raw = .ok tag ∧
    Receives composer tag slots index bound

section Bodies

variable {document : Path} {start : Nat} {raw name literal written : Text} {args : List Text}
  {slots : List Placeholder} {index : Nat} {slot : Placeholder} {earlier later : List Text}

theorem receivesFrom_iff {tag : Placeholder}
    (accepted : readTag composer.site document .layout start raw = .ok tag) :
    ReceivesFrom composer document start raw slots index bound ↔
      Receives composer tag slots index bound := by
  constructor
  · rintro ⟨other, again, received⟩
    rw [accepted] at again
    cases again
    exact received
  · exact fun received => ⟨tag, accepted, received⟩

/-- Arguments that agree settle which value a slot receives. -/
theorem receivesFrom_iff_of_uniform {named : Bool} (called : LayoutBody raw name args .call)
    (nonempty : name ≠ []) (given : args ≠ [])
    (uniform : ∀ arg ∈ args, isNamedArgument arg = named) (found : slots[index]? = some slot) :
    ReceivesFrom composer document start raw slots index bound ↔
      ValueMarkup composer (boundValue? (if named then .byName else .byPosition) args slot
        (slots.length - 1 - index)) bound := by
  have agreeing : ¬ Mixed args := by
    rintro ⟨⟨one, oneMember, isNamed⟩, other, otherMember, positional⟩
    rw [uniform one oneMember] at isNamed
    rw [uniform other otherMember, isNamed] at positional
    cases positional
  rcases called.exists_readTag composer.site document start nonempty (fun _ => agreeing) with
    ⟨tag, accepted, _, _, equal⟩
  rw [← equal] at given uniform ⊢
  rw [receivesFrom_iff accepted,
    receives_iff (detect_of_uniform tag.tag given uniform) found]

theorem receivesFrom_named_iff (called : LayoutBody raw name args .call) (nonempty : name ≠ [])
    (quoted : Quoted literal written) (found : slots[index]? = some slot)
    (split : args = earlier ++ (slot.name ++ '=' :: written) :: later)
    (named : ∀ arg ∈ args, isNamedArgument arg = true) (plain : '=' ∉ slot.name)
    (first : ∀ arg ∈ earlier, ¬ HasKey slot.name arg) :
    ReceivesFrom composer document start raw slots index literal ↔ ',' ∉ literal := by
  have value := (keyed_slotValues args slots).received index slot earlier written later
    found split plain first
  rw [getElem?_slotValues _ _ found, Option.some.injEq] at value
  rw [receivesFrom_iff_of_uniform called nonempty (by simp [split]) named found, if_pos rfl, value,
    valueMarkup_quoted_iff quoted]

/-- A positional literal that is taken for a named argument is lost, even if its
name is that of the slot. -/
theorem not_receivesFrom_of_named (called : LayoutBody raw name [written] .call)
    (nonempty : name ≠ []) (quoted : Quoted literal written) (untagged : ¬ tagOpen <:+: literal)
    (found : slots[index]? = some slot) (named : isNamedArgument written = true) :
    ¬ ReceivesFrom composer document start raw slots index literal := by
  rcases exists_key_of_named named with ⟨key, value, cut, keyed⟩
  have joined := Text.cutAtChar?_join cut
  have looked : boundValue? .byName [written] slot (slots.length - 1 - index) =
      if slot.name = key then some value else none := by
    rw [boundValue?, List.filterMap_cons_some cut, List.filterMap_nil]
    by_cases same : slot.name = key
    · simp [same]
    · simp [List.lookup_cons, beq_eq_false_iff_ne.mpr same, same]
  have uniform : ∀ arg ∈ [written], isNamedArgument arg = true := by simpa using named
  rw [receivesFrom_iff_of_uniform called nonempty (by simp) uniform found, if_pos rfl, looked]
  intro markup
  have sizes := quoted.length
  rw [joined, List.length_append, List.length_cons] at sizes
  have keySize := List.length_pos_of_ne_nil keyed
  by_cases same : slot.name = key
  · rw [if_pos same] at markup
    have shorter := markup.length_lt untagged
    omega
  · rw [if_neg same] at markup
    cases markup
    have equals : '=' ∈ written := by
      rw [joined]
      exact List.mem_append_right _ List.mem_cons_self
    exact List.not_mem_nil ((quoted.mem_iff (by decide)).mp equals)

theorem receivesFrom_positional_iff (called : LayoutBody raw name args .call)
    (nonempty : name ≠ []) (quoted : Quoted literal written) (untagged : ¬ tagOpen <:+: literal)
    (found : slots[index]? = some slot) (split : args = earlier ++ written :: later)
    (aligned : slots.length - 1 - index = later.length)
    (positional : ∀ arg ∈ earlier ++ later, isNamedArgument arg = false) :
    ReceivesFrom composer document start raw slots index literal ↔
      ',' ∉ literal ∧ isNamedArgument written = false := by
  have member_iff : ∀ arg, arg ∈ args ↔ arg = written ∨ arg ∈ earlier ++ later := by
    intro arg
    rw [split, List.mem_append, List.mem_cons, List.mem_append]
    exact or_left_comm
  cases named : isNamedArgument written with
  | false =>
      have all : ∀ arg ∈ args, isNamedArgument arg = false := by
        intro arg member
        rcases (member_iff arg).mp member with equal | other
        · rw [equal, named]
        · exact positional arg other
      have value : boundValue? .byPosition args slot (slots.length - 1 - index) = some written := by
        rw [boundValue?, aligned, split]
        simp
      rw [receivesFrom_iff_of_uniform called nonempty (by simp [split]) all found,
        if_neg Bool.false_ne_true, value, valueMarkup_quoted_iff quoted]
      exact (and_iff_left rfl).symm
  | true =>
      refine iff_of_false ?_ (fun both => by cases both.2)
      by_cases alone : earlier ++ later = []
      · rcases List.append_eq_nil_iff.mp alone with ⟨none, nothing⟩
        rw [none, nothing] at split
        subst split
        exact not_receivesFrom_of_named called nonempty quoted untagged found named
      · -- another argument is positional, so that the tag is not even read
        rcases List.exists_mem_of_ne_nil _ alone with ⟨arg, member⟩
        have mixed : Mixed args :=
          ⟨⟨written, (member_iff written).mpr (Or.inl rfl), named⟩,
            arg, (member_iff arg).mpr (Or.inr member), positional arg member⟩
        rintro ⟨tag, accepted, _⟩
        rw [called.readTag_of_mixed mixed] at accepted
        cases accepted

end Bodies

/-- A quoted literal reaches its slot as it is if it has no comma and, where it
is positional, does not look like a named argument.  Then it stands in the layout that is
filled, in place of the slot. -/
theorem receives_literal_iff (composer : Composer) (document : Path) (start : Nat) {name : Text}
    (bare : '(' ∉ name) (nonempty : name ≠ []) {pieces : List Text}
    (apart : ∀ piece ∈ pieces, ';' ∉ piece) {literal written : Text}
    (quoted : Quoted literal written) (untagged : ¬ tagOpen <:+: literal)
    {slots : List Placeholder} {index : Nat} {slot : Placeholder}
    (found : slots[index]? = some slot) (earlier later : List Text) :
    (writtenArgs pieces = earlier ++ (slot.name ++ '=' :: written) :: later ->
      (∀ arg ∈ writtenArgs pieces, isNamedArgument arg = true) -> '=' ∉ slot.name ->
      (∀ arg ∈ earlier, ¬ HasKey slot.name arg) ->
      (ReceivesFrom composer document start
        (name ++ '(' :: (Text.joinWith [';'] pieces ++ [')'])) slots index literal ↔
        ',' ∉ literal)) ∧
    (writtenArgs pieces = earlier ++ written :: later ->
      slots.length - 1 - index = later.length ->
      (∀ arg ∈ earlier ++ later, isNamedArgument arg = false) ->
      (ReceivesFrom composer document start
        (name ++ '(' :: (Text.joinWith [';'] pieces ++ [')'])) slots index literal ↔
        ',' ∉ literal ∧ isNamedArgument written = false)) ∧
    (ReceivesFrom composer document start
        (name ++ '(' :: (Text.joinWith [';'] pieces ++ [')'])) slots index literal ->
      ∀ tag path contents body, readTag composer.site document .layout start
          (name ++ '(' :: (Text.joinWith [';'] pieces ++ [')'])) = .ok tag ->
        LayoutRead composer tag path contents slots -> composer.layoutText tag = .ok body ->
          ∃ texts text, body = Text.trim (substitute (slots.zip texts) (Text.trim contents)) ∧
            texts[index]? = some text ∧ Placed composer slot literal text) := by
  have called := @LayoutBody.call name (Text.joinWith [';'] pieces) bare
  rw [splitArgs_joinWith apart] at called
  refine ⟨?_, ?_, ?_⟩
  · intro split named plain first
    exact receivesFrom_named_iff called nonempty quoted found split named plain first
  · intro split aligned positional
    exact receivesFrom_positional_iff called nonempty quoted untagged found split aligned positional
  · intro receives tag path contents body accepted layout filled
    exact ((receivesFrom_iff accepted).mp receives).placed layout filled found

/-- A tag that fills both slots with quoted literals. -/
def equationTag : Placeholder where
  name := "/pair".toList
  kind := .layout
  start := 0
  stop := 38
  tag := "<!-- layout:/pair('x'; 'f(x) = y') -->".toList
  args := ["'x'".toList, "'f(x) = y'".toList]
  style := .call
  document := ⟨"/site/index.html".toList⟩

set_option maxRecDepth 100000 in
/-- Parentheses, equals signs and blanks in a literal are kept, as long as a
parenthesis of a positional one opens before its first equals sign. -/
theorem receives_literal_iff_equation :
    ReceivesFrom pairComposer ⟨"/site/index.html".toList⟩ 0
        "/pair(left='x'; right='f(x) = y')".toList pairSlots 1 "f(x) = y".toList ∧
      ReceivesFrom pairComposer ⟨"/site/index.html".toList⟩ 0
        "/pair('x'; 'f(x) = y')".toList pairSlots 1 "f(x) = y".toList ∧
      pairComposer.layoutText equationTag = .ok "<p>x|f(x) = y</p>".toList ∧
      ∃ texts text, "<p>x|f(x) = y</p>".toList = Text.trim (substitute (pairSlots.zip texts)
          (Text.trim "<p><!-- content:left -->|<!-- content:right --></p>\n".toList)) ∧
        texts[1]? = some text ∧ Placed pairComposer pairSlots[1] "f(x) = y".toList text := by
  have untagged : ¬ tagOpen <:+: "f(x) = y".toList := by
    rw [← Text.contains_iff]
    decide
  have bare : '(' ∉ "/pair".toList := by decide
  have slot : pairSlots[1]? = some pairSlots[1] := rfl
  have spelled : "/pair('x'; 'f(x) = y')".toList = "/pair".toList ++
      '(' :: (Text.joinWith [';'] ["'x'".toList, " 'f(x) = y'".toList] ++ [')']) := by
    decide
  have filled : pairComposer.layoutText equationTag = .ok "<p>x|f(x) = y</p>".toList := by
    decide +kernel
  have positional := receives_literal_iff pairComposer ⟨"/site/index.html".toList⟩ 0 bare
    (by decide) (by decide : ∀ piece ∈ ["'x'".toList, " 'f(x) = y'".toList], ';' ∉ piece)
    (@Quoted.single "f(x) = y".toList) untagged slot ["'x'".toList] []
  rw [← spelled] at positional
  have received := (positional.2.1 (by decide) (by decide) (by decide)).mpr (by decide)
  refine ⟨?_, received, filled, ?_⟩
  · have pieces : ∀ piece ∈ ["left='x'".toList, " right='f(x) = y'".toList], ';' ∉ piece := by
      decide
    have named : "/pair(left='x'; right='f(x) = y')".toList = "/pair".toList ++
        '(' :: (Text.joinWith [';'] ["left='x'".toList, " right='f(x) = y'".toList] ++ [')']) := by
      decide
    rw [named]
    exact ((receives_literal_iff pairComposer _ 0 bare (by decide) pieces
      (@Quoted.single "f(x) = y".toList) untagged slot ["left='x'".toList] []).1
      (by decide) (by decide) (by decide) (by decide)).mpr (by decide)
  · exact positional.2.2 received equationTag ⟨"/site/pair.html".toList⟩ _ _ (by decide +kernel)
      ⟨by decide +kernel, by decide +kernel, by decide +kernel⟩ filled

set_option maxRecDepth 100000 in
/-- A comma in a literal ends the literal, and what stands behind it is refused. -/
theorem literal_with_comma_is_parted :
    Quoted "a, b".toList "'a, b'".toList ∧ pairSlots[1].name = "right".toList ∧
      ¬ ReceivesFrom pairComposer ⟨"/site/index.html".toList⟩ 0
        "/pair(right='a, b')".toList pairSlots 1 "a, b".toList ∧
      (readTag pairComposer.site ⟨"/site/index.html".toList⟩ .layout 0
        "/pair(right='a, b')".toList >>= pairComposer.layoutText) =
        .error (.missingTypePrefix " b'".toList) := by
  have called : LayoutBody "/pair(right='a, b')".toList "/pair".toList
      ["right='a, b'".toList] .call :=
    @LayoutBody.call "/pair".toList "right='a, b'".toList (by decide)
  have slot : pairSlots[1]? = some pairSlots[1] := rfl
  have parted := @receivesFrom_named_iff pairComposer ⟨"/site/index.html".toList⟩ 0 _ _ _ _ _ _ _ _
    [] [] called (by decide) (@Quoted.single "a, b".toList) slot rfl (by decide) (by decide)
    (by simp)
  refine ⟨.single, rfl, fun received => parted.mp received (by decide), ?_⟩
  decide +kernel

end Composer
end PageComposer
