import PageComposer.Compose.Binding
import PageComposer.Proofs.Outcome
import PageComposer.Proofs.Text.Field

namespace PageComposer

/-!
# Arguments of a layout tag

A layout tag gives its arguments between parentheses or behind a colon
(`LayoutBody`).  All of them are named, or none is.  A tag that mixes them is
refused: between parentheses when it is read (`readTag_of_mixed`), and behind a
colon when it is asked how its arguments find their slots (`detect_of_mixed`).

By position the last argument goes to the last slot (`Aligned`).  By name a slot
gets the value of the first argument that has its name for a key (`Keyed`).
-/

/-- Some arguments are named and some are not. -/
def Mixed (args : List Text) : Prop :=
  (∃ arg ∈ args, isNamedArgument arg = true) ∧ ∃ arg ∈ args, isNamedArgument arg = false

theorem argumentsAgree_eq_false_iff {args : List Text} :
    Body.argumentsAgree args = false ↔ Mixed args := by
  unfold Body.argumentsAgree Mixed
  rw [Bool.or_eq_false_iff, Bool.not_eq_false', List.any_eq_true, List.all_eq_false]
  simp only [Bool.not_eq_true]
  exact And.comm

theorem argumentsAgree_of_not_mixed {args : List Text} (uniform : ¬ Mixed args) :
    Body.argumentsAgree args = true := by
  rw [← Bool.not_eq_false, argumentsAgree_eq_false_iff]
  exact uniform

/-- Arguments that are not mixed are all named or all positional. -/
theorem uniform_of_not_mixed {args : List Text} (uniform : ¬ Mixed args) :
    (∀ arg ∈ args, isNamedArgument arg = true) ∨ ∀ arg ∈ args, isNamedArgument arg = false := by
  by_cases some? : ∃ arg ∈ args, isNamedArgument arg = false
  · refine Or.inr fun arg member => ?_
    rw [← Bool.not_eq_true]
    exact fun named => uniform ⟨⟨arg, member, named⟩, some?⟩
  · refine Or.inl fun arg member => ?_
    rw [← Bool.not_eq_false]
    exact fun positional => some? ⟨arg, member, positional⟩

/-- How arguments find their slots is settled by any of them where they agree. -/
theorem detect_of_uniform {args : List Text} {named : Bool} (tag : Text) (nonempty : args ≠ [])
    (uniform : ∀ arg ∈ args, isNamedArgument arg = named) :
    BindingMode.detect tag args.reverse = .ok (if named then .byName else .byPosition) := by
  have reversed : ∀ arg ∈ args.reverse, isNamedArgument arg = named :=
    fun arg member => uniform arg (List.mem_reverse.mp member)
  cases equal : args.reverse with
  | nil => exact absurd (List.reverse_eq_nil_iff.mp equal) nonempty
  | cons first others =>
      rw [equal] at reversed
      have agree : ((first :: others).any fun arg => isNamedArgument arg != named) = false := by
        rw [List.any_eq_false]
        intro arg member
        simp [reversed arg member]
      unfold BindingMode.detect
      dsimp only
      rw [reversed first List.mem_cons_self, agree]
      rfl

theorem detect_of_mixed {args : List Text} (tag : Text) (mixed : Mixed args) :
    BindingMode.detect tag args.reverse = .error (.mixedArguments tag) := by
  rcases mixed with ⟨⟨one, oneMember, named⟩, other, otherMember, positional⟩
  rw [← List.mem_reverse] at oneMember otherMember
  cases equal : args.reverse with
  | nil =>
      rw [equal] at oneMember
      cases oneMember
  | cons first others =>
      rw [equal] at oneMember otherMember
      have disagree :
          ((first :: others).any fun arg => isNamedArgument arg != isNamedArgument first) =
            true := by
        rw [List.any_eq_true]
        cases isNamedArgument first with
        | true => exact ⟨other, otherMember, by simp [positional]⟩
        | false => exact ⟨one, oneMember, by simp [named]⟩
      unfold BindingMode.detect
      dsimp only
      rw [disagree]
      rfl

/-! ## Tags as they are written -/

/-- A text that has an opening parenthesis and ends in a closing one. -/
def Parenthesized (raw : Text) : Prop :=
  '(' ∈ raw ∧ [')'] <:+ raw

/-- How the body of a layout tag gives a name and arguments. -/
inductive LayoutBody : Text -> Text -> List Text -> ArgsStyle -> Prop
  /-- Between parentheses, with semicolons. -/
  | call {name inner : Text} (bare : '(' ∉ name) :
      LayoutBody (name ++ '(' :: (inner ++ [')'])) name (Body.splitArgs ';' inner) .call
  /-- Behind a colon, with commas. -/
  | colon {name inner : Text} (bare : ':' ∉ name)
      (noCall : ¬ Parenthesized (name ++ ':' :: inner)) :
      LayoutBody (name ++ ':' :: inner) name (Body.splitArgs ',' inner) .colon
  /-- A name and nothing else. -/
  | plain {name : Text} (bare : ':' ∉ name) (noCall : ¬ Parenthesized name) :
      LayoutBody name name [] .none

/-- Every body of a tag is one of these. -/
theorem exists_layoutBody (raw : Text) : ∃ name args style, LayoutBody raw name args style := by
  by_cases noCall : Parenthesized raw
  · rcases noCall with ⟨opens, closes⟩
    rcases List.eq_append_cons_of_mem opens with ⟨name, rest, joined, bare⟩
    subst joined
    have behind : [')'] <:+ '(' :: rest :=
      List.suffix_of_suffix_length_le closes (List.suffix_append name _) (by simp)
    rcases List.suffix_cons_iff.mp behind with impossible | ⟨inner, ends⟩
    · cases impossible
    · subst ends
      exact ⟨name, _, _, .call bare⟩
  · by_cases divided : ':' ∈ raw
    · rcases List.eq_append_cons_of_mem divided with ⟨name, inner, joined, bare⟩
      subst joined
      exact ⟨name, _, _, .colon bare noCall⟩
    · exact ⟨raw, [], .none, .plain divided noCall⟩

theorem ofCall_of_not_parenthesized {raw : Text} (noCall : ¬ Parenthesized raw) (tag : Text) :
    Body.ofCall raw tag = .ok (Body.ofColonForm raw) := by
  unfold Body.ofCall
  cases cut : Text.cutAtChar? '(' raw with
  | none => rfl
  | some pieces =>
      have joined := Text.cutAtChar?_join cut
      have unclosed : Text.dropEnd? [')'] pieces.2 = none := by
        cases dropped : Text.dropEnd? [')'] pieces.2 with
        | none => rfl
        | some inner =>
            apply absurd _ noCall
            rw [joined, Text.dropEnd?_eq_some_iff.mp dropped]
            refine ⟨List.mem_append_right _ List.mem_cons_self, pieces.1 ++ '(' :: inner, ?_⟩
            simp
      simp [unclosed]

theorem ofColonForm_of_no_colon {name : Text} (bare : ':' ∉ name) :
    Body.ofColonForm name = Body.plain name := by
  unfold Body.ofColonForm
  cases cut : Text.cutAtChar? ':' name with
  | none => rfl
  | some pieces =>
      apply absurd _ bare
      rw [Text.cutAtChar?_join cut]
      exact List.mem_append_right _ List.mem_cons_self

namespace LayoutBody

variable {raw name : Text} {args : List Text} {style : ArgsStyle}

/-- Arguments between parentheses have to agree. -/
theorem ofCall_of_mixed (written : LayoutBody raw name args .call) (mixed : Mixed args)
    (tag : Text) : Body.ofCall raw tag = .error (.mixedArguments tag) := by
  cases written with
  | @call _ inner bare =>
      have inside : Text.dropEnd? [')'] (inner ++ [')']) = some inner :=
        Text.dropEnd?_eq_some_iff.mpr rfl
      unfold Body.ofCall
      rw [Text.cutAtChar?_append_cons bare]
      simp only [Option.bind_eq_bind, Option.bind_some, inside, Option.pure_def]
      rw [argumentsAgree_eq_false_iff.mpr mixed]
      rfl

theorem ofCall_of_agreeing (written : LayoutBody raw name args style) (named : name ≠ [])
    (agreeing : style = .call -> ¬ Mixed args) (tag : Text) :
    Body.ofCall raw tag = .ok (Body.withArgs name args style) := by
  cases written with
  | @call _ inner bare =>
      have inside : Text.dropEnd? [')'] (inner ++ [')']) = some inner :=
        Text.dropEnd?_eq_some_iff.mpr rfl
      unfold Body.ofCall
      rw [Text.cutAtChar?_append_cons bare]
      simp only [Option.bind_eq_bind, Option.bind_some, inside, Option.pure_def]
      rw [argumentsAgree_of_not_mixed (agreeing rfl)]
      rfl
  | @colon _ inner bare noCall =>
      rw [ofCall_of_not_parenthesized noCall, Body.ofColonForm, Text.cutAtChar?_append_cons bare]
      simp [named]
  | plain bare noCall =>
      rw [ofCall_of_not_parenthesized noCall, ofColonForm_of_no_colon bare]
      rfl

/-- A tag that mixes its arguments between parentheses is not read. -/
theorem readTag_of_mixed {site : Site} {document : Path} {start : Nat}
    (written : LayoutBody raw name args .call) (mixed : Mixed args) :
    readTag site document .layout start raw =
      .error (.mixedArguments (Kind.layout.opening ++ raw ++ tagClose)) := by
  unfold readTag Body.ofRaw
  dsimp only
  rw [written.ofCall_of_mixed mixed]

/-- Every other tag is read with the arguments that it gives. -/
theorem exists_readTag (written : LayoutBody raw name args style) (site : Site) (document : Path)
    (start : Nat) (named : name ≠ []) (agreeing : style = .call -> ¬ Mixed args) :
    ∃ tag, readTag site document .layout start raw = .ok tag ∧ tag.kind = .layout ∧
      tag.tag = Kind.layout.opening ++ raw ++ tagClose ∧ tag.args = args := by
  unfold readTag Body.ofRaw
  dsimp only
  rw [written.ofCall_of_agreeing named agreeing]
  simp [Body.withArgs, named]

end LayoutBody

/-! ## Which slot an argument is meant for -/

/-- Values that go to slots by position, the last argument to the last slot.
Slots in front of all arguments get none, and arguments in front of all slots
go nowhere. -/
structure Aligned (args : List Text) (values : List (Option Text)) : Prop where
  received : ∀ back, back < args.length -> back < values.length ->
    values[values.length - 1 - back]? = some args[args.length - 1 - back]?
  leading : ∀ back, args.length ≤ back -> back < values.length ->
    values[values.length - 1 - back]? = some none

/-- An argument that gives a value to a key, which is what stands in front of
its first equals sign. -/
def HasKey (key arg : Text) : Prop :=
  '=' ∉ key ∧ ∃ value, arg = key ++ '=' :: value

theorem hasKey_iff {key arg : Text} :
    HasKey key arg ↔ (Text.cutAtChar? '=' arg).map Prod.fst = some key := by
  rw [Option.map_eq_some_iff]
  constructor
  · rintro ⟨plain, value, equal⟩
    exact ⟨(key, value), Text.cutAtChar?_eq_some_iff.mpr ⟨plain, equal⟩, rfl⟩
  · rintro ⟨⟨front, value⟩, cut, equal⟩
    subst equal
    have split := Text.cutAtChar?_eq_some_iff.mp cut
    exact ⟨split.1, value, split.2⟩

instance decidableHasKey (key arg : Text) : Decidable (HasKey key arg) :=
  decidable_of_iff _ hasKey_iff.symm

/-- Values that go to slots by name, each from the first argument with that
key. -/
structure Keyed (args : List Text) (slots : List Placeholder) (values : List (Option Text)) :
    Prop where
  received : ∀ (index : Nat) (slot : Placeholder) (earlier : List Text) (value : Text)
    (later : List Text), slots[index]? = some slot ->
    args = earlier ++ (slot.name ++ '=' :: value) :: later -> '=' ∉ slot.name ->
    (∀ arg ∈ earlier, ¬ HasKey slot.name arg) -> values[index]? = some (some value)
  missing : ∀ (index : Nat) (slot : Placeholder), slots[index]? = some slot ->
    (∀ arg ∈ args, ¬ HasKey slot.name arg) -> values[index]? = some none

/-- Arguments of which no two have a common key. -/
def DistinctKeys (args : List Text) : Prop :=
  args.Pairwise fun left right => ∀ key, HasKey key left -> ¬ HasKey key right

/-- Where keys are distinct it does not matter in which order they are looked
through. -/
theorem lookup_eq_some_iff_mem {entries : List (Text × Text)} {key value : Text}
    (distinct : entries.Pairwise fun left right => left.1 ≠ right.1) :
    entries.lookup key = some value ↔ (key, value) ∈ entries := by
  rw [List.lookup_eq_some_iff]
  constructor
  · rintro ⟨earlier, later, split, _⟩
    rw [split]
    exact List.mem_append_right _ List.mem_cons_self
  · intro member
    rcases List.append_of_mem member with ⟨earlier, later, split⟩
    refine ⟨earlier, later, split, ?_⟩
    rw [split] at distinct
    intro entry within
    rw [bne_iff_ne]
    exact ((List.pairwise_append.mp distinct).2.2 entry within _ List.mem_cons_self).symm

theorem pairwise_keys_of_distinct {args : List Text} (distinct : DistinctKeys args) :
    (args.filterMap (Text.cutAtChar? '=')).Pairwise fun left right => left.1 ≠ right.1 := by
  rw [List.pairwise_filterMap]
  refine distinct.imp ?_
  intro left right apart former leftCut latter rightCut same
  exact apart former.1 (hasKey_iff.mpr (by rw [leftCut]; rfl))
    (hasKey_iff.mpr (by rw [rightCut, same]; rfl))

namespace Composer

/-- The values that slots receive, from the first slot on. -/
def slotValues (mode : BindingMode) (args : List Text) (slots : List Placeholder) :
    List (Option Text) :=
  (slots.reverse.zipIdx.map fun slot => boundValue? mode args slot.1 slot.2).reverse

theorem length_slotValues (mode : BindingMode) (args : List Text) (slots : List Placeholder) :
    (slotValues mode args slots).length = slots.length := by
  simp [slotValues]

/-- Counted from the front, a slot is as far from the last one as the slots
behind it. -/
theorem getElem?_slotValues (mode : BindingMode) (args : List Text) {slots : List Placeholder}
    {index : Nat} {slot : Placeholder} (found : slots[index]? = some slot) :
    (slotValues mode args slots)[index]? =
      some (boundValue? mode args slot (slots.length - 1 - index)) := by
  have inside := (List.getElem?_eq_some_iff.mp found).1
  unfold slotValues
  rw [List.getElem?_reverse (by simpa using inside), List.getElem?_map, List.getElem?_zipIdx,
    List.getElem?_reverse (by simp; omega)]
  simp only [List.length_map, List.length_zipIdx, List.length_reverse]
  have twice : slots.length - 1 - (slots.length - 1 - index) = index := by omega
  rw [twice, found]
  simp

theorem aligned_slotValues (args : List Text) (slots : List Placeholder) :
    Aligned args (slotValues .byPosition args slots) := by
  have value (back : Nat) (inside : back < slots.length) :
      (slotValues .byPosition args slots)[slots.length - 1 - back]? = some args.reverse[back]? := by
    have slot := List.getElem?_eq_getElem (show slots.length - 1 - back < slots.length by omega)
    have twice : slots.length - 1 - (slots.length - 1 - back) = back := by omega
    rw [getElem?_slotValues _ args slot, twice, boundValue?]
  constructor
  · intro back within inside
    rw [length_slotValues] at inside ⊢
    rw [value back inside, List.getElem?_reverse within]
  · intro back beyond inside
    rw [length_slotValues] at inside ⊢
    rw [value back inside, List.getElem?_eq_none (by simpa using beyond)]

theorem keyed_slotValues (args : List Text) (slots : List Placeholder) :
    Keyed args slots (slotValues .byName args slots) := by
  constructor
  · intro index slot earlier value later found split bare first
    rw [getElem?_slotValues _ args found, boundValue?, split, List.filterMap_append,
      List.filterMap_cons_some (Text.cutAtChar?_append_cons bare value)]
    refine congrArg some (List.lookup_eq_some_iff.mpr ⟨_, _, rfl, ?_⟩)
    intro entry member
    rcases List.mem_filterMap.mp member with ⟨arg, within, cut⟩
    rw [bne_iff_ne]
    intro same
    exact first arg within (hasKey_iff.mpr (by rw [cut, same]; rfl))
  · intro index slot found without
    rw [getElem?_slotValues _ args found, boundValue?]
    refine congrArg some (List.lookup_eq_none_iff.mpr ?_)
    intro entry member
    rcases List.mem_filterMap.mp member with ⟨arg, within, cut⟩
    rw [bne_iff_ne]
    intro same
    exact without arg within (hasKey_iff.mpr (by rw [cut, same]; rfl))

/-- Arguments with distinct keys may come in any order. -/
theorem boundValue?_of_perm {args others : List Text} (distinct : DistinctKeys args)
    (same : others.Perm args) (slot : Placeholder) (index : Nat) :
    boundValue? .byName others slot index = boundValue? .byName args slot index := by
  have symmetric : ∀ {left right : Text}, (∀ key, HasKey key left -> ¬ HasKey key right) ->
      ∀ key, HasKey key right -> ¬ HasKey key left :=
    fun apart key rightKey leftKey => apart key leftKey rightKey
  have otherKeys := pairwise_keys_of_distinct (distinct.perm same.symm symmetric)
  apply Option.ext
  intro value
  rw [boundValue?, boundValue?, lookup_eq_some_iff_mem otherKeys,
    lookup_eq_some_iff_mem (pairwise_keys_of_distinct distinct)]
  exact (same.filterMap _).mem_iff

/-- Arguments that are not mixed find their slots, by position or by name. -/
theorem exists_mode_of_not_mixed {args : List Text} (uniform : ¬ Mixed args) (tag : Text) :
    ∃ mode, BindingMode.detect tag args.reverse = .ok mode ∧ ∀ slots,
      ((∀ arg ∈ args, isNamedArgument arg = false) -> Aligned args (slotValues mode args slots)) ∧
      ((∀ arg ∈ args, isNamedArgument arg = true) ->
        Keyed args slots (slotValues mode args slots)) := by
  by_cases empty : args = []
  · subst empty
    refine ⟨.byPosition, rfl, fun slots => ⟨fun _ => aligned_slotValues [] slots, fun _ => ?_⟩⟩
    exact keyed_slotValues [] slots
  · rcases uniform_of_not_mixed uniform with named | positional
    · refine ⟨.byName, detect_of_uniform tag empty named, fun slots => ⟨fun positional => ?_, ?_⟩⟩
      · rcases List.exists_mem_of_ne_nil args empty with ⟨arg, member⟩
        have both := (named arg member).symm.trans (positional arg member)
        cases both
      · exact fun _ => keyed_slotValues args slots
    · refine ⟨.byPosition, detect_of_uniform tag empty positional,
        fun slots => ⟨?_, fun named => ?_⟩⟩
      · exact fun _ => aligned_slotValues args slots
      · rcases List.exists_mem_of_ne_nil args empty with ⟨arg, member⟩
        have both := (named arg member).symm.trans (positional arg member)
        cases both

end Composer
end PageComposer
