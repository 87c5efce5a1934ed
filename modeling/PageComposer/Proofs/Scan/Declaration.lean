import PageComposer.Proofs.Scan.Finding

namespace PageComposer

/-!
# Slots as they are declared

A slot is declared by its name.  Behind the name may stand a text for the reader, and behind
that the name of a wrapper (`SlotDeclaration.body`).  The text for the reader begins with a
colon, and everything from the first colon on is left out before a wrapper is looked for.  So
a declared wrapper is read only where there is no text for the reader
(`scanKind_slotDeclaration`).
-/

/-- What the declaration of a slot says. -/
structure SlotDeclaration where
  name : Text
  /-- A text for the reader. -/
  display? : Option Text := none
  wrapper? : Option Text := none

namespace SlotDeclaration

/-- The body of a tag that declares a slot. -/
def body (slot : SlotDeclaration) : Text :=
  slot.name ++ (slot.display?.elim [] (':' :: ·) ++
    slot.wrapper?.elim [] fun wrapper => "(wrap=".toList ++ wrapper ++ [')'])

/-- A tag that declares a slot. -/
def tag (slot : SlotDeclaration) : Text :=
  Kind.content.opening ++ slot.body ++ tagClose

/-- The parts of a declaration are told apart by the characters between them. -/
structure Parted (slot : SlotDeclaration) : Prop where
  named : slot.name ≠ []
  absolute : isRelativeName slot.name = false
  name_colon : ':' ∉ slot.name
  name_parenthesis : '(' ∉ slot.name
  name_unclosed : ¬ tagClose <:+: slot.name
  display_unclosed : ∀ display ∈ slot.display?, ¬ tagClose <:+: display
  wrapper_colon : ∀ wrapper ∈ slot.wrapper?, ':' ∉ wrapper
  wrapper_unclosed : ∀ wrapper ∈ slot.wrapper?, ¬ tagClose <:+: wrapper

end SlotDeclaration

/-! ## Bodies of slots -/

section Body

variable {name : Text}

theorem ofContent_of_bare (colonless : ':' ∉ name) (bare : '(' ∉ name) :
    Body.ofContent name = .plain name := by
  unfold Body.ofContent
  rw [Text.cutAtChar?_eq_none_iff.mpr colonless]
  dsimp only
  rw [Text.cutAtChar?_eq_none_iff.mpr bare]

/-- What follows a colon is left out, whatever it is. -/
theorem ofContent_colon (named : name ≠ []) (colonless : ':' ∉ name) (bare : '(' ∉ name)
    (display : Text) : Body.ofContent (name ++ ':' :: display) = .plain name := by
  unfold Body.ofContent
  rw [Text.cutAtChar?_append_cons colonless]
  dsimp only
  rw [if_neg (by simpa using named), Text.cutAtChar?_eq_none_iff.mpr bare]

theorem ofContent_parenthesis (named : name ≠ []) (bare : '(' ∉ name) {inner : Text}
    (colonless : ':' ∉ name ++ '(' :: (inner ++ [')'])) :
    Body.ofContent (name ++ '(' :: (inner ++ [')'])) = ⟨name, [inner], .call⟩ := by
  have ended : Text.dropEnd? [')'] (inner ++ [')']) = some inner :=
    Text.dropEnd?_eq_some_iff.mpr rfl
  unfold Body.ofContent
  rw [Text.cutAtChar?_eq_none_iff.mpr colonless]
  dsimp only
  rw [Text.cutAtChar?_append_cons bare]
  dsimp only
  rw [if_neg (by simpa using named), ended]
  rfl

end Body

namespace SlotDeclaration

variable {slot : SlotDeclaration}

theorem unclosed_append_cons {separator : Char} (foreign : separator ∉ tagClose)
    {left right : Text} (leftUnclosed : ¬ tagClose <:+: left)
    (rightUnclosed : ¬ tagClose <:+: right) : ¬ tagClose <:+: left ++ separator :: right :=
  fun closed => (Text.isInfix_of_isInfix_append_cons foreign closed).elim leftUnclosed rightUnclosed

/-- A declaration is closed by the closing of its tag. -/
theorem Parted.unclosed (parted : slot.Parted) : ¬ tagClose <:+: slot.body := by
  rcases slot with ⟨name, display?, wrapper?⟩
  have nameUnclosed := parted.name_unclosed
  have displayUnclosed := parted.display_unclosed
  have call (wrapper : Text) (unclosed : ¬ tagClose <:+: wrapper) :
      ¬ tagClose <:+: "wrap".toList ++ '=' :: (wrapper ++ ')' :: []) :=
    unclosed_append_cons (by decide) (by decide)
      (unclosed_append_cons (by decide) unclosed (by decide))
  unfold body
  cases wrapper? with
  | none =>
      cases display? with
      | none => simpa using nameUnclosed
      | some display =>
          simpa using unclosed_append_cons (by decide) nameUnclosed (displayUnclosed display rfl)
  | some wrapper =>
      have wrapped := call wrapper (parted.wrapper_unclosed wrapper rfl)
      cases display? with
      | none => simpa using unclosed_append_cons (by decide) nameUnclosed wrapped
      | some display =>
          simpa using unclosed_append_cons (by decide) nameUnclosed
            (unclosed_append_cons (by decide) (displayUnclosed display rfl) wrapped)

/-- What is read from a declaration: a wrapper only where there is no text for the reader. -/
theorem Parted.ofContent_body (parted : slot.Parted) :
    Body.ofContent slot.body =
      match slot.display?, slot.wrapper? with
      | none, some wrapper => ⟨slot.name, ["wrap=".toList ++ wrapper], .call⟩
      | _, _ => .plain slot.name := by
  rcases slot with ⟨name, display?, wrapper?⟩
  have colonless := parted.name_colon
  have bare := parted.name_parenthesis
  unfold body
  cases display? with
  | some display =>
      dsimp only [Option.elim]
      rw [List.cons_append]
      exact ofContent_colon parted.named colonless bare _
  | none =>
      cases wrapper? with
      | none =>
          dsimp only [Option.elim]
          rw [List.append_nil, List.append_nil]
          exact ofContent_of_bare colonless bare
      | some wrapper =>
          have wrapperColon := parted.wrapper_colon wrapper rfl
          have regrouped : "(wrap=".toList ++ wrapper ++ [')'] =
              '(' :: ("wrap=".toList ++ wrapper ++ [')']) := rfl
          dsimp only [Option.elim] at wrapperColon ⊢
          rw [List.nil_append, regrouped]
          apply ofContent_parenthesis parted.named bare
          simp only [List.mem_append, List.mem_cons, not_or]
          exact ⟨colonless, by decide, ⟨by decide, wrapperColon⟩, by decide⟩

end SlotDeclaration

/-- The tag of a declared slot is scanned as one slot of this name.  It has the declared
wrapper if there is no text for the reader, and none otherwise. -/
theorem scanKind_slotDeclaration {slot : SlotDeclaration} (parted : slot.Parted) (site : Site)
    (document : Path) :
    ∃ found, scanKind site document .content slot.tag = .ok [found] ∧ found.kind = .content ∧
      found.tag = slot.tag ∧ found.name = slot.name ∧
      found.wrapperName? = if slot.display?.isNone then slot.wrapper?.map Text.trim else none := by
  have taken := parted.ofContent_body
  have name : (Body.ofContent slot.body).name = slot.name := by
    rw [taken]
    split <;> rfl
  have read : ∃ found, readTag site document .content 0 slot.body = .ok found :=
    ⟨_, readTag_eq_ok_iff.mpr ⟨_, rfl, by rw [name]; exact parted.named, rfl⟩⟩
  rcases read with ⟨found, accepted⟩
  rcases readTag_eq_ok_iff.mp accepted with ⟨body, same, _, equal⟩
  cases same
  refine ⟨found, ?_, by rw [equal], by rw [equal]; rfl, ?_, ?_⟩
  · have scanned := @scanKindFrom_tag_append site document .content 0 _ parted.unclosed []
    rw [accepted, List.append_nil] at scanned
    simp only [scanKindFrom_nil] at scanned
    exact scanned
  · rw [equal, name]
    exact absoluteName_of_absolute parted.absolute
  · rw [equal, taken]
    unfold Placeholder.wrapperName?
    rw [if_pos rfl]
    rcases slot with ⟨_, display?, wrapper?⟩
    cases display? with
    | some display => rfl
    | none =>
        cases wrapper? with
        | none => rfl
        | some wrapper =>
            have keyed : Text.cutAtChar? '=' ("wrap=".toList ++ wrapper) =
                some ("wrap".toList, wrapper) :=
              @Text.cutAtChar?_append_cons '=' "wrap".toList (by decide) wrapper
            simp only [List.head?_cons, Option.map_some, keyed]
            rfl

/-- A slot with a wrapper whose name holds an equals sign, and blanks around it. -/
theorem scanKind_slotDeclaration_wrapped :
    (SlotDeclaration.mk "main".toList none (some " /box=1 ".toList)).Parted ∧
      ∃ found, scanKind (Listing.empty.toSite (.atRoot ⟨"/site".toList⟩))
          ⟨"/site/index.html".toList⟩ .content "<!-- content:main(wrap= /box=1 ) -->".toList =
        .ok [found] ∧ found.name = "main".toList ∧ found.wrapperName? = some "/box=1".toList := by
  have parted : (SlotDeclaration.mk "main".toList none (some " /box=1 ".toList)).Parted := by
    refine ⟨by decide, by decide, by decide, by decide, by decide, ?_, ?_, ?_⟩
    all_goals decide
  rcases scanKind_slotDeclaration parted (Listing.empty.toSite (.atRoot ⟨"/site".toList⟩))
    ⟨"/site/index.html".toList⟩ with ⟨found, scanned, _, _, name, wrapper⟩
  exact ⟨parted, found, scanned, name, wrapper⟩

/-- A text for the reader hides the wrapper behind it. -/
theorem slotDeclaration_hides_wrapper :
    ∃ found, scanKind (Listing.empty.toSite (.atRoot ⟨"/site".toList⟩))
        ⟨"/site/index.html".toList⟩ .content
        "<!-- content:main:Main text(wrap=/box) -->".toList = .ok [found] ∧
      found.name = "main".toList ∧ found.wrapperName? = none := by
  refine ⟨⟨"main".toList, .content, 0, 42, "<!-- content:main:Main text(wrap=/box) -->".toList, [],
    .none, ⟨"/site/index.html".toList⟩⟩, ?_, rfl, rfl⟩
  decide +kernel

end PageComposer
