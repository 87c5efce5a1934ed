import Mathlib.Data.List.DropRight
import PageComposer.Proofs.Layout.Literal
import PageComposer.Proofs.Scan.Finding

namespace PageComposer

/-!
# Arguments that are written again

The arguments of a layout tag are trimmed, and those that are blank are left out.  Joined
by the separator they came with they are read again as they are
(`splitArgs_joinWith_splitArgs`).
-/

namespace Text

theorem trim_trim (text : Text) : trim (trim text) = trim text := by
  have started : trimStart (trim text) = trim text := by
    apply List.dropWhile_eq_self_iff.mpr
    intro nonempty
    have leads : trim text <+: trimStart text := List.rdropWhile_prefix isBlank _
    have longer : 0 < (trimStart text).length := Nat.lt_of_lt_of_le nonempty leads.length_le
    have first : (trim text)[0] = (trimStart text)[0] := leads.getElem nonempty
    rw [first]
    exact List.dropWhile_get_zero_not isBlank text longer
  rw [trim, started]
  exact List.rdropWhile_idempotent isBlank (trimStart text)

/-- What occurs in joined texts without their separator occurs in one of them. -/
theorem isInfix_of_isInfix_joinWith {separator : Char} {needle : Text}
    (foreign : separator ∉ needle) (nonempty : needle ≠ []) {parts : List Text}
    (occurs : needle <:+: joinWith [separator] parts) : ∃ part ∈ parts, needle <:+: part := by
  induction parts with
  | nil => exact absurd (List.infix_nil.mp occurs) nonempty
  | cons first others inductionHypothesis =>
      cases others with
      | nil => exact ⟨first, List.mem_singleton_self first, by simpa [joinWith] using occurs⟩
      | cons second others =>
          rw [joinWith_cons_cons] at occurs
          rcases isInfix_of_isInfix_append_cons foreign occurs with here | later
          · exact ⟨first, List.mem_cons_self, here⟩
          · rcases inductionHypothesis later with ⟨part, member, inside⟩
            exact ⟨part, List.mem_cons_of_mem _ member, inside⟩

end Text

section Arguments

variable {separator : Char} {text arg : Text}

/-- An argument stands between two separators, is trimmed and not empty. -/
theorem mem_splitArgs (member : arg ∈ Body.splitArgs separator text) :
    separator ∉ arg ∧ arg <:+: text ∧ Text.trim arg = arg ∧ arg ≠ [] := by
  rcases List.mem_filter.mp member with ⟨trimmed, nonempty⟩
  rcases List.mem_map.mp trimmed with ⟨field, among, equal⟩
  have inside : arg <:+: field := equal ▸ Text.trim_isInfix field
  refine ⟨fun within => ?_, ?_, ?_, ?_⟩
  · exact Text.separator_not_mem_of_mem_splitOn among (inside.subset within)
  · exact inside.trans (Text.field_of_mem_splitOn text among).isInfix
  · rw [← equal]
    exact Text.trim_trim field
  · intro nothing
    rw [nothing] at nonempty
    cases nonempty

/-- Arguments that were read are read again when they are joined. -/
theorem splitArgs_joinWith_splitArgs (separator : Char) (text : Text) :
    Body.splitArgs separator (Text.joinWith [separator] (Body.splitArgs separator text)) =
      Body.splitArgs separator text := by
  rw [Composer.splitArgs_joinWith fun arg member => (mem_splitArgs member).1, Composer.writtenArgs]
  have trimmed : (Body.splitArgs separator text).map Text.trim = Body.splitArgs separator text :=
    (List.map_congr_left fun _ member => (mem_splitArgs member).2.2.1).trans (List.map_id _)
  rw [trimmed]
  apply List.filter_eq_self.mpr
  intro arg member
  have nonempty := (mem_splitArgs member).2.2.2
  cases arg with
  | nil => exact absurd rfl nonempty
  | cons => rfl

end Arguments

section Forms

variable {raw name : Text} {args : List Text} {style : ArgsStyle}

/-- The body of a layout tag that names something has one of its forms. -/
theorem exists_layoutBody_of_ofCall {tag : Text} {body : Body}
    (taken : Body.ofCall raw tag = .ok body) (named : body.name ≠ []) :
    ∃ args style, LayoutBody raw body.name args style ∧ (style = .call -> ¬ Mixed args) ∧
      body = Body.withArgs body.name args style := by
  rcases ofCall_cases raw tag with
    ⟨_, _, _, _, failed⟩ | ⟨name, args, style, other, written, agreeing, read, same⟩
  · rw [failed] at taken
    cases taken
  · rw [read] at taken
    cases taken
    rw [← same] at written
    refine ⟨args, style, written, agreeing, ?_⟩
    rw [written.ofCall_of_agreeing named agreeing] at read
    exact (Except.ok.inj read).symm

theorem LayoutBody.isPrefix (written : LayoutBody raw name args style) : name <+: raw := by
  cases written with
  | call _ => exact List.prefix_append _ _
  | colon _ _ => exact List.prefix_append _ _
  | plain _ _ => exact List.prefix_rfl

/-- The arguments of a layout tag are read again when they are joined. -/
theorem LayoutBody.splitArgs_joinWith (written : LayoutBody raw name args style) :
    (style = .call -> Body.splitArgs ';' (Text.joinWith [';'] args) = args) ∧
      (style = .colon -> Body.splitArgs ',' (Text.joinWith [','] args) = args) ∧
      (style = .none -> args = []) := by
  cases written with
  | @call _ inner _ => exact ⟨fun _ => splitArgs_joinWith_splitArgs ';' inner, by simp, by simp⟩
  | @colon _ inner _ _ => exact ⟨by simp, fun _ => splitArgs_joinWith_splitArgs ',' inner, by simp⟩
  | plain _ _ => exact ⟨by simp, by simp, by simp⟩

theorem LayoutBody.arg_isInfix (written : LayoutBody raw name args style) :
    ∀ arg ∈ args, arg <:+: raw := by
  intro arg member
  cases written with
  | call _ => exact (mem_splitArgs member).2.1.trans ⟨name ++ ['('], [')'], by simp⟩
  | colon _ _ => exact (mem_splitArgs member).2.1.trans ⟨name ++ [':'], [], by simp⟩
  | plain _ _ => cases member

end Forms
end PageComposer
