import PageComposer.Proofs.Path.Directories

namespace PageComposer

/-!
# What names from the root lead to

A reference gets the extension of its kind unless it has it already
(`Kind.suffixed`).  A name from the root is then taken below the directory that its first
segment names (`candidate_slash`), or from the root of the site.
-/

/-! ## Names with an extension -/

namespace Kind

/-- A name with the extension of a kind, unless it ends with that. -/
def suffixed (kind : Kind) (name : Text) : Text :=
  if Text.endsWith ('.' :: kind.extension) name then name else name ++ '.' :: kind.extension

theorem slash_not_mem_extension (kind : Kind) : '/' ∉ '.' :: kind.extension := by
  cases kind <;> decide

theorem exists_suffixed (kind : Kind) (name : Text) :
    ∃ stem, kind.suffixed name = stem ++ '.' :: kind.extension := by
  unfold suffixed
  split
  · rename_i ends
    rcases List.isSuffixOf_iff_suffix.mp ends with ⟨stem, joined⟩
    exact ⟨stem, joined.symm⟩
  · exact ⟨name, rfl⟩

theorem isPrefix_suffixed (kind : Kind) (name : Text) : name <+: kind.suffixed name := by
  unfold suffixed
  split
  · exact List.prefix_rfl
  · exact List.prefix_append _ _

/-- Only the last segment of a name settles whether it has the extension. -/
theorem suffixed_append_slash (kind : Kind) (front last : Text) :
    kind.suffixed (front ++ '/' :: last) = front ++ '/' :: kind.suffixed last := by
  have same : Text.endsWith ('.' :: kind.extension) (front ++ '/' :: last) =
      Text.endsWith ('.' :: kind.extension) last := by
    rw [Bool.eq_iff_iff, Text.endsWith, Text.endsWith, List.isSuffixOf_iff_suffix,
      List.isSuffixOf_iff_suffix]
    constructor
    · exact Text.isSuffix_of_isSuffix_append_cons kind.slash_not_mem_extension
    · intro ends
      exact ends.trans ((List.suffix_cons '/' last).trans (List.suffix_append front _))
  unfold suffixed
  rw [same]
  split
  · rfl
  · rw [List.append_assoc, List.cons_append]

theorem suffixed_joinWith (kind : Kind) (front : List Text) (last : Text) :
    kind.suffixed (Text.joinWith ['/'] (front ++ [last])) =
      Text.joinWith ['/'] (front ++ [kind.suffixed last]) := by
  by_cases alone : front = []
  · rw [alone, List.nil_append, List.nil_append, Path.joinWith_singleton, Path.joinWith_singleton]
  · rw [Path.joinWith_concat alone, Path.joinWith_concat alone, suffixed_append_slash]

theorem suffixed_unslashed (kind : Kind) {name : Text} (unslashed : '/' ∉ name) :
    '/' ∉ kind.suffixed name := by
  unfold suffixed
  split
  · exact unslashed
  · intro slash
    exact (List.mem_append.mp slash).elim unslashed kind.slash_not_mem_extension

end Kind

/-- A file name with an extension denotes something. -/
theorem isInner_of_extension {stem extension : Text} (long : 1 < extension.length)
    (unslashed : '/' ∉ stem ++ '.' :: extension) :
    (Part.name (stem ++ '.' :: extension)).IsInner := by
  have size : 2 < (stem ++ '.' :: extension).length := by
    rw [List.length_append, List.length_cons]
    omega
  generalize stem ++ '.' :: extension = segment at unslashed size
  have notUp : segment ≠ ['.', '.'] := by
    rintro rfl
    exact absurd size (by decide)
  refine ⟨?_, unslashed, if_neg notUp⟩
  rw [← Bool.not_eq_true]
  intro filler
  simp only [Path.isFiller, Bool.or_eq_true, beq_iff_eq] at filler
  rcases filler with rfl | rfl
  · exact absurd size (by decide)
  · exact absurd size (by decide)

theorem isInner_suffixed (kind : Kind) {name : Text} (unslashed : '/' ∉ name) :
    (Part.name (kind.suffixed name)).IsInner := by
  have still := kind.suffixed_unslashed unslashed
  rcases kind.exists_suffixed name with ⟨stem, equal⟩
  rw [equal] at still ⊢
  exact isInner_of_extension (by cases kind <;> decide) still

/-! ## References from the root -/

namespace Addressing

variable {addressing : Addressing} {head : Text}

/-- The slash in front of a name does not count. -/
theorem fileNameOf_cons (kind : Kind) {name : Text} (leads : name.head? ≠ some '/') :
    fileNameOf kind ('/' :: name) = kind.suffixed name := by
  have trimmed : ('/' :: name).dropWhile (· == '/') = name := by
    cases name with
    | nil => rfl
    | cons first others =>
        have other : first ≠ '/' := by simpa using leads
        simp [other]
  change kind.suffixed (('/' :: name).dropWhile (· == '/')) = _
  rw [trimmed]

/-- A name with a slash is first taken for one below a named directory. -/
theorem candidate_slash (kind : Kind) (unslashed : '/' ∉ head) (nonempty : head ≠ [])
    (rest : Text) :
    addressing.candidate kind ('/' :: head ++ '/' :: rest) =
      ((addressing.named.lookup head).map fun directory =>
        (directory.join ⟨kind.suffixed rest⟩).normalize).getD
          (addressing.root.join ⟨head ++ '/' :: kind.suffixed rest⟩).normalize := by
  have leads : (head ++ '/' :: rest).head? ≠ some '/' := by
    rw [List.head?_append_of_ne_nil _ nonempty]
    exact fun slash => unslashed (List.mem_of_mem_head? slash)
  have fileName : fileNameOf kind ('/' :: head ++ '/' :: rest) =
      head ++ '/' :: kind.suffixed rest := by
    rw [List.cons_append, fileNameOf_cons kind leads, Kind.suffixed_append_slash]
  unfold candidate
  dsimp only
  rw [fileName, Text.cutAtChar?_append_cons unslashed]
  cases found : addressing.named.lookup head with
  | none =>
      simp only [Option.bind_eq_bind, Option.bind_some, found]
      rfl
  | some directory =>
      simp only [Option.bind_eq_bind, Option.bind_some, found]
      rfl

/-- A name without a slash is taken from the root. -/
theorem candidate_single (kind : Kind) {name : Text} (unslashed : '/' ∉ name) :
    addressing.candidate kind ('/' :: name) =
      (addressing.root.join ⟨kind.suffixed name⟩).normalize := by
  have leads : name.head? ≠ some '/' := fun slash => unslashed (List.mem_of_mem_head? slash)
  have uncut : Text.cutAtChar? '/' (kind.suffixed name) = none := by
    cases cut : Text.cutAtChar? '/' (kind.suffixed name) with
    | none => rfl
    | some pieces =>
        have slash : '/' ∈ kind.suffixed name := by
          rw [Text.cutAtChar?_join cut]
          exact List.mem_append_right _ List.mem_cons_self
        exact absurd slash (kind.suffixed_unslashed unslashed)
  unfold candidate
  dsimp only
  rw [fileNameOf_cons kind leads, uncut]
  rfl

/-- What a reference means is a normal form. -/
theorem exists_candidate_eq (addressing : Addressing) (kind : Kind) (name : Text) :
    ∃ written : Path, addressing.candidate kind name = written.normalize := by
  unfold candidate
  dsimp only
  cases cut : Text.cutAtChar? '/' (fileNameOf kind name) with
  | none => exact ⟨_, rfl⟩
  | some pieces =>
      rcases pieces with ⟨head, rest⟩
      cases found : addressing.named.lookup head with
      | none =>
          simp only [Option.bind_eq_bind, Option.bind_some, found]
          exact ⟨_, rfl⟩
      | some directory =>
          simp only [Option.bind_eq_bind, Option.bind_some, found]
          exact ⟨_, rfl⟩

end Addressing

end PageComposer
