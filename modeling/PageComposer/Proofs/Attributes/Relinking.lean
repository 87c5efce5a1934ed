import PageComposer.Proofs.Attributes.Passes
import PageComposer.Proofs.Path.Characters
import PageComposer.Proofs.Text.Rewriting

namespace PageComposer

/-!
# Marked links are resolved at once

Links are resolved in three passes: those that climb, those that stay, and the marks that
are left.  Together they are one rewriting of the text (`resolveLinks_rewrites`), if the
addresses that are put in hold no quote and none of them looks like a marked link itself.
The first is so where the names of the directories and the path of the document hold no
quote, whatever a link asks for.
-/

/-- Whether the value of a link is relative. -/
def isRelativeLink (value : Text) : Bool :=
  Text.startsWith climbingStart value || Text.startsWith stayingStart value

/-- What is done at the front of a text: a relative link there that is closed gets its
address, and any other one loses its mark. -/
def relinking (site : Site) (document : Path) (text : Text) : Option Text.Edit :=
  match Text.dropStart? linkMark text with
  | none => none
  | some after =>
      match Text.cutAtChar? '"' after with
      | some (value, _) =>
          if isRelativeLink value then
            some ⟨(linkMark ++ value).length, '"' :: linkAddress site document value⟩
          else some ⟨linkMark.length, ['"']⟩
      | none => some ⟨linkMark.length, ['"']⟩

section Rewriting

variable {site : Site} {document : Path}

/-! ## One pass over the text -/

theorem relinking_mark (after : Text) :
    relinking site document (linkMark ++ after) =
      match Text.cutAtChar? '"' after with
      | some (value, _) =>
          if isRelativeLink value then
            some ⟨(linkMark ++ value).length, '"' :: linkAddress site document value⟩
          else some ⟨linkMark.length, ['"']⟩
      | none => some ⟨linkMark.length, ['"']⟩ := by
  unfold relinking
  rw [Text.dropStart?_append]

theorem relinking_eq_none {text : Text} (elsewhere : ¬ linkMark <+: text) :
    relinking site document text = none := by
  unfold relinking
  rw [Text.dropStart?_eq_none_iff.mpr elsewhere]

theorem silent_unquoted {front : Text} (unquoted : '"' ∉ front) (rest : Text) :
    Text.Silent (relinking site document) front rest :=
  fun _ suffix nonempty =>
    relinking_eq_none (@not_isPrefix_of_unquoted [] front rest unquoted _ suffix nonempty)

/-- A link that is not relative or not closed loses its mark. -/
theorem rewrite_relinking_mark {after : Text}
    (edit : relinking site document (linkMark ++ after) = some ⟨linkMark.length, ['"']⟩) :
    Text.rewrite (relinking site document) (linkMark ++ after) =
      '"' :: Text.rewrite (relinking site document) after :=
  Text.rewrite_edit (by decide) edit (silent_unquoted (by decide) after)

/-- What rewriting makes of a field. -/
def relinkField (site : Site) (document : Path) (field : Text) : Text :=
  match Text.dropStart? linkWord field with
  | some value => if isRelativeLink value then linkAddress site document value else value
  | none => field

theorem rewrite_relinking_field {field : Text} (unquoted : '"' ∉ field) (more : Text) :
    Text.rewrite (relinking site document) ('"' :: (field ++ '"' :: more)) =
      '"' :: (relinkField site document field ++
        Text.rewrite (relinking site document) ('"' :: more)) := by
  unfold relinkField
  cases dropped : Text.dropStart? linkWord field with
  | some value =>
      have joined : field = linkWord ++ value := Text.isPrefixOf?_eq_some_iff.mp dropped
      subst joined
      have noQuote : '"' ∉ value := fun inside => unquoted (List.mem_append_right linkWord inside)
      have edit := @relinking_mark site document (value ++ '"' :: more)
      rw [Text.cutAtChar?_append_cons noQuote] at edit
      dsimp only at edit ⊢
      rw [List.append_assoc, ← List.cons_append, ← linkMark_eq]
      split at edit
      · rename_i relative
        rw [← List.append_assoc] at edit ⊢
        have silent : Text.Silent (relinking site document) (linkMark ++ value).tail
            ('"' :: more) := silent_unquoted unquoted _
        rw [if_pos relative, Text.rewrite_edit (by simp [linkMark]) edit silent]
        rfl
      · rename_i absolute
        rw [if_neg absolute, rewrite_relinking_mark edit,
          Text.rewrite_silent (silent_unquoted noQuote _)]
  | none =>
      have elsewhere : ¬ linkMark <+: '"' :: (field ++ '"' :: more) := by
        have iff := @isPrefix_field_iff [] field more (by simp)
        rw [List.append_nil, List.append_nil] at iff
        rw [iff]
        exact Text.dropStart?_eq_none_iff.mp dropped
      rw [Text.rewrite_cons (relinking_eq_none elsewhere),
        Text.rewrite_silent (silent_unquoted unquoted _)]

theorem rewrite_relinking_quoted {fields : List Text} (each : ∀ field ∈ fields, '"' ∉ field)
    (rest : Text) :
    Text.rewrite (relinking site document) (quoted fields ++ '"' :: rest) =
      quoted (fields.map (relinkField site document)) ++
        Text.rewrite (relinking site document) ('"' :: rest) := by
  induction fields with
  | nil => rfl
  | cons field others inductionHypothesis =>
      have within := List.forall_mem_cons.mp each
      rcases quoted_append_cons others rest with ⟨more, closing⟩
      rw [List.map_cons, quoted_cons, quoted_cons, closing, rewrite_relinking_field within.1,
        ← closing, inductionHypothesis within.2]

theorem rewrite_relinking_unquoted {text : Text} (unquoted : '"' ∉ text) :
    Text.rewrite (relinking site document) text = text := by
  have copied := Text.rewrite_silent (@silent_unquoted site document _ unquoted [])
  rwa [List.append_nil, Text.rewrite_nil, List.append_nil] at copied

/-- The last field is not closed. -/
theorem rewrite_relinking_last {last : Text} (unquoted : '"' ∉ last) :
    Text.rewrite (relinking site document) ('"' :: last) = '"' :: unmarkField last := by
  unfold unmarkField
  cases dropped : Text.dropStart? linkWord last with
  | some value =>
      have joined : last = linkWord ++ value := Text.isPrefixOf?_eq_some_iff.mp dropped
      subst joined
      have noQuote : '"' ∉ value := fun inside => unquoted (List.mem_append_right linkWord inside)
      have edit := @relinking_mark site document value
      rw [Text.cutAtChar?_eq_none_iff.mpr noQuote] at edit
      rw [← List.cons_append, ← linkMark_eq, rewrite_relinking_mark edit,
        rewrite_relinking_unquoted noQuote]
      rfl
  | none =>
      have elsewhere : ¬ linkMark <+: '"' :: last := by
        rw [linkMark_isPrefix_iff]
        exact Text.dropStart?_eq_none_iff.mp dropped
      rw [Text.rewrite_cons (relinking_eq_none elsewhere), rewrite_relinking_unquoted unquoted]
      rfl

/-! ## Three passes -/

section Fields

variable {start value field : Text}

theorem addressField_of_startsWith (starts : Text.startsWith start value = true) :
    addressField site document start (linkWord ++ value) = linkAddress site document value := by
  rcases List.isPrefixOf_iff_prefix.mp starts with ⟨rest, joined⟩
  rw [← joined, addressField_link]

theorem addressField_of_not_startsWith (other : ¬ Text.startsWith start value = true) :
    addressField site document start (linkWord ++ value) = linkWord ++ value := by
  apply addressField_of_not_link
  rw [List.prefix_append_right_inj]
  exact fun leads => other (List.isPrefixOf_iff_prefix.mpr leads)

theorem addressField_of_unmarked (unmarked : ¬ linkWord <+: field) :
    addressField site document start field = field :=
  addressField_of_not_link fun leads => unmarked ((List.prefix_append _ _).trans leads)

theorem unmarkField_of_unmarked (unmarked : ¬ linkWord <+: field) : unmarkField field = field := by
  unfold unmarkField
  rw [Text.dropStart?_eq_none_iff.mpr unmarked]
  rfl

theorem unmarkField_mark (value : Text) : unmarkField (linkWord ++ value) = value := by
  unfold unmarkField
  rw [Text.dropStart?_append]
  rfl

/-- The three passes make of a field what rewriting makes of it, unless the address that
is put in looks like a marked link. -/
theorem unmarkField_addressField
    (settled : ∀ value, field = linkWord ++ value -> isRelativeLink value = true ->
      ¬ linkWord <+: linkAddress site document value) :
    unmarkField (addressField site document stayingStart
        (addressField site document climbingStart field)) = relinkField site document field := by
  unfold relinkField
  cases dropped : Text.dropStart? linkWord field with
  | none =>
      have unmarked := Text.dropStart?_eq_none_iff.mp dropped
      rw [addressField_of_unmarked unmarked, addressField_of_unmarked unmarked,
        unmarkField_of_unmarked unmarked]
  | some value =>
      have joined : field = linkWord ++ value := Text.isPrefixOf?_eq_some_iff.mp dropped
      have unmarked := settled value joined
      subst joined
      unfold isRelativeLink at unmarked ⊢
      dsimp only
      by_cases climbs : Text.startsWith climbingStart value = true
      · have final := unmarked (by rw [climbs, Bool.true_or])
        rw [addressField_of_startsWith climbs, addressField_of_unmarked final,
          unmarkField_of_unmarked final, climbs, Bool.true_or, if_pos rfl]
      · rw [addressField_of_not_startsWith climbs]
        by_cases stays : Text.startsWith stayingStart value = true
        · have final := unmarked (by rw [stays, Bool.or_true])
          rw [addressField_of_startsWith stays, unmarkField_of_unmarked final, stays,
            Bool.or_true, if_pos rfl]
        · rw [addressField_of_not_startsWith stays, unmarkField_mark, if_neg]
          rw [Bool.or_eq_true]
          exact not_or.mpr ⟨climbs, stays⟩

end Fields

section Unquoted

variable {addressing : Addressing} (served : site.address = addressing.address)
    (named : ∀ entry ∈ addressing.named, '"' ∉ entry.1) (plain : '"' ∉ document.text)
include served named plain

/-- What is put in for a link holds no quote, whatever its value is. -/
theorem quote_not_mem_linkAddress {value : Text} (unquoted : '"' ∉ value) :
    '"' ∉ linkAddress site document value := by
  have only {text : Text} (without : '"' ∉ text) : Text.Only (· ≠ '"') text :=
    fun character member equal => without (equal ▸ member)
  have slash : '/' ≠ '"' := by decide
  have dot : '.' ≠ '"' := by decide
  have replacement : '\uFFFD' ≠ '"' := by decide
  have relative : Text.Only (· ≠ '"') (Path.mk value).text := only unquoted
  have joined := ((only plain).folder slash dot).join slash relative
  have written := (joined.normalize slash dot).address slash dot replacement
    fun entry member => only (named entry member)
  unfold linkAddress
  rw [served]
  dsimp only
  split
  · exact fun member => written _ member rfl
  · cases dropped : Text.dropStart? ['/'] _ with
    | none => exact fun member => written _ member rfl
    | some rest =>
        have whole := Text.isPrefixOf?_eq_some_iff.mp dropped
        rw [whole] at written
        exact fun member => written _ (List.mem_append_right _ member) rfl

theorem quote_not_mem_addressField {start field : Text} (unquoted : '"' ∉ field) :
    '"' ∉ addressField site document start field := by
  unfold addressField
  split
  · rename_i value dropped
    split
    · apply quote_not_mem_linkAddress served named plain
      intro member
      rw [Text.isPrefixOf?_eq_some_iff.mp dropped] at unquoted
      exact unquoted (List.mem_append_right _ member)
    · exact unquoted
  · exact unquoted

theorem quote_not_mem_map (start : Text) {fields : List Text}
    (each : ∀ field ∈ fields, '"' ∉ field) :
    ∀ field ∈ fields.map (addressField site document start), '"' ∉ field := by
  intro field member
  rcases List.mem_map.mp member with ⟨original, inside, equal⟩
  exact equal ▸ quote_not_mem_addressField served named plain (each original inside)

end Unquoted

/-- The value of the link that a text starts with, if it is closed. -/
def closedValue? (text : Text) : Option Text :=
  (Text.dropStart? linkMark text).bind fun after => (Text.cutAtChar? '"' after).map Prod.fst

theorem closedValue?_eq {value : Text} (unquoted : '"' ∉ value) (after : Text) :
    closedValue? (linkMark ++ value ++ '"' :: after) = some value := by
  unfold closedValue?
  rw [List.append_assoc, Text.dropStart?_append, Option.bind_some,
    Text.cutAtChar?_append_cons unquoted]
  rfl

/-- Resolving the links of a document rewrites it at once.  Every relative link that is
closed gets its address in place of its mark and its value, and every other one loses its
mark. -/
theorem resolveLinks_rewrites {addressing : Addressing}
    (served : site.address = addressing.address)
    (named : ∀ entry ∈ addressing.named, '"' ∉ entry.1) (plain : '"' ∉ document.text)
    {text : Text}
    (settled : ∀ value after, linkMark ++ value ++ '"' :: after <:+ text -> '"' ∉ value ->
      isRelativeLink value = true -> ¬ linkWord <+: linkAddress site document value) :
    resolveLinks site document text = Text.rewrite (relinking site document) text := by
  rw [resolveLinks_eq]
  rcases unquoted_or_exists_last text with unquoted | ⟨first, fields, last, joined, noQuote, each,
    lastUnquoted⟩
  · rw [addressLinks_unquoted unquoted, addressLinks_unquoted unquoted,
      rewrite_relinking_unquoted unquoted, unlink_unquoted unquoted]
  · subst joined
    have climbing : '"' ∉ climbingStart := by decide
    have staying : '"' ∉ stayingStart := by decide
    have climbed := quote_not_mem_map served named plain climbingStart each
    have stayed := quote_not_mem_map served named plain stayingStart climbed
    rw [addressLinks_passes (passes_unquoted noQuote), addressLinks_quoted climbing each,
      addressLinks_last climbing lastUnquoted, addressLinks_passes (passes_unquoted noQuote),
      addressLinks_quoted staying climbed, addressLinks_last staying lastUnquoted,
      unlink_passes (passes_unquoted_mark noQuote), unlink_quoted stayed, unlink_last lastUnquoted,
      Text.rewrite_silent (silent_unquoted noQuote _), rewrite_relinking_quoted each,
      rewrite_relinking_last lastUnquoted, List.map_map, List.map_map]
    congr 3
    apply List.map_congr_left
    intro field member
    apply unmarkField_addressField
    intro value equal relative
    rcases closed_of_mem member last with ⟨after, closed⟩
    subst equal
    rw [← List.cons_append, ← List.cons_append, ← linkMark_eq] at closed
    exact settled value after (closed.trans (List.suffix_append first _))
      (fun inside => each _ member (List.mem_append_right linkWord inside)) relative

set_option maxRecDepth 100000 in
/-- Links that climb, that stay, that touch each other and that are not closed. -/
theorem resolveLinks_rewrites_touching :
    let addressing := (Addressing.atRoot ⟨"/site".toList⟩).withNamed "ps".toList
      ⟨"shared".toList⟩
    let site := Listing.empty.toSite addressing
    let document : Path := ⟨"/site/pages/about.html".toList⟩
    let text := ("<a href=\"ps:../shared/a.css\"><b src=\"ps:./\"ps:../c\">" ++
      "<i title=\"ps:about\" id=\"ps:./open").toList
    let resolved := ("<a href=\"/ps/a.css\"><b src=\"pages\"c\">" ++
      "<i title=\"about\" id=\"./open").toList
    Text.rewrite (relinking site document) text = resolved ∧
      resolveLinks site document text = resolved := by
  intro addressing site document text resolved
  have settled : ∀ back ∈ text.tails, ∀ value ∈ closedValue? back, isRelativeLink value = true ->
      ¬ linkWord <+: linkAddress site document value := by decide +kernel
  have rewrites := @resolveLinks_rewrites site document addressing rfl (by decide +kernel)
    (by decide +kernel) text fun value after closed unquoted =>
      settled _ ((List.mem_tails _ _).mpr closed) value (closedValue?_eq unquoted after)
  have whole : resolveLinks site document text = resolved := by decide +kernel
  exact ⟨rewrites.symm.trans whole, whole⟩

end Rewriting
end PageComposer
