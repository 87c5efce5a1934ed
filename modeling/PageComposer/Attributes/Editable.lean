import PageComposer.Site

namespace PageComposer

/-!
# Editable elements

A `data-editable` attribute without a value is completed with a reference to
the file that it stands in.  An attribute that has a value is left alone.
-/

/-- The attribute that marks an element as editable. -/
def editableAttribute : Text := "data-editable".toList

/-- An empty value. -/
def emptyValue : Text := ['=', '"', '"']

/-- The reference to a file: its address without leading slashes and without
its extension. -/
def editableReference (site : Site) (document : Path) : Text :=
  let address := (site.address document).dropWhile (· == '/')
  ((Text.cutAtLastChar? '.' address).map Prod.fst).getD address

/-- A completed attribute. -/
def completedAttribute (reference : Text) : Text :=
  editableAttribute ++ ['=', '"'] ++ reference ++ "\" contenteditable=\"true\" ".toList

/-- Complete the attributes of a text.  The search goes on behind what was
put in, so a reference is never searched. -/
def completeEditable (completed text : Text) : Text :=
  match _found : Text.cut? editableAttribute text with
  | none => text
  | some (before, after) =>
      match _empty : Text.dropStart? emptyValue after with
      | some rest => before ++ completed ++ completeEditable completed rest
      | none =>
          if Text.startsWith ['='] after then
            before ++ editableAttribute ++ completeEditable completed after
          else before ++ completed ++ completeEditable completed after
termination_by text.length
decreasing_by
  all_goals
    have shorter := Text.cut?_length _found
    have someAttribute : 0 < editableAttribute.length := by decide
  · have value := congrArg List.length (Text.isPrefixOf?_eq_some_iff.mp _empty)
    simp only [List.length_append] at value
    omega
  · omega
  · omega

/-- Complete every attribute of a document that has no value. -/
def prepareEditable (site : Site) (document : Path) (text : Text) : Text :=
  completeEditable (completedAttribute (editableReference site document)) text

end PageComposer
