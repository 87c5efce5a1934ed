import PageComposer.Text.Basic

namespace PageComposer

/-!
# Kinds of placeholders

A placeholder is an HTML comment that names its kind.  The set of kinds is
closed; which of them a composition looks for is configurable.
-/

/-- The opening of every placeholder comment. -/
def tagOpen : Text := ['<', '!', '-', '-', ' ']

/-- The closing of every placeholder comment. -/
def tagClose : Text := [' ', '-', '-', '>']

/-- What a placeholder asks for. -/
inductive Kind
  /-- Include another fragment. -/
  | file
  /-- Declare a slot inside a layout or a wrapper. -/
  | content
  /-- Fill the slots of a layout. -/
  | layout
  /-- Place the current document inside a wrapper. -/
  | wrap
  /-- Register a stylesheet. -/
  | linkCss
  /-- Register a script. -/
  | linkScript
deriving DecidableEq, Inhabited

namespace Kind

/-- All kinds, in the order in which they are scanned by default. -/
def all : List Kind :=
  [file, content, layout, wrap, linkCss, linkScript]

/-- The name used in tags. -/
def name : Kind -> Text
  | file => ['f', 'i', 'l', 'e']
  | content => ['c', 'o', 'n', 't', 'e', 'n', 't']
  | layout => ['l', 'a', 'y', 'o', 'u', 't']
  | wrap => ['w', 'r', 'a', 'p']
  | linkCss => ['l', 'i', 'n', 'k', 'C', 's', 's']
  | linkScript => ['l', 'i', 'n', 'k', 'S', 'c', 'r', 'i', 'p', 't']

/-- The kind with this name. -/
def ofName? (name : Text) : Option Kind :=
  all.find? fun kind => kind.name == name

theorem mem_all (kind : Kind) : kind ∈ all := by
  cases kind <;> decide

/-- A name belongs to one kind only. -/
theorem name_injective {left right : Kind} (equal : left.name = right.name) : left = right := by
  cases left <;> cases right <;> first | rfl | exact absurd equal (by decide)

/-- Looking a name up undoes naming. -/
theorem ofName?_name (kind : Kind) : ofName? kind.name = some kind := by
  cases kind <;> decide

/-- The text that starts a tag of this kind. -/
def opening (kind : Kind) : Text :=
  tagOpen ++ kind.name ++ [':']

/-- The file extension of the resource that a name of this kind points at. -/
def extension : Kind -> Text
  | linkCss => ['c', 's', 's']
  | linkScript => ['j', 's']
  | file | content | layout | wrap => ['h', 't', 'm', 'l']

end Kind
end PageComposer
