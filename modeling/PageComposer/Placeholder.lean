import PageComposer.Kind
import PageComposer.Path.Basic
import PageComposer.Text.Blank

namespace PageComposer

/-!
# Placeholders

A placeholder is a tag that was found in a document, with what it asks for.
Its span is counted in bytes of the document that it was found in.
-/

/-- How the arguments of a placeholder were written. -/
inductive ArgsStyle
  /-- No arguments. -/
  | none
  /-- Between parentheses, separated by semicolons. -/
  | call
  /-- After a colon, separated by commas. -/
  | colon
deriving DecidableEq, Inhabited

/-- A placeholder of a document. -/
structure Placeholder where
  /-- A file reference, a slot name or a resource name. -/
  name : Text
  kind : Kind
  /-- Offset of the first byte of the tag. -/
  start : Nat
  /-- Offset one past the closing of the tag. -/
  stop : Nat
  /-- The tag as written. -/
  tag : Text
  /-- All named `key=value`, or all positional. -/
  args : List Text
  style : ArgsStyle
  /-- The document that the tag stands in. -/
  document : Path
deriving DecidableEq, Inhabited

namespace Placeholder

/-- A placeholder that stands in no markup, for a name that goes through a
site directly. -/
def detached (kind : Kind) (name : Text) (document : Path) : Placeholder where
  name := name
  kind := kind
  start := 0
  stop := 0
  tag := kind.opening ++ name ++ tagClose
  args := []
  style := .none
  document := document

/-- Kind and name, as shown in messages. -/
def label (placeholder : Placeholder) : Text :=
  placeholder.kind.name ++ ':' :: placeholder.name

/-- The arguments as they are written after a name. -/
def argsSuffix (placeholder : Placeholder) : Text :=
  match placeholder.args, placeholder.style with
  | [], _ => []
  | args, .call => '(' :: Text.joinWith [';'] args ++ [')']
  | args, _ => ':' :: Text.joinWith [','] args

/-- The wrapper that a content slot names for what it receives: the first
argument, after its first equals sign if it has one. -/
def wrapperName? (placeholder : Placeholder) : Option Text :=
  if placeholder.kind = .content then
    placeholder.args.head?.map fun arg =>
      Text.trim (((Text.cutAtChar? '=' arg).map Prod.snd).getD arg)
  else none

end Placeholder
end PageComposer
