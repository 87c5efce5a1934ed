import PageComposer.Failure
import PageComposer.Placeholder

namespace PageComposer

/-!
# The body of a tag

Between the opening and the closing of a tag stands its body: a name, and for
some kinds arguments.  A content slot may carry a display text,
`name:display`, or a wrapper, `name(wrap=frame)`.  What stands behind a first
colon is left out, a wrapper too.  A layout or a wrap has its arguments in
parentheses, `name(a;b)`, or after a colon, `name:a,b`.  For the other kinds
the whole body is the name.
-/

/-- Whether an argument is `key=value`: the equals sign has something before
it, and no parenthesis opens before it. -/
def isNamedArgument (arg : Text) : Bool :=
  match Text.cutAtChar? '=' arg with
  | some (key, _) => !key.isEmpty && !List.elem '(' key
  | none => false

/-- A tag body taken apart. -/
structure Body where
  name : Text
  args : List Text
  style : ArgsStyle
deriving DecidableEq

namespace Body

/-- A body that is a name. -/
def plain (name : Text) : Body :=
  ⟨name, [], .none⟩

/-- The arguments between separators, trimmed, without the blank ones. -/
def splitArgs (separator : Char) (text : Text) : List Text :=
  ((text.splitOn separator).map Text.trim).filter fun arg => !arg.isEmpty

/-- A body whose arguments were written in `style`, if it has any. -/
def withArgs (name : Text) (args : List Text) (style : ArgsStyle) : Body :=
  ⟨name, args, if args.isEmpty then .none else style⟩

/-- The body of a content slot.  What follows the first colon is for the
reader alone, and what follows the first parenthesis names a wrapper.  At the
very front neither is a separator. -/
def ofContent (raw : Text) : Body :=
  let named :=
    match Text.cutAtChar? ':' raw with
    | some (before, _) => if before.isEmpty then raw else before
    | none => raw
  match Text.cutAtChar? '(' named with
  | some (before, inner) =>
      if before.isEmpty then plain named
      else ⟨before, [(Text.dropEnd? [')'] inner).getD inner], .call⟩
  | none => plain named

/-- The body of a layout or a wrap whose arguments follow a colon. -/
def ofColonForm (raw : Text) : Body :=
  match Text.cutAtChar? ':' raw with
  | some (name, args) =>
      if name.isEmpty then plain [] else withArgs name (splitArgs ',' args) .colon
  | none => plain raw

/-- The arguments of a call agree when all of them are named or none is. -/
def argumentsAgree (args : List Text) : Bool :=
  args.all isNamedArgument || !args.any isNamedArgument

/-- The body of a layout or a wrap. -/
def ofCall (raw tag : Text) : Except Failure Body :=
  let inParentheses := do
    let (name, inner) <- Text.cutAtChar? '(' raw
    let inner <- Text.dropEnd? [')'] inner
    pure (name, inner)
  match inParentheses with
  | some (name, inner) =>
      let args := splitArgs ';' inner
      if argumentsAgree args then .ok (withArgs name args .call)
      else .error (.mixedArguments tag)
  | none => .ok (ofColonForm raw)

/-- The body of a tag of any kind. -/
def ofRaw (kind : Kind) (raw tag : Text) : Except Failure Body :=
  match kind with
  | .content => .ok (ofContent raw)
  | .layout | .wrap => ofCall raw tag
  | .file | .linkCss | .linkScript => .ok (plain raw)

end Body
end PageComposer
