import PageComposer.Compose.Composer
import PageComposer.Compose.Fragment

namespace PageComposer

/-!
# Binding layout arguments to slots

The arguments of a layout fill its content slots, either by name or by
position.  Positions count from the last slot and the last argument backwards.
A value is a list of parts between commas; a quoted part is put in as it is,
and any other part is a reference that becomes a placeholder again.
-/

/-- How arguments find their slots. -/
inductive BindingMode
  | byName
  | byPosition
deriving DecidableEq

/-- The mode of a list of arguments, the last argument first.  That argument
decides, and the others have to agree with it. -/
def BindingMode.detect (tag : Text) (reversedArgs : List Text) : Except Failure BindingMode :=
  match reversedArgs with
  | [] => .ok .byPosition
  | first :: _ =>
      let named := isNamedArgument first
      if reversedArgs.any fun arg => isNamedArgument arg != named then
        .error (.mixedArguments tag)
      else .ok (if named then .byName else .byPosition)

/-- The parts of a value.  A comma at the very front separates nothing, and
then the value has one part. -/
def splitValues (value : Text) : List Text :=
  match Text.cutAtChar? ',' value with
  | some (before, _) => if before.isEmpty then [value] else value.splitOn ','
  | none => [value]

/-- The inside of a quoted part.  The closing quote may be missing. -/
def unquote? (part : Text) : Option Text :=
  match part with
  | quote :: inner =>
      if quote = '\'' ∨ quote = '"' then some ((Text.dropEnd? [quote] inner).getD inner)
      else none
  | [] => none

namespace Composer

/-- Whether a value starts with the name of a resolved kind and a colon. -/
def hasTypePrefix (composer : Composer) (value : Text) : Bool :=
  composer.kinds.any fun kind => Text.startsWith (kind.name ++ [':']) value

/-- The markup that one part of a value stands for. -/
def bindPart (composer : Composer) (part : Text) : Except Failure Text :=
  match unquote? part with
  | some literal => .ok literal
  | none =>
      if composer.hasTypePrefix part then .ok (tagOpen ++ part ++ tagClose)
      else .error (.missingTypePrefix part)

/-- The markup that a value stands for. -/
def bindValues (composer : Composer) (value : Text) : Except Failure Text := do
  let parts <- (splitValues value).mapM composer.bindPart
  return parts.flatten

/-- Put what a slot receives into the wrapper that the slot names.  The
wrapper is used as it is stored. -/
def wrapSlot (composer : Composer) (slot : Placeholder) (wrapper bound : Text) :
    Except Failure Text :=
  let name := if Text.startsWith ['/'] wrapper then wrapper else '/' :: wrapper
  let reference := Placeholder.detached .wrap name slot.document
  let loaded := do
    let path <- composer.site.locate reference
    let contents <- composer.site.read path
    pure (path, contents)
  match loaded with
  | .error failure =>
      if failure.isResolution then .ok (unprocessedBlock reference) else .error failure
  | .ok (path, contents) => do
      let main <- findMainSlot composer.site path contents
      return main.replaceIn contents bound

/-- The argument value for a slot, which is at `index` counted from the last
slot. -/
def boundValue? (mode : BindingMode) (args : List Text) (slot : Placeholder) (index : Nat) :
    Option Text :=
  match mode with
  | .byName => (args.filterMap (Text.cutAtChar? '=')).lookup slot.name
  | .byPosition => args.reverse[index]?

/-- The markup that a slot receives: that of its value, and none without one. -/
def received (composer : Composer) : Option Text -> Except Failure Text
  | some value => composer.bindValues value
  | none => .ok []

/-- The text that goes into a slot. -/
def slotText (composer : Composer) (slot : Placeholder) (value? : Option Text) :
    Except Failure Text := do
  let bound <- composer.received value?
  match slot.wrapperName? with
  | some wrapper => composer.wrapSlot slot wrapper bound
  | none => return bound

/-- Fill slots, the last one first, so that the spans of the others stay
valid. -/
def fillSlots (composer : Composer) (mode : BindingMode) (args : List Text) :
    List (Placeholder × Nat) -> Text -> Except Failure Text
  | [], body => .ok body
  | (slot, index) :: slots, body => do
      let replacement <- composer.slotText slot (boundValue? mode args slot index)
      fillSlots composer mode args slots (slot.replaceIn body replacement)

/-- The text of a layout with its slots filled. -/
def fillLayout (composer : Composer) (placeholder : Placeholder) (layoutPath : Path)
    (layout : Text) : Except Failure Text := do
  let slots <- scanKind composer.site layoutPath .content layout
  let mode <- BindingMode.detect placeholder.tag placeholder.args.reverse
  let body <- fillSlots composer mode placeholder.args slots.reverse.zipIdx layout
  return Text.trim body

/-- What a layout placeholder is replaced by. -/
def layoutText (composer : Composer) (placeholder : Placeholder) : Except Failure Text :=
  let loaded := do
    let path <- composer.site.locate placeholder
    let contents <- readFragment composer.site path
    pure (path, contents)
  match loaded with
  | .error failure =>
      if failure.isResolution then
        .ok (errorBlock ("Could not process layoutPlaceholder ".toList ++ placeholder.label))
      else .error failure
  | .ok (path, contents) => composer.fillLayout placeholder path (Text.trim contents)

end Composer
end PageComposer
