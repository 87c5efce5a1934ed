import PageComposer.Text.Basic

namespace PageComposer
namespace Text

/-!
# Text as bytes

Files hold bytes.  A text is written in UTF-8, and bytes that are not the
UTF-8 form of any text cannot be read as one.
-/

/-- The bytes of a file or of a name. -/
abbrev Bytes := List UInt8

/-- The UTF-8 form of a text. -/
def toBytes (text : Text) : Bytes :=
  text.flatMap String.utf8EncodeChar

@[simp] theorem toBytes_nil : toBytes [] = [] := rfl

@[simp] theorem toBytes_append (before after : Text) :
    toBytes (before ++ after) = toBytes before ++ toBytes after := by
  simp [toBytes]

/-- The UTF-8 form is as long as `byteSize` says. -/
theorem length_toBytes (text : Text) : (toBytes text).length = byteSize text := by
  induction text with
  | nil => rfl
  | cons head rest inductionHypothesis =>
      simp only [toBytes, List.flatMap_cons, List.length_append, byteSize_cons] at *
      rw [inductionHypothesis, String.length_utf8EncodeChar]

/-- The text with this UTF-8 form, if there is one. -/
def ofBytes? (bytes : Bytes) : Option Text :=
  (ByteArray.mk bytes.toArray).utf8Decode?.map Array.toList

/-- Reading undoes writing. -/
theorem ofBytes?_toBytes (text : Text) : ofBytes? (toBytes text) = some text := by
  have same : ByteArray.mk (toBytes text).toArray = text.utf8Encode := by
    apply ByteArray.ext
    simp [List.utf8Encode, toBytes]
  unfold ofBytes?
  rw [same, List.utf8Decode?_utf8Encode]
  simp

/-- Only the UTF-8 form of a text reads as that text. -/
theorem eq_toBytes_of_ofBytes? {bytes : Bytes} {text : Text}
    (decoded : ofBytes? bytes = some text) : bytes = toBytes text := by
  unfold ofBytes? at decoded
  obtain ⟨characters, found, equal⟩ := Option.map_eq_some_iff.mp decoded
  have present : (ByteArray.mk bytes.toArray).utf8Decode?.isSome := by
    rw [found]
    rfl
  have encoded := ByteArray.utf8Encode_get_utf8Decode? (h := present)
  simp only [found, Option.get_some] at encoded
  have lists := congrArg (fun array => array.data.toList) encoded
  rw [equal] at lists
  simpa [List.utf8Encode, toBytes] using lists.symm

end Text
end PageComposer
