namespace PageComposer

/-!
# Text and its byte offsets

A text is the list of its Unicode scalar values, so that every operation on
markup is a recursion on data.  Positions that are shown to a reader are
counted in bytes of the UTF-8 form; `Text.byteSize` is that measure, and
`Text.splitAtByte` is the cut it belongs to.  A cut at the size of a leading
part gives that part back (`splitAtByte_append`).
-/

/-- A text, as the list of its Unicode scalar values. -/
abbrev Text := List Char

namespace Text

/-- The number of bytes of the UTF-8 form. -/
def byteSize (text : Text) : Nat :=
  text.foldr (fun head size => head.utf8Size + size) 0

@[simp] theorem byteSize_nil : byteSize [] = 0 := rfl

@[simp] theorem byteSize_cons (head : Char) (rest : Text) :
    byteSize (head :: rest) = head.utf8Size + byteSize rest := rfl

@[simp] theorem byteSize_append (before after : Text) :
    byteSize (before ++ after) = byteSize before + byteSize after := by
  induction before with
  | nil => simp
  | cons head rest inductionHypothesis =>
      rw [List.cons_append, byteSize_cons, byteSize_cons, inductionHypothesis, Nat.add_assoc]

/-- Move characters to the reversed part `seen` until `offset` bytes are
used up.  An offset inside a character takes that character whole, and an
offset past the end takes everything. -/
def splitAtByteFrom (seen : Text) : Nat -> Text -> Text × Text
  | _, [] => (seen.reverse, [])
  | 0, text => (seen.reverse, text)
  | offset + 1, head :: rest =>
      splitAtByteFrom (head :: seen) (offset + 1 - head.utf8Size) rest

/-- The text before a byte offset and the text from it on. -/
def splitAtByte (offset : Nat) (text : Text) : Text × Text :=
  splitAtByteFrom [] offset text

theorem splitAtByteFrom_append (seen before after : Text) :
    splitAtByteFrom seen (byteSize before) (before ++ after) =
      (seen.reverse ++ before, after) := by
  induction before generalizing seen with
  | nil => cases after <;> simp [splitAtByteFrom]
  | cons head rest inductionHypothesis =>
      have positive := head.utf8Size_pos
      obtain ⟨smaller, equal⟩ : ∃ smaller, byteSize (head :: rest) = smaller + 1 :=
        ⟨byteSize (head :: rest) - 1, by rw [byteSize_cons]; omega⟩
      have remaining : smaller + 1 - head.utf8Size = byteSize rest := by
        rw [← equal, byteSize_cons]; omega
      rw [equal, List.cons_append, splitAtByteFrom, remaining, inductionHypothesis]
      simp

/-- A cut at the size of a leading part gives back exactly that part. -/
theorem splitAtByte_append (before after : Text) :
    splitAtByte (byteSize before) (before ++ after) = (before, after) := by
  simpa [splitAtByte] using splitAtByteFrom_append [] before after

theorem splitAtByteFrom_join (seen : Text) (offset : Nat) (text : Text) :
    (splitAtByteFrom seen offset text).1 ++ (splitAtByteFrom seen offset text).2 =
      seen.reverse ++ text := by
  fun_induction splitAtByteFrom seen offset text with
  | case1 => simp
  | case2 => simp
  | case3 seen offset head rest inductionHypothesis => simpa using inductionHypothesis

/-- A cut loses nothing, wherever it falls. -/
theorem splitAtByte_join (offset : Nat) (text : Text) :
    (splitAtByte offset text).1 ++ (splitAtByte offset text).2 = text := by
  simpa [splitAtByte] using splitAtByteFrom_join [] offset text

/-- Put `replacement` in place of the bytes from `start` up to `stop`. -/
def replaceBytes (start stop : Nat) (replacement text : Text) : Text :=
  (splitAtByte start text).1 ++ replacement ++ (splitAtByte stop text).2

/-- A span given by the sizes of its surroundings is replaced and nothing
else. -/
theorem replaceBytes_append (before middle after replacement : Text) :
    replaceBytes (byteSize before) (byteSize before + byteSize middle) replacement
        (before ++ middle ++ after) =
      before ++ replacement ++ after := by
  unfold replaceBytes
  rw [← byteSize_append, splitAtByte_append, List.append_assoc before middle after,
    splitAtByte_append]

/-- The decimal digits of a number. -/
def ofNat (number : Nat) : Text :=
  Nat.toDigits 10 number

/-- The parts with `separator` between any two of them. -/
def joinWith (separator : Text) (parts : List Text) : Text :=
  List.intercalate separator parts

/-- Order of texts by their scalar values, which is also the order of their
UTF-8 bytes. -/
def precedes : Text -> Text -> Bool
  | [], [] => false
  | [], _ :: _ => true
  | _ :: _, [] => false
  | left :: lefts, right :: rights =>
      left < right || (left == right && precedes lefts rights)

end Text
end PageComposer
