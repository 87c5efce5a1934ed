import PageComposer.Path.Basic

namespace PageComposer

/-!
# Paths that are no texts

A system takes almost any bytes for the name of a file, and not all of them are a text.
A path is spelled in characters all the same: for the bytes that one replacement stands
for when the path is shown as a text, it holds one character that stands for nothing
else, a stray one.  The character takes no fewer bytes than it stands for, and it is one
that leaves names in the order of their bytes.  A name that holds one is not read as a
text.

Which characters are stray is told where it matters: in addresses (`Addressing.stray`)
and on the walk through a project (`Walk.stray`).  The program is run on sites and trees
whose paths are texts, and there none is (`Stray.none`).
-/

/-- The characters that stand for bytes which are no text.  Bytes of ASCII are one. -/
structure Stray where
  characters : List Char
  foreign : (characters.all fun character => Nat.ble 128 character.toNat) = true := by rfl
deriving DecidableEq

namespace Stray

/-- Every path is a text. -/
def none : Stray := { characters := [] }

instance : Inhabited Stray := ⟨none⟩

/-- Whether a name is read as a text. -/
def isText (stray : Stray) (name : Text) : Bool :=
  name.all fun character => !stray.characters.contains character

/-- What a name is shown as. -/
def shown (stray : Stray) (name : Text) : Text :=
  name.map fun character =>
    if stray.characters.contains character then '\uFFFD' else character

variable {stray : Stray} {name other : Text}

theorem isText_iff :
    stray.isText name = true ↔ ∀ character ∈ name, character ∉ stray.characters := by
  simp [isText]

theorem isText_none (name : Text) : none.isText name = true :=
  isText_iff.mpr fun _ _ => List.not_mem_nil

theorem isText_append :
    stray.isText (name ++ other) = true ↔ stray.isText name = true ∧ stray.isText other = true := by
  simp only [isText_iff]
  exact List.forall_mem_append

theorem isText_of_ascii (ascii : ∀ character ∈ name, character.toNat < 128) :
    stray.isText name = true := by
  rw [isText_iff]
  intro character member listed
  have foreign := Nat.le_of_ble_eq_true (List.all_eq_true.mp stray.foreign character listed)
  have within := ascii character member
  omega

/-- A text is shown as it is. -/
theorem shown_of_isText (text : stray.isText name = true) : stray.shown name = name := by
  rw [isText_iff] at text
  unfold shown
  rw [List.map_congr_left, List.map_id]
  intro character member
  apply if_neg
  rw [List.contains_iff_mem]
  exact text character member

end Stray
end PageComposer
