import PageComposer.Config.Basic
import PageComposer.Toml.Document

namespace PageComposer
namespace Config

/-!
# Reading a configuration

Every setting may be left out, and entries that are no settings only have to be
readable.  A setting of the wrong type makes the whole configuration unreadable.
A section is a table, or a list whose items stand for its settings in order; the
items behind the last setting are not looked at.  A point in time reads as a
table of its own, with one entry.
-/

open Toml (Value Table)

/-- The truth value that a value is. -/
def boolean? : Value -> Option Bool
  | .boolean truth => some truth
  | _ => none

/-- The text that a value is. -/
def text? : Value -> Option Text
  | .string text => some text
  | _ => none

/-- The limit that a value is: a number of at most 64 bits. -/
def limit? : Value -> Option Nat
  | .integer number => if 0 ≤ number ∧ number < UInt64.size then some number.toNat else none
  | _ => none

/-- The list that a value is. -/
def list? {Item : Type} (item? : Value -> Option Item) : Value -> Option (List Item)
  | .array items => items.mapM item?
  | _ => none

/-- The kind that a value names, as a text or as the only key of a table with
nothing in it. -/
def kind? : Value -> Option Kind
  | .string name => Kind.ofName? name
  | .table [(name, .table [])] => Kind.ofName? name
  | .table [(name, .array [])] => Kind.ofName? name
  | _ => none

/-- The key under which a point in time reads as a table. -/
def momentKey : Text := "$__toml_private_datetime".toList

/-- The table that a value reads as. -/
def table? : Value -> Option Table
  | .table entries => some entries
  | .moment moment => some [(momentKey, .string moment.text)]
  | _ => none

/-- Named directories. -/
def named? (value : Value) : Option (List (Text × Path)) := do
  let entries <- table? value
  entries.mapM fun entry => (text? entry.2).map fun directory => (entry.1, ⟨directory⟩)

/-- Whether the entries of a table that are no settings can be read. -/
def othersAreReadable (settings : List String) (table : Table) : Bool :=
  table.all fun entry => settings.any (·.toList == entry.1) || entry.2.isReadable

/-- A setting of a table, or its default where the table has no such entry. -/
def setting? {Setting : Type} (table : Table) (key : String) (fallback : Setting)
    (read : Value -> Option Setting) : Option Setting :=
  match table.lookup key.toList with
  | some value => read value
  | none => some fallback

/-- The only setting of a section. -/
def section? {Setting : Type} (key : String) (fallback : Setting)
    (read : Value -> Option Setting) : Value -> Option Setting
  | .array (first :: _) => read first
  | .array [] => some fallback
  | value => do
      let table <- table? value
      if othersAreReadable [key] table then setting? table key fallback read else none

/-- The names of all settings and sections. -/
def settingNames : List String :=
  ["max_compilation_runs", "placeholder_types", "mark_regions", "paths", "exclude", "include",
    "build", "disable_gitignore"]

/-- The settings of a table. -/
def ofTable? (table : Table) : Option Config := do
  let defaults : Config := {}
  let maxRuns <- setting? table "max_compilation_runs" defaults.maxRuns limit?
  let kinds <- setting? table "placeholder_types" defaults.kinds (list? kind?)
  let markRegions <- setting? table "mark_regions" defaults.markRegions boolean?
  let named <- setting? table "paths" defaults.named named?
  let excludePatterns <- setting? table "exclude" defaults.excludePatterns
    (section? "patterns" defaults.excludePatterns (list? text?))
  let includePatterns <- setting? table "include" defaults.includePatterns
    (section? "patterns" defaults.includePatterns (list? text?))
  let targetFolder <- setting? table "build" defaults.targetFolder
    (section? "target_dir" defaults.targetFolder fun value => (text? value).map Path.mk)
  let ignoreFileDisabled <-
    setting? table "disable_gitignore" defaults.ignoreFileDisabled boolean?
  if othersAreReadable settingNames table then
    return ⟨maxRuns, kinds, markRegions, named, excludePatterns, includePatterns, targetFolder,
      ignoreFileDisabled⟩
  else none

/-- The configuration that a text describes. -/
def parse (text : Text) : Except Failure Config :=
  match Toml.parse? text >>= ofTable? with
  | some config => .ok config
  | none => .error .malformedConfig

end Config
end PageComposer
