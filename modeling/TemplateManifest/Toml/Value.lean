import TemplateManifest.Number.Double

/-!
Values of TOML documents.
-/

namespace TemplateManifest

namespace Toml

/-- A value. A date or a time is kept as its text. -/
inductive Value where
  | string (text : String)
  | integer (value : Int)
  | float (value : Double)
  | boolean (value : Bool)
  | moment (text : String)
  | array (items : List Value)
  | table (entries : List (String × Value))
  /-- A number that is too large to be read. It does no harm where nobody reads it. -/
  | excess
deriving Repr, Inhabited

/-- The key under which a date stands where a table is asked for. -/
def momentKey : String := "$__toml_private_datetime"

namespace Value

/-- The entries of a table; a date counts as a table of one entry. -/
def entries? : Value → Option (List (String × Value))
  | table entries => some entries
  | moment text => some [(momentKey, .string text)]
  | _ => none

/-- The text of a string. -/
def text? : Value → Option String
  | string text => some text
  | _ => none

/-- A truth value. -/
def boolean? : Value → Option Bool
  | boolean value => some value
  | _ => none

/-- The texts of an array of strings. -/
def texts? : Value → Option (List String)
  | array items => items.mapM text?
  | _ => none

/-- The entries of a table of strings. -/
def textEntries? (value : Value) : Option (List (String × String)) := do
  (← value.entries?).mapM fun (key, entry) => entry.text?.map (key, ·)

/-- The value of an integer, which is too large where it does not fit into 128 bits, with or
    without a sign. -/
def ofInteger (value : Int) : Value :=
  if -0x80000000000000000000000000000000 ≤ value ∧ value < 0x100000000000000000000000000000000 then
    integer value
  else excess

/-- The value is no number that is too large to be read. -/
def isReadable : Value → Bool
  | excess => false
  | _ => true

/-- The value is no number that needs more than 64 bits, with or without a sign. -/
def isNarrow : Value → Bool
  | integer value => -0x8000000000000000 ≤ value && value < 0x10000000000000000
  | value => value.isReadable

mutual

/-- A condition holds of all values that are no arrays or tables. -/
def all (condition : Value → Bool) : Value → Bool
  | array items => allItems condition items
  | table entries => allEntries condition entries
  | value => condition value

/-- A condition holds of all such values in some items. -/
def allItems (condition : Value → Bool) : List Value → Bool
  | [] => true
  | item :: items => all condition item && allItems condition items

/-- A condition holds of all such values in some entries. -/
def allEntries (condition : Value → Bool) : List (String × Value) → Bool
  | [] => true
  | (_, value) :: entries => all condition value && allEntries condition entries

end

end Value

end Toml

end TemplateManifest
