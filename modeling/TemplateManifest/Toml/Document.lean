import TemplateManifest.Toml.Outline
import TemplateManifest.Toml.Table

/-!
The tables that TOML documents describe. An outline is given its meaning line by line, and the
first fault counts.
-/

namespace TemplateManifest

namespace Toml

/-- Why a document cannot be used. -/
inductive Fault where
  /-- Some place in it does not hold what is expected there. -/
  | malformed
  /-- A key has too many parts. -/
  | longKey
deriving DecidableEq, Repr

/-- The words for a fault. -/
def Fault.message : Fault → String
  | .malformed => "TOML parse error"
  | .longKey => "recursion limit\n"

/-- A result that has to be there. -/
def expected {α : Type} (result : Option α) : Except Fault α :=
  result.elim (.error .malformed) .ok

/-- How many parts a key may have. -/
def keyLimit : Nat := 80

/-- The path that a key spells. -/
def WrittenKey.path (key : WrittenKey) : Except Fault (List String) := do
  let path ← expected (key.mapM keyPart?)
  if keyLimit < path.length then .error .longKey else .ok path

/-- The value that a string or a word spells. -/
def scalar? (text : List Char) : Option Value :=
  match text with
  | '"' :: _ | '\'' :: _ => (string? text).map .string
  | _ => wordValue? text

mutual

/-- The value that is written. -/
def Written.value : Written → Except Fault Value
  | .text written => expected (scalar? written)
  | .array items => (Written.values items).map .array
  | .table fields =>
    (Written.parts [] fields).map fun parts => .table (Part.finishedEntries parts)

/-- The values that are written. -/
def Written.values : List Written → Except Fault (List Value)
  | [] => .ok []
  | item :: items => do
    let value ← item.value
    let values ← Written.values items
    return value :: values

/-- A table in braces, after some of its fields. -/
def Written.parts (parts : Parts) : List (WrittenKey × Written) → Except Fault Parts
  | [] => .ok parts
  | (key, item) :: fields => do
    let path ← key.path
    let value ← item.value
    let parts ← expected (parts.addValue? [] path value)
    Written.parts parts fields

end

/-- A document of which some lines have been read. -/
structure Draft where
  /-- The header that the next line stands under. -/
  header : List String := []
  parts : Parts := []

/-- The draft with one more line. -/
def Draft.add (draft : Draft) : Line → Except Fault Draft
  | .header key => do
    let path ← key.path
    return ⟨path, ← expected (draft.parts.addHeader? path)⟩
  | .tables key => do
    let path ← key.path
    return ⟨path, ← expected (draft.parts.addTable? path)⟩
  | .field key item => do
    let path ← key.path
    let value ← item.value
    return { draft with parts := ← expected (draft.parts.addValue? draft.header path value) }

/-- The entries of the table that a document describes. -/
def parse (source : String) : Except Fault (List (String × Value)) := do
  let lines ← expected (outline? source)
  let draft ← lines.foldlM Draft.add {}
  return Part.finishedEntries draft.parts

end Toml

end TemplateManifest
