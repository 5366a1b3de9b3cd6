import TemplateManifest.Toml.Value

/-!
Tables under construction. Where a table came from decides what may still be added to it: a
header may define a table once, and a dotted key may add only to tables that dotted keys made.
-/

namespace TemplateManifest

namespace Toml

/-- Where a table came from. -/
inductive Origin where
  /-- A longer header passes through it. -/
  | passed
  /-- A dotted key passes through it. -/
  | dotted
  /-- A header of its own. -/
  | header
deriving DecidableEq, Repr

/-- A part of a document under construction. -/
inductive Part where
  | value (value : Value)
  | table (origin : Origin) (entries : List (String × Part))
  /-- Tables under one header in double brackets; additions go to the last one. -/
  | tables (earlier : List (List (String × Part))) (last : List (String × Part))

/-- The entries of a table under construction. -/
abbrev Parts := List (String × Part)

namespace Parts

/-- The part of a key. -/
def part? (parts : Parts) (key : String) : Option Part :=
  (List.find? (fun entry => entry.1 = key) parts).map (·.2)

/-- The parts with a key set: in its place, or at the end. -/
def put (parts : Parts) (key : String) (part : Part) : Parts :=
  if (parts.part? key).isSome then
    List.map (fun entry => if entry.1 = key then (key, part) else entry) parts
  else parts ++ [(key, part)]

/-- Changes the table at the end of a path, with the tables on the way made as needed. The flag
    says that the path belongs to a dotted key, which must not enter a table with a header. -/
def update? (dotted : Bool) (change : Origin → Parts → Option Parts) :
    List String → Origin → Parts → Option Parts
  | [], origin, parts => change origin parts
  | key :: path, _, parts =>
    match parts.part? key with
    | none =>
      let origin : Origin := if dotted then .dotted else .passed
      (update? dotted change path origin []).map fun inner => parts.put key (.table origin inner)
    | some (.table origin inner) =>
      if dotted ∧ origin = .header then none
      else (update? dotted change path origin inner).map
        fun inner => parts.put key (.table origin inner)
    | some (.tables earlier last) =>
      (update? dotted change path .header last).map
        fun last => parts.put key (.tables earlier last)
    | some (.value _) => none

/-- Defines the table of a header; the table may exist if longer headers made it. -/
def define? (key : String) (_ : Origin) (parts : Parts) : Option Parts :=
  match parts.part? key with
  | none => some (parts.put key (.table .header []))
  | some (.table .passed inner) => some (parts.put key (.table .header inner))
  | _ => none

/-- Adds a table to those of a header in double brackets. -/
def extend? (key : String) (_ : Origin) (parts : Parts) : Option Parts :=
  match parts.part? key with
  | none => some (parts.put key (.tables [] []))
  | some (.tables earlier last) => some (parts.put key (.tables (earlier ++ [last]) []))
  | _ => none

/-- Sets a key that is still free. The flag says that the key stands after a dotted path, which
    must end in a table made by dotted keys. -/
def set? (afterPath : Bool) (key : String) (value : Value) (origin : Origin) (parts : Parts) :
    Option Parts :=
  if afterPath ∧ origin ≠ .dotted then none
  else
    match parts.part? key with
    | none => some (parts.put key (.value value))
    | some _ => none

/-- Splits the last key off a path. -/
def splitLast? : List String → Option (List String × String)
  | [] => none
  | [key] => some ([], key)
  | key :: path => (splitLast? path).map fun (path, last) => (key :: path, last)

/-- The parts with a header. -/
def addHeader? (parts : Parts) (path : List String) : Option Parts := do
  let (path, key) ← splitLast? path
  update? false (define? key) path .header parts

/-- The parts with a header in double brackets. -/
def addTable? (parts : Parts) (path : List String) : Option Parts := do
  let (path, key) ← splitLast? path
  update? false (extend? key) path .header parts

/-- The parts with a value under a key of the table of a header. -/
def addValue? (parts : Parts) (header path : List String) (value : Value) : Option Parts := do
  let (path, key) ← splitLast? path
  update? false (update? true (set? (!path.isEmpty) key value) path) header .header parts

end Parts

mutual

/-- A finished part. -/
def Part.finished : Part → Value
  | .value v => v
  | .table _ entries => .table (Part.finishedEntries entries)
  | .tables earlier last =>
    .array (Part.finishedTables earlier ++ [.table (Part.finishedEntries last)])

/-- Finished entries. -/
def Part.finishedEntries : List (String × Part) → List (String × Value)
  | [] => []
  | (key, part) :: entries => (key, part.finished) :: Part.finishedEntries entries

/-- Finished tables. -/
def Part.finishedTables : List (List (String × Part)) → List Value
  | [] => []
  | entries :: rest => .table (Part.finishedEntries entries) :: Part.finishedTables rest

end

end Toml

end TemplateManifest
