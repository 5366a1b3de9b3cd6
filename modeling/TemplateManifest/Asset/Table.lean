import TemplateManifest.Asset.Path
import TemplateManifest.Path
import TemplateManifest.Text.Search
import TemplateManifest.Text.WordCharacter

/-!
Looking assets up in a table. In the emitted text every path of an asset is replaced by a call
that gives the asset's entry in the table of the running template; the values of the variables
of a computed path go along as further arguments.
-/

namespace TemplateManifest

open Text

/-- An asset and the key of its entry in the table. -/
structure AssetEntry where
  path : Path
  id : String
  reference : AssetPath
deriving DecidableEq, Repr, Inhabited

/-- The table of assets of the running template. -/
def assetTable : String := "__tmpldepsAssets"

namespace AssetEntry

/-- The call that gives the entry, with the values of variables as further arguments. -/
def lookupText (entry : AssetEntry) (values : List String) : String :=
  assetTable ++ ".get(" ++ Script.commaJoin (quote entry.id :: values) ++ ")"

end AssetEntry

namespace Fragment

/-- A variable that is looked up at the head of a text, and what follows. -/
def afterLookup? (name : String) (text : List Char) : Option (List Char × List Char) :=
  let lookup := (Vocabulary.contextLookup name).text.toList
  (after? lookup text).map fun rest => (lookup, rest)

/-- A temporary at the head of a text, and what follows. -/
def afterTemp? (text : List Char) : Option (List Char × List Char) :=
  match after? ['t', '_'] text with
  | none => none
  | some rest =>
    let digits := rest.takeWhile Char.isDigit
    if digits.isEmpty then none else some ('t' :: '_' :: digits, rest.dropWhile Char.isDigit)

/-- The variable of a macro parameter at the head of a text up to a word boundary, and what
    follows. -/
def afterParam? (name : String) (text : List Char) : Option (List Char × List Char) :=
  let param := (Script.Variable.param name).text.toList
  match after? param text with
  | none => none
  | some rest => if isWordBoundary param.getLast? rest.head? then some (param, rest) else none

/-- The compiled form of a fragment at the head of a text: what it gives as a value, if it is a
    variable, and what follows. -/
def compiledAt? (fragment : Fragment) (text : List Char) :
    Option (List (List Char) × List Char) :=
  match fragment with
  | literal value =>
    (after? (Vocabulary.literal value).text.toList text).map fun rest => ([], rest)
  | symbol name =>
    ((afterLookup? name text).or ((afterTemp? text).or (afterParam? name text))).map
      fun (value, rest) => ([value], rest)

/-- The compiled form of a sum of fragments at the head of a text: the values of its variables,
    and what follows. -/
def sumAt? : List Fragment → List Char → Option (List (List Char) × List Char)
  | [], text => some ([], text)
  | [fragment], text => fragment.compiledAt? text
  | fragment :: fragments, text =>
    match fragment.compiledAt? text with
    | none => none
    | some (values, rest) =>
      match after? [' ', '+', ' '] rest with
      | none => none
      | some rest => (sumAt? fragments rest).map fun (more, rest) => (values ++ more, rest)

end Fragment

namespace AssetEntry

/-- The path of the entry at the head of a text: the call in its place, and the number of
    characters that the path takes. -/
def replacementAt? (entry : AssetEntry) (text : List Char) : Option (List Char × Nat) :=
  match entry.reference with
  | .static path =>
    let literal := quoteChars path.toList
    if startsWith literal text then some ((entry.lookupText []).toList, literal.length) else none
  | .dynamic fragments =>
    (Fragment.sumAt? fragments text).map fun (values, rest) =>
      ((entry.lookupText (values.map String.ofList)).toList, text.length - rest.length)

/-- The text with every occurrence of the entry's path replaced. -/
def replaceAll (entry : AssetEntry) (text : List Char) : List Char :=
  substitute entry.replacementAt? text

end AssetEntry

/-- The emitted text with the paths of all entries replaced, one entry after the other. -/
def replaceAssets (entries : List AssetEntry) (text : String) : String :=
  String.ofList (entries.foldl (fun text entry => entry.replaceAll text) text.toList)

end TemplateManifest
