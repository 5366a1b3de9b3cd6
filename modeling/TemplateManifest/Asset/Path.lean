import TemplateManifest.Compile.Vocabulary
import TemplateManifest.Script.Text

/-!
The paths of static assets as templates write them: a string, or a sum of literals and
variables whose value is known only when the template runs.
-/

namespace TemplateManifest

/-- An operand of a computed path. -/
inductive Fragment where
  | literal (value : Literal)
  | symbol (name : String)
deriving DecidableEq, Repr, Inhabited

namespace Fragment

/-- The fragment inside an expression. -/
def text : Fragment → String
  | literal value => (Vocabulary.literal value).text
  | symbol name => name

/-- The text that a literal fragment contributes to the path. -/
def knownText? : Fragment → Option String
  | literal value => some value.asText
  | symbol _ => none

/-- The variable that a fragment stands for. -/
def variableName? : Fragment → Option String
  | literal _ => none
  | symbol name => some name

end Fragment

/-- The path of an asset. -/
inductive AssetPath where
  /-- A path that is written out. -/
  | static (path : String)
  /-- A path that is the sum of its fragments. -/
  | dynamic (fragments : List Fragment)
deriving DecidableEq, Repr, Inhabited

/-- The text before the last slash, unless that slash is missing or comes first. -/
def directoryText? (path : List Char) : Option (List Char) :=
  match path.reverse.dropWhile (· ≠ '/') with
  | [] | [_] => none
  | _ :: directory => some directory.reverse

namespace AssetPath

/-- The path as an expression. Two paths count as the same when their expressions agree. -/
def expression : AssetPath → String
  | static path => Text.quote path
  | dynamic fragments => String.intercalate " + " (fragments.map Fragment.text)

/-- The variables of a path from left to right. -/
def variableNames : AssetPath → List String
  | static _ => []
  | dynamic fragments => fragments.filterMap Fragment.variableName?

/-- The text before the first variable. -/
def knownStart (fragments : List Fragment) : String :=
  String.join ((fragments.takeWhile fun f => f.knownText?.isSome).filterMap Fragment.knownText?)

/-- The name that is looked up in the asset directories: a static path itself, and for a dynamic
    one the directory that its known start spells, or the asset directory. -/
def lookupName : AssetPath → String
  | static path => path
  | dynamic fragments =>
    match directoryText? (knownStart fragments).toList with
    | some directory => String.ofList directory
    | none => "."

end AssetPath

/-- The operands of a sum of literals and variables, or the first operand that is neither. -/
def Node.fragments : Node → Except Node (List Fragment)
  | .binary _ .add left right =>
    match left.fragments with
    | .error node => .error node
    | .ok before =>
      match right.fragments with
      | .error node => .error node
      | .ok after => .ok (before ++ after)
  | .literal _ value => .ok [.literal value]
  | .symbol _ name => .ok [.symbol name]
  | node => .error node

end TemplateManifest
