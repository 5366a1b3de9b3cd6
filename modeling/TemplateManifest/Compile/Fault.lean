import TemplateManifest.Template.Addon
import TemplateManifest.Text.Distance

/-!
Why a syntax tree cannot be compiled, and the filters that need no declaration.
-/

namespace TemplateManifest

/-- The filters that the target runtime always provides. -/
def builtinFilters : List String :=
  ["abs", "batch", "capitalize", "center", "d", "default", "dictsort", "dump", "e", "escape",
   "first", "float", "forceescape", "groupby", "indent", "int", "join", "last", "length", "list",
   "lower", "nl2br", "random", "reject", "rejectattr", "replace", "reverse", "round", "safe",
   "select", "selectattr", "slice", "sort", "string", "striptags", "sum", "title", "trim",
   "truncate", "upper", "urlencode", "urlize", "wordcount"]

/-- A call site as messages name it. -/
def Site.describe : Site → String
  | .byName name => name
  | .byHandle handle => "<instance " ++ handle.id ++ ">"

/-- Why a syntax tree cannot be compiled. -/
inductive CompileFault where
  | invalidModuleVariable (name : String)
  /-- A filter that is neither built in nor declared, and a known one with a similar name. -/
  | unknownFilter (name : String) (similar : Option String)
  | unknownExtension (site : Site)
  | duplicateBlock (name : String)
  /-- A node that cannot stand as a statement. -/
  | noStatement (description : String) (pos : Position)
  /-- A node that has no value. -/
  | noValue (description : String) (pos : Position)
  /-- More pending blocks than the tree has nodes, which no tree reaches. -/
  | tooManyBlocks
deriving DecidableEq, Repr, Inhabited

/-- The text of a fault. -/
def CompileFault.message : CompileFault → String
  | .invalidModuleVariable name => "'" ++ name ++ "' is not a valid module variable name"
  | .unknownFilter name none => "unknown filter '" ++ name ++ "'"
  | .unknownFilter name (some similar) =>
    "unknown filter '" ++ name ++ "' (did you mean '" ++ similar ++ "'?)"
  | .unknownExtension site => "extension '" ++ site.describe ++ "' is not registered"
  | .duplicateBlock name => "block '" ++ name ++ "' defined more than once"
  | .noStatement description pos =>
    "unexpected " ++ description ++ " at line " ++ toString pos.line ++ ", column " ++
      toString pos.col
  | .noValue description pos =>
    "cannot use " ++ description ++ " as an expression at line " ++ toString pos.line ++
      ", column " ++ toString pos.col
  | .tooManyBlocks => "too many blocks"

/-- The fault of a filter that is not known in an environment. -/
def CompileFault.ofFilter (env : Environment) (name : String) : CompileFault :=
  .unknownFilter name
    (Text.closest? name (builtinFilters ++ env.filters.map fun filter => filter.name))

end TemplateManifest
