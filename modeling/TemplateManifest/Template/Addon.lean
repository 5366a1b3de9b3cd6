import TemplateManifest.Path
import TemplateManifest.Template.Delimiters
import TemplateManifest.Template.Node

/-!
Custom tags and filters, and the environment in which a template is read: its options and the
extensions and filters declared for it.
-/

namespace TemplateManifest

/-- How a custom tag names its extension: by the declared name or by the loaded instance. -/
inductive Identity where
  | name
  | handle
deriving DecidableEq, Repr, Inhabited

/-- The form of a custom tag's arguments. -/
inductive SignatureForm where
  /-- In parentheses, or bare up to the end of the tag. -/
  | tolerant
  /-- In parentheses. -/
  | strict
  /-- One expression. -/
  | expression
  /-- None. -/
  | none
deriving DecidableEq, Repr, Inhabited

/-- The extension that a scripted tag names. -/
inductive SiteForm where
  | own (identity : Identity)
  | fixed (site : Site)
deriving DecidableEq, Repr, Inhabited

/-- The node that a scripted tag stands for. -/
inductive ResultForm where
  /-- A call of the extension. -/
  | call
  /-- A call of the extension that gets the nodes of the bodies as further arguments. -/
  | bodiesAsArguments
  /-- An output of the arguments and of the nodes of the bodies. -/
  | output
  /-- The first argument itself, or a call of the extension when there is none. -/
  | firstArgument
deriving DecidableEq, Repr, Inhabited

/-- A custom tag described step by step. -/
structure TagScript where
  /-- A word that may follow the tag name. -/
  skipped : Option String := none
  /-- A refusal of the tag at this point. -/
  refusal : Option String := none
  signature : SignatureForm := .tolerant
  /-- For each body, the names of the tags that may close it. -/
  bodies : List (List String) := []
  site : SiteForm := .own .name
  result : ResultForm := .call
  method : String := "run"
  callIsAsync : Bool := false
deriving DecidableEq, Repr, Inhabited

/-- How a custom tag is read. -/
inductive TagForm where
  /-- Arguments and, if `hasBody`, a body up to the tag named `end` and the tag's name; it
      stands for a call of the extension's method `run`. -/
  | standard (hasBody : Bool) (identity : Identity) (isAsync : Bool)
  | scripted (script : TagScript)
deriving DecidableEq, Repr, Inhabited

/-- Calls of the extension must be awaited, whatever the call itself says. -/
def TagForm.isAsync : TagForm → Bool
  | .standard _ _ isAsync => isAsync
  | .scripted _ => false

/-- What a module provides. -/
inductive Addon where
  | extension (tags : List String) (form : TagForm)
  | filter (isAsync : Bool)
deriving DecidableEq, Repr, Inhabited

/-- A declared extension and what its module provides. -/
structure Extension where
  name : String
  modulePath : Path
  handle : Handle
  tags : List String
  form : TagForm
deriving DecidableEq, Repr, Inhabited

/-- A declared filter and what its module provides. -/
structure FilterAddon where
  name : String
  modulePath : Path
  handle : Handle
  isAsync : Bool
deriving DecidableEq, Repr, Inhabited

/-- The site names this extension. -/
def Extension.answers (e : Extension) : Site → Bool
  | .byName name => e.name = name
  | .byHandle handle => e.handle = handle

/-- What a template is read and compiled against. -/
structure Environment where
  options : LanguageOptions := {}
  extensions : List Extension := []
  filters : List FilterAddon := []
deriving Repr, Inhabited

namespace Environment

/-- The extension that owns a tag: the first to claim it. -/
def tagOwner? (env : Environment) (tag : String) : Option Extension :=
  env.extensions.find? fun e => e.tags.contains tag

/-- The extension that a call site names. -/
def extension? (env : Environment) (site : Site) : Option Extension :=
  env.extensions.find? fun e => e.answers site

/-- The filter of a name. -/
def filter? (env : Environment) (name : String) : Option FilterAddon :=
  env.filters.find? fun f => f.name = name

/-- A tag claimed again: the tag, the extension that claims it, and its owner. -/
structure TagClash where
  tag : String
  claimant : String
  owner : String
deriving DecidableEq, Repr, Inhabited

/-- The clashes among claims, each a tag and the claiming extension, given the claims before
    them, the latest first. -/
def clashesAfter (earlier : List (String × String)) :
    List (String × String) → List TagClash
  | [] => []
  | (tag, name) :: claims =>
    match earlier.find? fun claim => claim.1 = tag with
    | some (_, owner) => ⟨tag, name, owner⟩ :: clashesAfter earlier claims
    | none => clashesAfter ((tag, name) :: earlier) claims

/-- The tags that are claimed more than once, in the order of the later claims. -/
def tagClashes (env : Environment) : List TagClash :=
  clashesAfter [] (env.extensions.flatMap fun e => e.tags.map fun tag => (tag, e.name))

end Environment

end TemplateManifest
