import TemplateManifest.Asset.Path
import TemplateManifest.Failure
import TemplateManifest.Template.Walk
import TemplateManifest.Warning

/-!
What a template refers to: other templates, declared globals, extensions and filters, and
assets. References come in the order in which they are written; of the declared names, those
that are used come in the order of their declaration.
-/

namespace TemplateManifest

/-- The candidates that some node of a category bears out, in their own order. -/
def Template.used {α : Type} (template : Template) (category : Category) (candidates : List α)
    (bears : α → Node → Bool) : List α :=
  let nodes := template.findAll category
  candidates.filter fun candidate => nodes.any (bears candidate)

/-- A reference to a template: its name, or a warning about a computed one. -/
def Node.templateReference (template : String) (node : Node) : Except Warning String :=
  match node with
  | .inclusion _ _ (.literal _ (.str name)) => .ok name
  | _ => .error (.computedInclusion template node.describe node.pos)

/-- What one node says about assets. -/
inductive AssetCall where
  | asset (path : AssetPath)
  | skipped (warning : Warning)
  /-- An operand that cannot be part of a path. -/
  | refused (operand : Node)
deriving Repr, Inhabited

/-- What a call of the asset function says; its first argument counts. -/
def Node.assetCall? (template : String) : Node → Option AssetCall
  | .call pos (.symbol _ callee) args _ =>
    if callee ≠ assetFunction then none
    else
      match args with
      | [] => some (.skipped (.skippedAsset template pos none))
      | .literal _ (.str path) :: _ => some (.asset (.static path))
      | .binary p .add left right :: _ =>
        match (Node.binary p .add left right).fragments with
        | .ok fragments => some (.asset (.dynamic fragments))
        | .error operand => some (.refused operand)
      | arg :: _ => some (.skipped (.skippedAsset template pos (some arg.describe)))
  | _ => none

/-- The paths among some calls up to the first refused operand, and the warnings up to there. -/
def collectAssets : List AssetCall → List Warning × Except Node (List AssetPath)
  | [] => ([], .ok [])
  | .refused operand :: _ => ([], .error operand)
  | .skipped warning :: calls =>
    let (warnings, paths) := collectAssets calls
    (warning :: warnings, paths)
  | .asset path :: calls =>
    let (warnings, paths) := collectAssets calls
    (warnings, paths.map (path :: ·))

namespace Template

/-- The references to other templates, with warnings in place of the computed ones. -/
def templateReferences (template : Template) : List (Except Warning String) :=
  (template.findAll .inclusion).map (Node.templateReference template.name)

/-- The names of the templates that a template includes. -/
def includedNames (template : Template) : List String :=
  template.templateReferences.filterMap Except.toOption

/-- The warnings about computed inclusions. -/
def inclusionWarnings (template : Template) : List Warning :=
  template.templateReferences.filterMap fun reference =>
    match reference with
    | .ok _ => none
    | .error warning => some warning

/-- The declared globals that the template calls. -/
def usedGlobals (template : Template) (globals : List String) : List String :=
  template.used .functionCall globals fun name node => node.calleeName? = some name

/-- The declared filters that the template applies. -/
def usedFilters (template : Template) (filters : List FilterAddon) : List FilterAddon :=
  template.used .filterCall filters fun f node =>
    match node with
    | .filter _ name _ _ _ => name = f.name
    | _ => false

/-- The declared extensions that the template calls. -/
def usedExtensions (template : Template) (extensions : List Extension) : List Extension :=
  template.used .extensionCall extensions fun e node =>
    match node with
    | .extensionCall _ site _ _ _ _ _ => e.answers site
    | _ => false

/-- What the template says about assets. -/
def assetCalls (template : Template) : List AssetCall :=
  (template.findAll .functionCall).filterMap (Node.assetCall? template.name)

/-- The failure of an operand that cannot be part of a path. -/
def unsupportedOperand (template : Template) (operand : Node) : Failure :=
  .unsupported template.name operand.describe operand.pos

/-- The paths of the assets, or the first operand that cannot be part of one. -/
def assetPaths (template : Template) : Except Failure (List AssetPath) :=
  (collectAssets template.assetCalls).2.mapError template.unsupportedOperand

/-- The warnings about skipped calls of the asset function. -/
def assetWarnings (template : Template) : List Warning :=
  (collectAssets template.assetCalls).1

end Template

end TemplateManifest
