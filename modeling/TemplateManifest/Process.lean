import TemplateManifest.Compile.Source
import TemplateManifest.Manifest
import TemplateManifest.Reference
import TemplateManifest.Resolve.Join

/-!
From the source of a template to its manifest. The declared addons are loaded first, because
they extend the grammar; then the source is parsed and compiled, and only then are references
looked up: first those to templates, then those to assets. The first failure ends the run.
-/

namespace TemplateManifest

/-- What the module of an addon provides, or why it cannot be loaded. -/
abbrev Loader := AddonKind → String → Path → Except String Addon

/-- A supply of new identities. -/
structure Identities where
  extension : Nat → String
  filter : Nat → String
  asset : Nat → String

/-- What a run works with besides the template and its options. -/
structure World where
  /-- The working directory. -/
  cwd : Path
  load : Loader
  probe : Probe
  identities : Identities

/-- Why a run ends early. -/
inductive Stop where
  | failed (failure : Failure)
  /-- An answer that the run waits for never comes. -/
  | never
deriving DecidableEq, Repr, Inhabited

/-- What a run leaves behind besides its result. -/
structure Trace where
  /-- The paths that were asked for, in order. -/
  asked : List Path := []
  warnings : List Warning := []
deriving DecidableEq, Repr, Inhabited

/-- A step of a run. -/
abbrev Run := EStateM Stop Trace

namespace Run

/-- The value, or the end of the run with a failure. -/
def ofExcept {α : Type} : Except Failure α → Run α
  | .ok value => return value
  | .error failure => throw (.failed failure)

/-- Notes some warnings. -/
def warn (warnings : List Warning) : Run Unit :=
  modify fun t => { t with warnings := t.warnings ++ warnings }

/-- Looks some names up, all at once. -/
def resolve (world : World) (kind : ReferenceKind) (lookups : List Lookup) :
    Run (List (String × Path)) := do
  modify fun t => { t with asked := t.asked ++ Lookup.asked world.probe lookups }
  match Lookup.join world.probe lookups with
  | .found paths => return paths
  | .missing l => throw (.failed (.notFound kind l.name l.candidates))
  | .never => throw .never

end Run

/-- Loads a declared extension. -/
def loadExtension (world : World) (declared : (String × Path) × Nat) :
    Except Failure Extension :=
  let ((name, modulePath), index) := declared
  match world.load .extension name modulePath with
  | .ok (.extension tags form) =>
    .ok ⟨name, modulePath, ⟨world.identities.extension index⟩, tags, form⟩
  | .ok (.filter _) =>
    .error (.addonLoad .extension name modulePath "module provides a filter, not an extension")
  | .error reason => .error (.addonLoad .extension name modulePath reason)

/-- Loads a declared filter. -/
def loadFilter (world : World) (declared : (String × Path) × Nat) :
    Except Failure FilterAddon :=
  let ((name, modulePath), index) := declared
  match world.load .filter name modulePath with
  | .ok (.filter isAsync) => .ok ⟨name, modulePath, ⟨world.identities.filter index⟩, isAsync⟩
  | .ok (.extension _ _) =>
    .error (.addonLoad .filter name modulePath "module provides an extension, not a filter")
  | .error reason => .error (.addonLoad .filter name modulePath reason)

/-- Loads the declared extensions in the order of their names. -/
def loadExtensions (world : World) (declared : List (String × Path)) :
    Except Failure (List Extension) :=
  (inNameOrder declared).zipIdx.mapM (loadExtension world)

/-- Loads the declared filters in the order of their names. -/
def loadFilters (world : World) (declared : List (String × Path)) :
    Except Failure (List FilterAddon) :=
  (inNameOrder declared).zipIdx.mapM (loadFilter world)

/-- Loads all declared addons, the extensions first. -/
def loadEnvironment (world : World) (options : ProcessOptions) : Except Failure Environment := do
  let extensions ← loadExtensions world options.extensions
  let filters ← loadFilters world options.filters
  return { options := options.language, extensions := extensions, filters := filters }

/-- The lookups of the templates that a template includes, each name once. -/
def Template.templateLookups (template : Template) (cwd : Path) (directories : List Path) :
    List Lookup :=
  (distinctBy id template.includedNames).map (Lookup.inDirectories cwd directories)

/-- The lookup of an asset. A dynamic path is named by its expression, though the directory that
    it starts with is looked up. -/
def AssetPath.lookup (cwd : Path) (directories : List Path) (asset : AssetPath) : Lookup :=
  let l := Lookup.inDirectories cwd directories asset.lookupName
  match asset with
  | .static _ => l
  | .dynamic _ => { l with name := asset.expression }

/-- The entries of some assets with their paths. -/
def assetEntries (identities : Identities) (assets : List AssetPath) (paths : List Path) :
    List AssetEntry :=
  (assets.zip paths).zipIdx.map fun ((asset, path), index) =>
    ⟨path, identities.asset index, asset⟩

/-- Makes the manifest of a template. -/
def makeManifest (world : World) (options : ProcessOptions) (name source : String) :
    Run Manifest := do
  let env ← Run.ofExcept (loadEnvironment world options)
  Run.warn (env.tagClashes.map .tagClash)
  let template ← Run.ofExcept (Template.ofSource env name source)
  Run.warn template.inclusionWarnings
  let text ← Run.ofExcept (template.compiledText env options.moduleVar)
  let dependencies ←
    Run.resolve world .template (template.templateLookups world.cwd options.searchPaths)
  Run.warn template.assetWarnings
  let paths ← Run.ofExcept template.assetPaths
  let assets := distinctBy AssetPath.expression paths
  let found ← Run.resolve world .asset (assets.map (AssetPath.lookup world.cwd options.assetsPaths))
  let entries := assetEntries world.identities assets (found.map (·.2))
  return {
    precompiled := replaceAssets entries text
    dependencies := dependencies
    globals := template.usedGlobals ((inNameOrder (options.globals.map (·, ()))).map (·.1))
    extensions := template.usedExtensions env.extensions
    filters := template.usedFilters env.filters
    assets := entries }

/-- How a run ended, and what it left behind. -/
structure Report where
  result : Except Stop Manifest
  trace : Trace

/-- Processes one template. -/
def process (world : World) (options : ProcessOptions) (name source : String) : Report :=
  match makeManifest world options name source {} with
  | .ok manifest trace => ⟨.ok manifest, trace⟩
  | .error stop trace => ⟨.error stop, trace⟩

end TemplateManifest
