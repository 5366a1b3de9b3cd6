import TemplateManifest.AddonFile
import TemplateManifest.CommandLine.Arguments
import TemplateManifest.Report.Manifest

/-!
What the program does: it processes one template file with its configuration and prints the
manifest.
-/

namespace TemplateManifest

namespace Invocation

/-- The options of a run. Directories of the command line come before those of the
    configuration; without any directory of templates that of the template counts. -/
def options (i : Invocation) (c : Config) (cwd : Path) : ProcessOptions :=
  let options := c.options
  let searchPaths := i.searchPaths ++ options.searchPaths
  let ownDirectory :=
    match i.template.parent? with
    | some directory => if directory.text.isEmpty then cwd else directory
    | none => cwd
  { options with
    searchPaths := if searchPaths.isEmpty then [ownDirectory] else searchPaths
    assetsPaths := i.assetsPaths ++ options.assetsPaths
    moduleVar := i.moduleVar.getD options.moduleVar }

end Invocation

/-- The paths that a run may ask for. -/
def candidatePaths (world : World) (options : ProcessOptions) (name source : String) :
    List Path :=
  match (loadEnvironment world options).bind fun env => Template.ofSource env name source with
  | .error _ => []
  | .ok template =>
    let assets := (template.assetPaths.toOption.getD []).map
      (AssetPath.lookup world.cwd options.assetsPaths)
    (template.templateLookups world.cwd options.searchPaths ++ assets).flatMap Lookup.candidates

/-- The end of a run as the trouble of a command. -/
def Stop.trouble : Stop → Trouble
  | .failed failure => .ofFailure failure
  | .never => ⟨[], .note "a path was asked for and never answered"⟩

/-- How a command ended: with what it prints, or in trouble. -/
structure Ending where
  result : Except Trouble String
  warnings : List Warning := []

/-- Runs a command in a working directory. -/
def Invocation.run (i : Invocation) (identities : Identities) (cwd : Path) : Session Ending := do
  match ← Config.load i.config cwd with
  | .error t => return { result := .error t }
  | .ok c =>
    let options := i.options c cwd
    let name := i.template.text
    match (← Session.entry (i.template.absolute cwd)).text with
    | .error error =>
      return { result := .error ⟨["Failed to read template " ++ name], .file error⟩ }
    | .ok source =>
      let modules := (options.extensions ++ options.filters).map fun (_, path) => cwd.join path
      let load := AddonFile.loader (Disk.ofEntries (← Session.gather modules)) cwd
      let blind : World := ⟨cwd, load, (Disk.ofEntries []).probe, identities⟩
      let found ← Session.gather (candidatePaths blind options name source)
      let world : World := { blind with probe := (Disk.ofEntries found).probe }
      let report := process world options name source
      let printed (m : Manifest) : String := (m.item name !i.manifestOnly).pretty 0 ++ "\n"
      return ⟨(report.result.map printed).mapError Stop.trouble, report.trace.warnings⟩

end TemplateManifest
