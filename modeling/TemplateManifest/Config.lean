import TemplateManifest.Diagnosis
import TemplateManifest.Disk.Basic
import TemplateManifest.Manifest
import TemplateManifest.Text.WhiteSpace
import TemplateManifest.Toml.Document

/-!
The configuration file: everything that a template is processed with and that the template does
not say itself. Every key may be left out; an unknown key is an error. Relative paths count from
the directory of the file.
-/

namespace TemplateManifest

/-- A configuration. -/
structure Config where
  searchPaths : List Path := []
  assetsPaths : List Path := []
  language : LanguageOptions := {}
  moduleVar : String := "template"
  globals : List (String × Toml.Value) := []
  extensions : List (String × Path) := []
  filters : List (String × Path) := []
deriving Repr, Inhabited

/-- The delimiters with the one of a name replaced. Other names do not count, but their values
    must be readable. -/
def Delimiters.withField? (d : Delimiters) (name : String) (value : Toml.Value) :
    Option Delimiters :=
  match name with
  | "block_start" => value.text?.map fun text => { d with blockStart := text }
  | "block_end" => value.text?.map fun text => { d with blockEnd := text }
  | "variable_start" => value.text?.map fun text => { d with variableStart := text }
  | "variable_end" => value.text?.map fun text => { d with variableEnd := text }
  | "comment_start" => value.text?.map fun text => { d with commentStart := text }
  | "comment_end" => value.text?.map fun text => { d with commentEnd := text }
  | _ => if value.all Toml.Value.isReadable then some d else none

/-- The delimiters of a table, or of an array that lists them in their order. -/
def Delimiters.ofValue? (value : Toml.Value) : Option Delimiters :=
  let d : Delimiters := {}
  let fields : Option (List (String × Toml.Value)) :=
    match value with
    | .array items => some ((d.named.map (·.1)).zip items)
    | value => value.entries?
  fields.bind fun fields => fields.foldlM (fun d (name, value) => d.withField? name value) d

namespace Config

/-- The paths of an array of strings. -/
def paths? (value : Toml.Value) : Option (List Path) :=
  value.texts?.map fun texts => texts.map Path.mk

/-- The paths of a table of strings. -/
def modulePaths? (value : Toml.Value) : Option (List (String × Path)) :=
  value.textEntries?.map fun entries => entries.map fun (name, text) => (name, ⟨text⟩)

/-- The globals of a table. -/
def globals? (value : Toml.Value) : Option (List (String × Toml.Value)) :=
  value.entries?.filter (Toml.Value.allEntries Toml.Value.isNarrow)

/-- The configuration with the value of one key. -/
def withKey? (c : Config) (key : String) (value : Toml.Value) : Option Config :=
  let option (change : Bool → LanguageOptions) : Option Config :=
    value.boolean?.map fun flag => { c with language := change flag }
  match key with
  | "search_paths" => (paths? value).map fun paths => { c with searchPaths := paths }
  | "assets_paths" => (paths? value).map fun paths => { c with assetsPaths := paths }
  | "autoescape" => option fun flag => { c.language with autoescape := flag }
  | "throw_on_undefined" => option fun flag => { c.language with throwOnUndefined := flag }
  | "trim_blocks" => option fun flag => { c.language with trimBlocks := flag }
  | "lstrip_blocks" => option fun flag => { c.language with lstripBlocks := flag }
  | "module_var" => value.text?.map fun text => { c with moduleVar := text }
  | "globals" => (globals? value).map fun entries => { c with globals := entries }
  | "extensions" => (modulePaths? value).map fun paths => { c with extensions := paths }
  | "filters" => (modulePaths? value).map fun paths => { c with filters := paths }
  | "tags" =>
    (Delimiters.ofValue? value).map fun d =>
      { c with language := { c.language with delimiters := d } }
  | _ => none

/-- The configuration that a document describes. -/
def ofDocument (source : String) : Except Toml.Fault Config := do
  let entries ← Toml.parse source
  Toml.expected (entries.foldlM (fun c (key, value) => c.withKey? key value) {})

/-- Why the configuration cannot be used: its delimiters clash, or the module variable is blank. -/
def failure? (c : Config) : Option Failure :=
  match c.language.delimiters.fault? with
  | some fault => some (.config fault.message)
  | none =>
    if (Text.trimStart c.moduleVar.toList).isEmpty then
      some (.config "module_var must not be empty")
    else none

/-- The configuration with relative paths seen from a directory. -/
def rebased (c : Config) (base : Path) : Config :=
  let rebase (declared : List (String × Path)) : List (String × Path) :=
    declared.map fun (name, path) => (name, base.join path)
  { c with
    searchPaths := c.searchPaths.map base.join
    assetsPaths := c.assetsPaths.map base.join
    extensions := rebase c.extensions
    filters := rebase c.filters }

/-- The options of a run. -/
def options (c : Config) : ProcessOptions :=
  { searchPaths := c.searchPaths, assetsPaths := c.assetsPaths
    globals := c.globals.map (·.1), extensions := c.extensions, filters := c.filters
    language := c.language, moduleVar := c.moduleVar }

/-- What is known about a text that is no document of the expected shape. -/
def parseTrouble (activity : String) (fault : Toml.Fault) : Trouble :=
  ⟨[activity], .note fault.message⟩

/-- The configuration of the file at a path, given what stands there. -/
def ofEntry (path : Path) (entry : FileEntry) : Except Trouble Config :=
  match entry.text with
  | .error error => .error ⟨["Failed to read config file: " ++ path.text], .file error⟩
  | .ok source =>
    match ofDocument source with
    | .error fault => .error (parseTrouble ("Failed to parse config file: " ++ path.text) fault)
    | .ok c =>
      match c.failure? with
      | some failure => .error (.ofFailure failure)
      | none => .ok (c.rebased (path.parent?.getD ⟨"."⟩))

/-- The name of the configuration file that is used when none is named. -/
def defaultName : Path := ⟨"tmpldeps.toml"⟩

/-- Loads the configuration that is named, else the one in the working directory, if there is
    one, else the default one. -/
def load (named : Option Path) (cwd : Path) : Session (Except Trouble Config) := do
  match named with
  | some path => return ofEntry path (← Session.entry (path.absolute cwd))
  | none =>
    let path := cwd.join defaultName
    let entry ← Session.entry path
    return if entry.isPresent then ofEntry path entry else .ok {}

end Config

end TemplateManifest
