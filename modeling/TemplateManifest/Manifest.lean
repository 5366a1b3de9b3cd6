import TemplateManifest.Asset.Table
import TemplateManifest.Template.Addon

/-!
The manifest of a template: its compiled text and all that it refers to.
-/

namespace TemplateManifest

/-- The compiled text of a template, the templates it includes with their paths, the globals,
    extensions and filters it uses, and its assets. -/
structure Manifest where
  precompiled : String
  dependencies : List (String × Path)
  globals : List String
  extensions : List Extension
  filters : List FilterAddon
  assets : List AssetEntry
deriving Repr, Inhabited

/-- What a template is processed with. -/
structure ProcessOptions where
  /-- The directories of templates, the best first. -/
  searchPaths : List Path := []
  /-- The directories of assets, the best first. -/
  assetsPaths : List Path := []
  /-- The names of the declared globals. -/
  globals : List String := []
  /-- The declared extensions with the paths of their modules. -/
  extensions : List (String × Path) := []
  /-- The declared filters with the paths of their modules. -/
  filters : List (String × Path) := []
  language : LanguageOptions := {}
  /-- The variable that the compiled module is bound to. -/
  moduleVar : String := "template"
deriving Repr, Inhabited

/-- Declarations in the order of their names. -/
def inNameOrder {α : Type} (declared : List (String × α)) : List (String × α) :=
  declared.mergeSort fun a b => decide (a.1 ≤ b.1)

/-- The items whose key is not among the keys `seen`, each key once. -/
def distinctFrom {α : Type} (key : α → String) (seen : List String) : List α → List α
  | [] => []
  | item :: items =>
    if seen.contains (key item) then distinctFrom key seen items
    else item :: distinctFrom key (key item :: seen) items

/-- The items with the first occurrence of each key. -/
def distinctBy {α : Type} (key : α → String) (items : List α) : List α :=
  distinctFrom key [] items

end TemplateManifest
