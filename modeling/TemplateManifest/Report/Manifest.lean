import TemplateManifest.Manifest
import TemplateManifest.Report.Item

/-!
The manifest of a template as structured text.
-/

namespace TemplateManifest

namespace Manifest

/-- An addon of the manifest. -/
def addonItem (name : String) (modulePath : Path) (handle : Handle) : Item :=
  .record [("name", .string name), ("module_path", .string modulePath.text),
    ("handle", .string handle.id)]

/-- A template that is included. -/
def dependencyItem (dependency : String × Path) : Item :=
  .record [("name", .string dependency.1), ("path", .string dependency.2.text)]

/-- An asset of the manifest. -/
def assetItem (entry : AssetEntry) : Item :=
  .record [("path", .string entry.path.text), ("id", .string entry.id),
    ("expression", .string entry.reference.expression)]

/-- The manifest of a template, with or without its compiled text. -/
def item (m : Manifest) (template : String) (withText : Bool) : Item :=
  .record (("template", .string template) ::
    ((if withText then [("precompiled", .string m.precompiled)] else []) ++
    [("dependencies", .list (m.dependencies.map dependencyItem)),
     ("globals", .list (m.globals.map .string)),
     ("extensions", .list (m.extensions.map fun e => addonItem e.name e.modulePath e.handle)),
     ("filters", .list (m.filters.map fun f => addonItem f.name f.modulePath f.handle)),
     ("assets", .list (m.assets.map assetItem))]))

end Manifest

end TemplateManifest
