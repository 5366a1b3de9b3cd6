import TemplateManifest.Template.Addon

/-!
What is worth telling about a template of which a manifest can be made all the same.
-/

namespace TemplateManifest

/-- What is worth telling about a template. -/
inductive Warning where
  /-- An inclusion of a template whose name is computed. -/
  | computedInclusion (template description : String) (pos : Position)
  /-- A call of the asset function without an argument, or with one of an unknown shape. -/
  | skippedAsset (template : String) (pos : Position) (argument : Option String)
  /-- A tag that a second extension claims. -/
  | tagClash (clash : Environment.TagClash)
deriving DecidableEq, Repr, Inhabited

/-- The function whose calls name assets. -/
def assetFunction : String := "static"

/-- The text of a warning. -/
def Warning.message : Warning → String
  | .computedInclusion template description pos =>
    "Skipping " ++ description ++ " with non-literal target in '" ++ template ++ "' at line " ++
      toString pos.line ++ ", column " ++ toString pos.col
  | .skippedAsset template pos argument =>
    "Skipping " ++ assetFunction ++ "() call in '" ++ template ++ "' at line " ++
      toString pos.line ++ ", column " ++ toString pos.col ++ ": argument is " ++
      argument.getD "missing"
  | .tagClash clash =>
    "Tag '" ++ clash.tag ++ "' of extension '" ++ clash.claimant ++
      "' is already registered by '" ++ clash.owner ++ "'"

end TemplateManifest
