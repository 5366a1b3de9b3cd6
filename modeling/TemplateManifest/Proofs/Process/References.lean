import TemplateManifest.Proofs.Asset.Entries

/-!
What a template refers to, told by its nodes in the order of the walk, and the lookups that come of
it: one for each name and for each expression of an asset.
-/

namespace TemplateManifest

/-- The name of the template that a node includes, if it is spelled out. -/
def Node.literalTarget? : Node → Option String
  | inclusion _ _ (literal _ (.str name)) => some name
  | _ => none

/-- The path that a call gives. -/
def AssetCall.path? : AssetCall → Option AssetPath
  | asset path => some path
  | skipped _ | refused _ => none

/-- The operand because of which a call gives no path. -/
def AssetCall.refused? : AssetCall → Option Node
  | refused operand => some operand
  | asset _ | skipped _ => none

/-- The path of the asset that a node refers to. -/
def Node.extracted? (template : String) (node : Node) : Option AssetPath :=
  (node.assetCall? template).bind AssetCall.path?

/-- The operand because of which the path of the asset cannot be told. -/
def Node.refused? (template : String) (node : Node) : Option Node :=
  (node.assetCall? template).bind AssetCall.refused?

section

variable {α : Type} (key : α → String)

theorem distinctFrom_eq_eraseDupsBy (seen : List String) (items : List α) :
    distinctFrom key seen items =
      (items.filter fun item => !seen.contains (key item)).eraseDupsBy fun a b => key a == key b := by
  induction items generalizing seen with
  | nil => rfl
  | cons item items ih =>
    rw [distinctFrom]
    split
    · next hseen => rw [ih, List.filter_cons_of_neg (by simpa using hseen)]
    · next hseen =>
      rw [ih, List.filter_cons_of_pos (by simpa using hseen), List.eraseDupsBy_cons,
        List.filter_filter]
      congr 3
      funext other
      simp

/-- The items with the first occurrence of each key, in their order. -/
theorem distinctBy_eq_eraseDupsBy (items : List α) :
    distinctBy key items = items.eraseDupsBy fun a b => key a == key b := by
  rw [distinctBy, distinctFrom_eq_eraseDupsBy, List.filter_eq_self.mpr (by simp)]

end

/-- The paths of some calls are extracted unless an operand is refused; the first one counts. -/
theorem snd_collectAssets (calls : List AssetCall) :
    (collectAssets calls).2 =
      match calls.findSome? AssetCall.refused? with
      | some operand => .error operand
      | none => .ok (calls.filterMap AssetCall.path?) := by
  induction calls with
  | nil => rfl
  | cons call calls ih =>
    cases call with
    | refused operand => rfl
    | skipped warning => exact ih
    | asset path =>
      have hcons : (collectAssets (.asset path :: calls)).2 =
          (collectAssets calls).2.map (path :: ·) := rfl
      have hrefused : (AssetCall.asset path :: calls).findSome? AssetCall.refused? =
          calls.findSome? AssetCall.refused? := rfl
      rw [hcons, ih, hrefused]
      cases calls.findSome? AssetCall.refused? <;> rfl

theorem Node.assetCall?_of_category {node : Node} {template : String}
    (h : node.category ≠ .functionCall) : node.assetCall? template = none := by
  cases node <;> first | rfl | exact absurd rfl h

namespace Template

variable {template : Template}

/-- The names of the included templates stand in the order of the walk. -/
theorem includedNames_eq : template.includedNames = template.walk.filterMap Node.literalTarget? := by
  rw [includedNames, templateReferences, findAll, Node.findAll, List.filterMap_map,
    List.filterMap_filter]
  refine List.filterMap_congr fun node _ => ?_
  split
  · rw [Function.comp_apply]
    unfold Node.templateReference
    split
    · rfl
    · next hother =>
      unfold Node.literalTarget?
      split
      · exact absurd rfl (hother _ _ _ _)
      · rfl
  · next hcategory =>
    cases node <;> first | rfl | exact absurd rfl hcategory

theorem assetCalls_eq :
    template.assetCalls = template.walk.filterMap (Node.assetCall? template.name) := by
  rw [assetCalls, findAll, Node.findAll, List.filterMap_filter]
  refine List.filterMap_congr fun node _ => ?_
  split
  · rfl
  · next hcategory => exact (Node.assetCall?_of_category (by simpa using hcategory)).symm

theorem assetPaths_eq :
    template.assetPaths =
      match template.walk.findSome? (Node.refused? template.name) with
      | some operand => .error (template.unsupportedOperand operand)
      | none => .ok (template.walk.filterMap (Node.extracted? template.name)) := by
  have hrefused : (template.walk.filterMap (Node.assetCall? template.name)).findSome?
      AssetCall.refused? = template.walk.findSome? (Node.refused? template.name) := by
    rw [← List.head?_filterMap, List.filterMap_filterMap, List.head?_filterMap]
    rfl
  rw [assetPaths, snd_collectAssets, assetCalls_eq, hrefused, List.filterMap_filterMap]
  cases template.walk.findSome? (Node.refused? template.name) <;> rfl

/-- The paths of assets are extracted if no operand is refused. -/
theorem assetPaths_eq_ok_iff {paths : List AssetPath} :
    template.assetPaths = .ok paths ↔
      (∀ node ∈ template.walk, node.refused? template.name = none) ∧
        paths = template.walk.filterMap (Node.extracted? template.name) := by
  rw [assetPaths_eq, ← List.findSome?_eq_none_iff]
  cases template.walk.findSome? (Node.refused? template.name) <;> simp [eq_comm]

/-- Otherwise the first operand that is refused counts. -/
theorem assetPaths_eq_error_iff {failure : Failure} :
    template.assetPaths = .error failure ↔
      ∃ before node after operand, template.walk = before ++ node :: after ∧
        (∀ node' ∈ before, node'.refused? template.name = none) ∧
        node.refused? template.name = some operand ∧
        failure = template.unsupportedOperand operand := by
  rw [assetPaths_eq]
  constructor
  · intro h
    cases hrefused : template.walk.findSome? (Node.refused? template.name) with
    | none =>
      rw [hrefused] at h
      cases h
    | some operand =>
      rw [hrefused] at h
      cases h
      obtain ⟨before, node, after, hwalk, hnode, hbefore⟩ := List.findSome?_eq_some_iff.mp hrefused
      exact ⟨before, node, after, operand, hwalk, hbefore, hnode, rfl⟩
  · rintro ⟨before, node, after, operand, hwalk, hbefore, hnode, rfl⟩
    rw [List.findSome?_eq_some_iff.mpr ⟨before, node, after, hwalk, hnode, hbefore⟩]

/-- The assets that a template refers to, each expression once, at its first occurrence. -/
def assetReferences (template : Template) : List AssetPath :=
  (template.walk.filterMap (Node.extracted? template.name)).eraseDupsBy fun a b =>
    a.expression == b.expression

/-- The lookups of the assets. -/
def assetLookups (template : Template) (cwd : Path) (directories : List Path) : List Lookup :=
  template.assetReferences.map (AssetPath.lookup cwd directories)

theorem distinctBy_expression {paths : List AssetPath} (h : template.assetPaths = .ok paths) :
    distinctBy AssetPath.expression paths = template.assetReferences := by
  rw [(assetPaths_eq_ok_iff.mp h).2, distinctBy_eq_eraseDupsBy, assetReferences]

end Template

end TemplateManifest
