import TemplateManifest.Proofs.Asset.OwnCode
import TemplateManifest.Proofs.Process

/-!
The entries of a manifest. Each call of the asset function whose path was extracted has exactly
one entry, whatever other assets the template has.
-/

namespace TemplateManifest

section

variable {α : Type} {key : α → String}

theorem mem_map_distinctFrom {items : List α} {seen : List String} {k : String} :
    k ∈ (distinctFrom key seen items).map key ↔ k ∈ items.map key ∧ k ∉ seen := by
  induction items generalizing seen with
  | nil => simp [distinctFrom]
  | cons item items ih =>
    rw [distinctFrom]
    split
    · next hseen =>
      rw [List.contains_iff_mem] at hseen
      rw [ih, List.map_cons, List.mem_cons]
      constructor
      · exact fun ⟨hmem, hnew⟩ => ⟨.inr hmem, hnew⟩
      · rintro ⟨rfl | hmem, hnew⟩
        · exact absurd hseen hnew
        · exact ⟨hmem, hnew⟩
    · next hseen =>
      rw [List.contains_iff_mem] at hseen
      rw [List.map_cons, List.mem_cons, ih, List.map_cons, List.mem_cons, List.mem_cons]
      by_cases heq : k = key item
      · subst heq
        simp [hseen]
      · simp [heq]

theorem nodup_map_distinctFrom (seen : List String) (items : List α) :
    ((distinctFrom key seen items).map key).Nodup := by
  induction items generalizing seen with
  | nil => exact List.nodup_nil
  | cons item items ih =>
    rw [distinctFrom]
    split
    · exact ih seen
    · rw [List.map_cons, List.nodup_cons]
      refine ⟨fun hmem => ?_, ih (key item :: seen)⟩
      exact (mem_map_distinctFrom.mp hmem).2 List.mem_cons_self

/-- Of the items with one key, exactly one is kept. -/
theorem exists_split_distinctBy {items : List α} {item : α} (h : item ∈ items) :
    ∃ before kept after, distinctBy key items = before ++ kept :: after ∧ key kept = key item ∧
      ∀ other ∈ before ++ after, key other ≠ key item := by
  have hmem : key item ∈ (distinctBy key items).map key :=
    mem_map_distinctFrom.mpr ⟨List.mem_map_of_mem h, List.not_mem_nil⟩
  obtain ⟨kept, hkept, hkey⟩ := List.mem_map.mp hmem
  obtain ⟨before, after, heq⟩ := List.append_of_mem hkept
  have hnodup : ((distinctBy key items).map key).Nodup := nodup_map_distinctFrom [] items
  rw [heq, List.map_append, List.map_cons, List.nodup_middle, List.nodup_cons, ← List.map_append]
    at hnodup
  refine ⟨before, kept, after, heq, hkey, fun other hother hsame => hnodup.1 ?_⟩
  rw [hkey, ← hsame]
  exact List.mem_map_of_mem hother

end

/-- A call that was extracted is one of the paths. -/
theorem mem_of_collectAssets {calls : List AssetCall} {paths : List AssetPath} {path : AssetPath}
    (h : (collectAssets calls).2 = .ok paths) (hmem : .asset path ∈ calls) : path ∈ paths := by
  induction calls generalizing paths with
  | nil => cases hmem
  | cons call calls ih =>
    cases call with
    | refused operand => cases h
    | skipped warning => exact ih h ((List.mem_cons.mp hmem).resolve_left (by simp))
    | asset first =>
      rw [collectAssets] at h
      cases hrest : (collectAssets calls).2 with
      | error operand =>
        simp only [hrest] at h
        cases h
      | ok rest =>
        simp only [hrest] at h
        cases h
        rcases List.mem_cons.mp hmem with heq | hmem
        · rw [AssetCall.asset.inj heq]
          exact List.mem_cons_self
        · exact List.mem_cons_of_mem _ (ih hrest hmem)

/-- A call whose path was extracted is a call of the asset function, and its first argument spells
    the path. -/
theorem Node.assetCall?_eq_asset {node : Node} {template : String} {path : AssetPath}
    (h : node.assetCall? template = some (.asset path)) :
    ∃ pos p arg args kwargs, node = .call pos (.symbol p assetFunction) (arg :: args) kwargs ∧
      arg.assetPath? = some path := by
  unfold Node.assetCall? at h
  split at h
  · next pos p callee args kwargs =>
    split at h
    · cases h
    · next hcallee =>
      obtain rfl := not_not.mp hcallee
      split at h
      · cases h
      · cases h
        exact ⟨pos, p, _, _, kwargs, rfl, rfl⟩
      · split at h
        · next fragments hfragments =>
          cases h
          refine ⟨pos, p, _, _, kwargs, rfl, ?_⟩
          rw [Node.assetPath?, hfragments]
        · cases h
      · cases h
  · cases h

theorem map_reference_assetEntries (identities : Identities) {assets : List AssetPath}
    {paths : List Path} (h : paths.length = assets.length) :
    (assetEntries identities assets paths).map AssetEntry.reference = assets := by
  have hreference : (assetEntries identities assets paths).map AssetEntry.reference =
      ((assets.zip paths).zipIdx.map Prod.fst).map Prod.fst := by
    rw [assetEntries, List.map_map, List.map_map]
    rfl
  rw [hreference, List.zipIdx_map_fst, List.map_fst_zip (Nat.le_of_eq h.symm)]

namespace Manifest.Stages

variable {world : World} {options : ProcessOptions} {name source : String} {manifest : Manifest}
  {env : Environment} {template : Template} {module : Script.Module} {assets : List AssetPath}

theorem map_reference_assets
    (h : manifest.Stages world options name source env template module assets) :
    manifest.assets.map AssetEntry.reference = assets := by
  obtain ⟨found, hfound, hassets⟩ := h.resolved
  have hlength := (Lookup.join_eq_found_iff.mp hfound).length_eq
  rw [List.length_map] at hlength
  rw [hassets]
  exact map_reference_assetEntries _ (by rw [List.length_map, hlength])

/-- The path of a call has one entry, and all other entries are of other paths. -/
theorem exists_own_entry (h : manifest.Stages world options name source env template module assets)
    {call : Node} {path : AssetPath} (hcall : call ∈ template.walk)
    (hpath : call.assetCall? template.name = some (.asset path)) :
    ∃ earlier own later, manifest.assets = earlier ++ own :: later ∧
      own.reference.expression = path.expression ∧
      ∀ other ∈ earlier ++ later, other.reference.expression ≠ path.expression := by
  obtain ⟨paths, hpaths, rfl⟩ := h.extracted
  have hmem : path ∈ paths := by
    have hcollected : (collectAssets template.assetCalls).2 = .ok paths := by
      unfold Template.assetPaths at hpaths
      cases hcalls : (collectAssets template.assetCalls).2 with
      | error operand =>
        rw [hcalls] at hpaths
        cases hpaths
      | ok found =>
        rw [hcalls] at hpaths
        cases hpaths
        rfl
    refine mem_of_collectAssets hcollected (List.mem_filterMap.mpr ⟨call, ?_, hpath⟩)
    obtain ⟨_, _, _, _, _, rfl, _⟩ := Node.assetCall?_eq_asset hpath
    exact List.mem_filter.mpr ⟨hcall, rfl⟩
  obtain ⟨before, kept, after, heq, hkept, hothers⟩ := exists_split_distinctBy hmem
  have hassets := h.map_reference_assets
  rw [heq] at hassets
  obtain ⟨earlier, rest, hsplit, rfl, hrest⟩ := List.map_eq_append_iff.mp hassets
  obtain ⟨own, later, rfl, rfl, rfl⟩ := List.map_eq_cons_iff.mp hrest
  refine ⟨earlier, own, later, hsplit, hkept, fun other hother => hothers _ ?_⟩
  rw [← List.map_append]
  exact List.mem_map_of_mem hother

end Manifest.Stages

end TemplateManifest
