import TemplateManifest.Process
import TemplateManifest.Proofs.Resolve.FailFast
import TemplateManifest.Proofs.Steps

/-!
What a manifest is made of: a run that gives one has gone through all stages, and each part of
the manifest is what its stage gave.
-/

namespace TemplateManifest

namespace Run

theorem ofExcept_eq_ok_iff {α : Type} {x : Except Failure α} {a : α} {s t : Trace} :
    ofExcept x s = .ok a t ↔ x = .ok a ∧ s = t := by
  cases x with
  | ok b =>
    change EStateM.Result.ok b s = .ok a t ↔ _
    simp
  | error failure => exact iff_of_false throw_ne_ok (by simp)

theorem resolve_eq_ok {world : World} {kind : ReferenceKind} {lookups : List Lookup}
    {paths : List (String × Path)} {s t : Trace}
    (h : resolve world kind lookups s = .ok paths t) :
    Lookup.join world.probe lookups = .found paths := by
  obtain ⟨_, u, _, h⟩ := bind_eq_ok_iff.mp h
  cases hjoin : Lookup.join world.probe lookups with
  | found found =>
    rw [hjoin] at h
    obtain ⟨rfl, _⟩ := pure_eq_ok_iff.mp h
    rfl
  | missing l =>
    rw [hjoin] at h
    exact absurd h throw_ne_ok
  | never =>
    rw [hjoin] at h
    exact absurd h throw_ne_ok

end Run

theorem compiledText_eq_ok_iff {template : Template} {env : Environment} {moduleVar text : String} :
    template.compiledText env moduleVar = .ok text ↔
      ∃ module, template.compile env moduleVar = .ok module ∧ module.text = text := by
  unfold Template.compiledText
  cases template.compile env moduleVar with
  | ok module => simp
  | error fault => simp

/-- Without declared addons there is nothing to load. -/
theorem loadEnvironment_of_nil (world : World) {options : ProcessOptions}
    (hextensions : options.extensions = []) (hfilters : options.filters = []) :
    loadEnvironment world options = .ok { options := options.language } := by
  simp only [loadEnvironment, loadExtensions, loadFilters, inNameOrder, hextensions, hfilters,
    List.mergeSort_nil, List.zipIdx_nil, List.mapM_nil]
  rfl

/-- The stages of a run that has given a manifest. -/
structure Manifest.Stages (world : World) (options : ProcessOptions) (name source : String)
    (manifest : Manifest) (env : Environment) (template : Template) (module : Script.Module)
    (assets : List AssetPath) : Prop where
  loaded : loadEnvironment world options = .ok env
  parsed : Template.ofSource env name source = .ok template
  compiled : template.compile env options.moduleVar = .ok module
  dependencies : Lookup.join world.probe
    (template.templateLookups world.cwd options.searchPaths) = .found manifest.dependencies
  extracted : ∃ paths, template.assetPaths = .ok paths ∧
    assets = distinctBy AssetPath.expression paths
  resolved : ∃ found, Lookup.join world.probe
    (assets.map (AssetPath.lookup world.cwd options.assetsPaths)) = .found found ∧
    manifest.assets = assetEntries world.identities assets (found.map (·.2))
  precompiled : manifest.precompiled = replaceAssets manifest.assets module.text
  globals : manifest.globals =
    template.usedGlobals ((inNameOrder (options.globals.map (·, ()))).map (·.1))
  extensions : manifest.extensions = template.usedExtensions env.extensions
  filters : manifest.filters = template.usedFilters env.filters

/-- A manifest is what all stages of a run have given. -/
theorem exists_stages {world : World} {options : ProcessOptions} {name source : String}
    {manifest : Manifest} (h : (process world options name source).result = .ok manifest) :
    ∃ env template module assets,
      manifest.Stages world options name source env template module assets := by
  have hmanifest : ∃ trace, makeManifest world options name source {} = .ok manifest trace := by
    unfold process at h
    split at h
    · next m trace hm =>
      cases h
      exact ⟨trace, hm⟩
    · cases h
  obtain ⟨trace, h⟩ := hmanifest
  obtain ⟨env, _, hload, h⟩ := bind_eq_ok_iff.mp h
  obtain ⟨_, _, _, h⟩ := bind_eq_ok_iff.mp h
  obtain ⟨template, _, hparse, h⟩ := bind_eq_ok_iff.mp h
  obtain ⟨_, _, _, h⟩ := bind_eq_ok_iff.mp h
  obtain ⟨text, _, htext, h⟩ := bind_eq_ok_iff.mp h
  obtain ⟨dependencies, _, hdependencies, h⟩ := bind_eq_ok_iff.mp h
  obtain ⟨_, _, _, h⟩ := bind_eq_ok_iff.mp h
  obtain ⟨paths, _, hpaths, h⟩ := bind_eq_ok_iff.mp h
  obtain ⟨found, _, hfound, h⟩ := bind_eq_ok_iff.mp h
  obtain ⟨rfl, _⟩ := pure_eq_ok_iff.mp h
  obtain ⟨module, hmodule, rfl⟩ :=
    compiledText_eq_ok_iff.mp (Run.ofExcept_eq_ok_iff.mp htext).1
  exact ⟨env, template, module, _, {
    loaded := (Run.ofExcept_eq_ok_iff.mp hload).1
    parsed := (Run.ofExcept_eq_ok_iff.mp hparse).1
    compiled := hmodule
    dependencies := Run.resolve_eq_ok hdependencies
    extracted := ⟨paths, (Run.ofExcept_eq_ok_iff.mp hpaths).1, rfl⟩
    resolved := ⟨found, Run.resolve_eq_ok hfound, rfl⟩
    precompiled := rfl
    globals := rfl
    extensions := rfl
    filters := rfl }⟩

end TemplateManifest
