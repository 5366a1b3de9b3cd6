import TemplateManifest.Proofs.Process.Ending

/-!
What a manifest pairs: each reference of the template, told by its nodes, comes with the best path that
exists for it. Main statement: `process_pairs`.
-/

namespace TemplateManifest

/-- The paths under which a name may exist, the best first. -/
def Path.candidates (cwd : Path) (directories : List Path) (name : String) : List Path :=
  directories.map fun directory => (directory.absolute cwd).candidate name

/-- The path exists, and all before it do not. -/
def Path.IsFirstPresent (probe : Probe) (candidates : List Path) (path : Path) : Prop :=
  ∃ before after, candidates = before ++ path :: after ∧
    (∀ better ∈ before, ∃ delay, probe better = .after delay false) ∧
    ∃ delay, probe path = .after delay true

theorem Path.isFirstPresent_cons_of_present {probe : Probe} {path : Path} {candidates : List Path}
    {delay : Nat} (h : probe path = .after delay true) :
    path.IsFirstPresent probe (path :: candidates) :=
  ⟨[], candidates, rfl, List.forall_mem_nil _, delay, h⟩

theorem Path.IsFirstPresent.cons_of_absent {probe : Probe} {absent path : Path}
    {candidates : List Path} {delay : Nat} (h : path.IsFirstPresent probe candidates)
    (habsent : probe absent = .after delay false) :
    path.IsFirstPresent probe (absent :: candidates) := by
  obtain ⟨before, after, rfl, hbefore, hpath⟩ := h
  exact ⟨absent :: before, after, rfl, List.forall_mem_cons.mpr ⟨⟨delay, habsent⟩, hbefore⟩, hpath⟩

theorem Lookup.exists_foundAt_iff {probe : Probe} {l : Lookup} {path : Path} :
    (∃ time, l.FoundAt probe path time) ↔ path.IsFirstPresent probe l.candidates := by
  constructor
  · rintro ⟨_, before, after, heq, hbefore, hpath, -⟩
    exact ⟨before, after, heq, hbefore, hpath⟩
  · rintro ⟨before, after, heq, hbefore, hpath⟩
    exact ⟨_, before, after, heq, hbefore, hpath, rfl⟩

theorem AssetPath.candidates_lookup (cwd : Path) (directories : List Path) (asset : AssetPath) :
    (asset.lookup cwd directories).candidates = Path.candidates cwd directories asset.lookupName := by
  cases asset <;> rfl

/-- The entries of assets come one for each asset, with its path and its number. -/
theorem forall₂_assetEntries (identities : Identities) {assets : List AssetPath} {paths : List Path}
    {R : AssetPath → Path → Prop} (h : List.Forall₂ R assets paths) :
    List.Forall₂ (fun asset entry => entry.reference = asset ∧ R asset entry.path) assets
        (assetEntries identities assets paths) ∧
      (assetEntries identities assets paths).map AssetEntry.id =
        (List.range assets.length).map identities.asset := by
  obtain ⟨hlength, hget⟩ := List.forall₂_iff_get.mp h
  have hentries : (assetEntries identities assets paths).length = assets.length := by
    simp [assetEntries, hlength]
  constructor
  · refine List.forall₂_iff_get.mpr ⟨hentries.symm, fun i hi hi' => ?_⟩
    have hpath := hget i hi (hlength ▸ hi)
    simp only [assetEntries, List.get_eq_getElem, List.getElem_map, List.getElem_zipIdx,
      List.getElem_zip, true_and]
    exact hpath
  · refine List.ext_getElem (by simp [hentries]) fun i hi hi' => ?_
    simp [assetEntries]

/-- What is found for some assets are the first of their candidates that exist. -/
theorem forall₂_isFirstPresent_of_found {probe : Probe} {cwd : Path} {directories : List Path}
    {assets : List AssetPath} {found : List (String × Path)}
    (h : List.Forall₂ (fun (l : Lookup) entry =>
        entry.1 = l.name ∧ ∃ time, l.FoundAt probe entry.2 time)
      (assets.map (AssetPath.lookup cwd directories)) found) :
    List.Forall₂ (fun asset path =>
        path.IsFirstPresent probe (Path.candidates cwd directories asset.lookupName))
      assets (found.map (·.2)) := by
  rw [List.forall₂_map_left_iff] at h
  rw [List.forall₂_map_right_iff]
  refine h.imp fun asset entry ⟨_, hfound⟩ => ?_
  rw [← AssetPath.candidates_lookup]
  exact Lookup.exists_foundAt_iff.mp hfound

/-- A manifest has each template that is included by its name once, where it first occurs, and each
    asset once, in the order of the walk. Each of them is paired with the first of its own candidates
    that exists. What has been asked for are their candidates, those of the templates before those of
    the assets. -/
theorem process_pairs {world : World} {options : ProcessOptions} {name source : String}
    {manifest : Manifest} (h : (process world options name source).result = .ok manifest) :
    ∃ env template module, Prepared world options name source env template module ∧
      let targets := (template.walk.filterMap Node.literalTarget?).eraseDups
      let assets := template.assetReferences
      let ofTarget := Path.candidates world.cwd options.searchPaths
      let ofAsset (asset : AssetPath) :=
        Path.candidates world.cwd options.assetsPaths asset.lookupName
      List.Forall₂ (fun target (dependency : String × Path) => dependency.1 = target ∧
        dependency.2.IsFirstPresent world.probe (ofTarget target)) targets manifest.dependencies ∧
      List.Forall₂ (fun asset (entry : AssetEntry) => entry.reference = asset ∧
        entry.path.IsFirstPresent world.probe (ofAsset asset)) assets manifest.assets ∧
      manifest.assets.map AssetEntry.id = (List.range assets.length).map world.identities.asset ∧
      (process world options name source).trace.asked =
        targets.flatMap ofTarget ++ assets.flatMap ofAsset := by
  have hends := ends_iff.mpr ⟨h, rfl⟩
  generalize (process world options name source).trace.asked = asked at hends ⊢
  cases hends with
  | @success env template module _ hprepared _ _ hmanifest =>
  have hlookups : template.templateLookups world.cwd options.searchPaths =
      (template.walk.filterMap Node.literalTarget?).eraseDups.map
        (Lookup.inDirectories world.cwd options.searchPaths) := by
    rw [Template.templateLookups, distinctBy_eq_eraseDupsBy, Template.includedNames_eq]
    rfl
  obtain ⟨found, hjoin, hassets⟩ := hmanifest.resolved
  have hentries := forall₂_assetEntries world.identities
    (forall₂_isFirstPresent_of_found (Lookup.join_eq_found_iff.mp hjoin))
  rw [← hassets] at hentries
  refine ⟨env, template, module, hprepared, ?_, hentries.1, hentries.2, ?_⟩
  · have hdependencies := Lookup.join_eq_found_iff.mp hmanifest.dependencies
    rw [hlookups, List.forall₂_map_left_iff] at hdependencies
    exact hdependencies.imp fun target dependency ⟨hname, hfound⟩ =>
      ⟨hname, Lookup.exists_foundAt_iff.mp hfound⟩
  · rw [List.flatMap_append, hlookups, Template.assetLookups, List.flatMap_map, List.flatMap_map]
    simp only [AssetPath.candidates_lookup]
    rfl

/-- A world in which all paths but one exist, and in which no addon can be loaded. -/
def lackingWorld : World where
  cwd := ⟨"/w"⟩
  load _ _ _ := .error ""
  probe path := .after 0 (path.text != "/p/a")
  identities :=
    let numbered (index : Nat) := String.ofList (List.replicate index 'x')
    ⟨numbered, numbered, numbered⟩

/-- The template `a` is found in the second directory and all others in the first one. Of the two
    paths of assets that are the same, one is looked for. -/
theorem process_pairs_second_directory :
    let options : ProcessOptions := { searchPaths := [⟨"/p"⟩, ⟨"q"⟩], assetsPaths := [⟨"/s"⟩] }
    let source := "\x7b% include 'a' %\x7d\x7b% include 'b' %\x7d\x7b% include 'a' %\x7d" ++
      "\x7b\x7b static('d/' + x) \x7d\x7d\x7b\x7b static('d') \x7d\x7d\x7b\x7b static('d/' + x) \x7d\x7d"
    ∃ manifest, (process lackingWorld options "t.njk" source).result = .ok manifest ∧
      (∃ first second, manifest.dependencies = [("a", first), ("b", second)] ∧
        first.IsFirstPresent lackingWorld.probe [⟨"/p/a"⟩, ⟨"/w/q/a"⟩] ∧
        second.IsFirstPresent lackingWorld.probe [⟨"/p/b"⟩, ⟨"/w/q/b"⟩]) ∧
      manifest.assets.map AssetEntry.reference =
        [.dynamic [.literal (.str "d/"), .symbol "x"], .static "d"] ∧
      manifest.assets.map AssetEntry.id = ["", "x"] ∧
      (process lackingWorld options "t.njk" source).trace.asked =
        [⟨"/p/a"⟩, ⟨"/w/q/a"⟩, ⟨"/p/b"⟩, ⟨"/w/q/b"⟩, ⟨"/s/d"⟩, ⟨"/s/d"⟩] := by
  intro options source
  let env : Environment := { options := options.language }
  have hload : loadEnvironment lackingWorld options = .ok env :=
    loadEnvironment_of_nil lackingWorld rfl rfl
  have hread : (Template.parse env "t.njk" source).toOption.any (fun template =>
      (template.compile env options.moduleVar).toOption.any (fun _ => true) ∧
      (∀ node ∈ template.walk, node.refused? "t.njk" = none) ∧
      (template.walk.filterMap Node.literalTarget?).eraseDups = ["a", "b"] ∧
      template.templateLookups lackingWorld.cwd options.searchPaths =
        [⟨"a", [⟨"/p/a"⟩, ⟨"/w/q/a"⟩]⟩, ⟨"b", [⟨"/p/b"⟩, ⟨"/w/q/b"⟩]⟩] ∧
      template.assetReferences =
        [.dynamic [.literal (.str "d/"), .symbol "x"], .static "d"]) = true := by
    decide +kernel
  obtain ⟨template, hparse, hread⟩ := exists_eq_ok_of_any hread
  obtain ⟨hcompile, hsupported, htargets, hlookups, hassets⟩ := of_decide_eq_true hread
  obtain ⟨module, hmodule, -⟩ := exists_eq_ok_of_any hcompile
  obtain ⟨manifest, hmanifest⟩ : ∃ manifest,
      (process lackingWorld options "t.njk" source).result = .ok manifest := by
    refine exists_manifest_iff.mpr ⟨env, template, module, ⟨hload, hparse, hmodule⟩, hsupported, ?_⟩
    simp only [hlookups, Template.assetLookups, hassets, Lookup.exists_foundAt_iff]
    refine List.forall_mem_cons.mpr ⟨⟨⟨"/w/q/a"⟩, ?_⟩, List.forall_mem_cons.mpr ⟨⟨⟨"/p/b"⟩, ?_⟩,
      List.forall_mem_cons.mpr ⟨⟨⟨"/s/d"⟩, ?_⟩, List.forall_mem_singleton.mpr ⟨⟨"/s/d"⟩, ?_⟩⟩⟩⟩
    · exact (Path.isFirstPresent_cons_of_present rfl).cons_of_absent rfl
    · exact Path.isFirstPresent_cons_of_present rfl
    · exact Path.isFirstPresent_cons_of_present rfl
    · exact Path.isFirstPresent_cons_of_present rfl
  obtain ⟨env', template', module', hprepared, hdependencies, hentries, hids, hasked⟩ :=
    process_pairs hmanifest
  obtain rfl : env = env' := Except.ok.inj (hload.symm.trans hprepared.loaded)
  obtain rfl : template = template' := Except.ok.inj (hparse.symm.trans hprepared.parsed)
  rw [htargets] at hdependencies hasked
  rw [hassets] at hentries hids hasked
  refine ⟨manifest, hmanifest, ?_, ?_, hids, hasked⟩
  · obtain ⟨⟨_, first⟩, _, ⟨rfl, hfirst⟩, hrest, heq⟩ := List.forall₂_cons_left_iff.mp hdependencies
    obtain ⟨⟨_, second⟩, _, ⟨rfl, hsecond⟩, hnil, rfl⟩ := List.forall₂_cons_left_iff.mp hrest
    obtain rfl := List.forall₂_nil_left_iff.mp hnil
    exact ⟨first, second, heq, hfirst, hsecond⟩
  · refine (List.forall₂_eq_eq_eq ▸ List.forall₂_map_left_iff.mpr ?_ : _ = _)
    exact hentries.flip.imp fun _ _ h => h.1

end TemplateManifest
