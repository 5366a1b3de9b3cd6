import TemplateManifest.Proofs.Process.Loading
import TemplateManifest.Proofs.Process.References

/-!
How a run ends: with the first stage that fails, and with what has been asked for until then. Main
statement: `process_ends`.
-/

namespace TemplateManifest

section Lookups

namespace Lookup

variable {probe : Probe} {lookups : List Lookup}

theorem exists_join_eq_found_iff :
    (∃ paths, join probe lookups = .found paths) ↔
      ∀ l ∈ lookups, ∃ path time, l.FoundAt probe path time := by
  simp only [join_eq_found_iff]
  constructor
  · rintro ⟨paths, hpaths⟩
    induction hpaths with
    | nil => exact List.forall_mem_nil _
    | cons h _ ih => exact List.forall_mem_cons.mpr ⟨⟨_, h.2⟩, ih⟩
  · intro hfound
    induction lookups with
    | nil => exact ⟨[], .nil⟩
    | cons l lookups ih =>
      obtain ⟨⟨path, hpath⟩, hlookups⟩ := List.forall_mem_cons.mp hfound
      obtain ⟨paths, hpaths⟩ := ih hlookups
      exact ⟨(l.name, path) :: paths, .cons ⟨rfl, hpath⟩ hpaths⟩

theorem startedUntilMissing_of_found (h : ∀ l ∈ lookups, ∃ path time, l.FoundAt probe path time) :
    startedUntilMissing probe lookups = lookups := by
  induction lookups with
  | nil => rfl
  | cons l lookups ih =>
    obtain ⟨⟨path, time, hl⟩, hlookups⟩ := List.forall_mem_cons.mp h
    have hmissing : l.settled probe ≠ .missing 0 := fun heq =>
      hl.not_missingAt (settled_eq_missing_iff.mp heq)
    rw [startedUntilMissing, if_neg hmissing, ih hlookups]

theorem startedInOrder_of_found (h : ∀ l ∈ lookups, ∃ path time, l.FoundAt probe path time) :
    startedInOrder probe lookups = lookups := by
  induction lookups with
  | nil => rfl
  | cons l lookups ih =>
    obtain ⟨⟨path, time, hl⟩, hlookups⟩ := List.forall_mem_cons.mp h
    rw [startedInOrder]
    split
    · next hmissing => exact absurd (settled_eq_missing_iff.mp hmissing) hl.not_missingAt
    · rw [ih hlookups]
    · rfl

/-- When nothing is missing, all candidates are asked for. -/
theorem asked_of_found (h : ∀ l ∈ lookups, ∃ path time, l.FoundAt probe path time) :
    asked probe lookups = lookups.flatMap candidates := by
  rw [asked, startedUntilMissing_of_found h, startedInOrder_of_found h, ite_self]

end Lookup

end Lookups

/-- How lookups that do not all find something end a run. -/
def Joined.stop? (kind : ReferenceKind) : Joined → Option Stop
  | found _ => none
  | missing l => some (.failed (.notFound kind l.name l.candidates))
  | never => some .never

theorem Joined.stop?_eq_none_iff {kind : ReferenceKind} {j : Joined} :
    j.stop? kind = none ↔ ∃ paths, j = .found paths := by
  cases j <;> simp [stop?]

/-- Loading, reading and compiling have gone well. -/
structure Prepared (world : World) (options : ProcessOptions) (name source : String)
    (env : Environment) (template : Template) (module : Script.Module) : Prop where
  loaded : loadEnvironment world options = .ok env
  parsed : Template.parse env name source = .ok template
  compiled : template.compile env options.moduleVar = .ok module

section

variable (world : World) (options : ProcessOptions) (name source : String)

/-- How a run ends and what it asks for, by the stage that ends it. -/
inductive Ends : Except Stop Manifest → List Path → Prop where
  | extension {failure : Failure}
      (h : world.FailsToLoad .extension options.extensions failure) :
      Ends (.error (.failed failure)) []
  | filter {failure : Failure}
      (hextensions : ∀ failure, ¬ world.FailsToLoad .extension options.extensions failure)
      (h : world.FailsToLoad .filter options.filters failure) : Ends (.error (.failed failure)) []
  | parse {env : Environment} {e : SyntaxError} (hloaded : loadEnvironment world options = .ok env)
      (h : Template.parse env name source = .error e) : Ends (.error (.failed (e.failure name))) []
  | compile {env : Environment} {template : Template} {fault : CompileFault}
      (hloaded : loadEnvironment world options = .ok env)
      (hparsed : Template.parse env name source = .ok template)
      (h : template.compile env options.moduleVar = .error fault) :
      Ends (.error (.failed (.compile name fault.message))) []
  | template {env : Environment} {template : Template} {module : Script.Module} {stop : Stop}
      (hprepared : Prepared world options name source env template module)
      (h : (Lookup.join world.probe (template.templateLookups world.cwd options.searchPaths)).stop?
        .template = some stop) :
      Ends (.error stop)
        (Lookup.asked world.probe (template.templateLookups world.cwd options.searchPaths))
  | expression {env : Environment} {template : Template} {module : Script.Module}
      {before after : List Node} {node operand : Node}
      (hprepared : Prepared world options name source env template module)
      (hfound : ∀ l ∈ template.templateLookups world.cwd options.searchPaths,
        ∃ path time, l.FoundAt world.probe path time)
      (hwalk : template.walk = before ++ node :: after)
      (hbefore : ∀ node' ∈ before, node'.refused? name = none)
      (hnode : node.refused? name = some operand) :
      Ends (.error (.failed (.unsupported name operand.describe operand.pos)))
        ((template.templateLookups world.cwd options.searchPaths).flatMap Lookup.candidates)
  | asset {env : Environment} {template : Template} {module : Script.Module} {stop : Stop}
      (hprepared : Prepared world options name source env template module)
      (hfound : ∀ l ∈ template.templateLookups world.cwd options.searchPaths,
        ∃ path time, l.FoundAt world.probe path time)
      (hsupported : ∀ node ∈ template.walk, node.refused? name = none)
      (h : (Lookup.join world.probe (template.assetLookups world.cwd options.assetsPaths)).stop?
        .asset = some stop) :
      Ends (.error stop)
        ((template.templateLookups world.cwd options.searchPaths).flatMap Lookup.candidates ++
          Lookup.asked world.probe (template.assetLookups world.cwd options.assetsPaths))
  | success {env : Environment} {template : Template} {module : Script.Module} {manifest : Manifest}
      (hprepared : Prepared world options name source env template module)
      (hfound : ∀ l ∈ template.templateLookups world.cwd options.searchPaths ++
          template.assetLookups world.cwd options.assetsPaths,
        ∃ path time, l.FoundAt world.probe path time)
      (hsupported : ∀ node ∈ template.walk, node.refused? name = none)
      (hmanifest : manifest.Stages world options name source env template module
        template.assetReferences) :
      Ends (.ok manifest)
        ((template.templateLookups world.cwd options.searchPaths ++
          template.assetLookups world.cwd options.assetsPaths).flatMap Lookup.candidates)

end


section Run

variable {world : World} {options : ProcessOptions} {name source : String} {s : Trace}

theorem Run.ofExcept_ok {α : Type} {x : Except Failure α} {a : α} (h : x = .ok a) :
    Run.ofExcept x s = .ok a s := by
  rw [h]
  rfl

theorem Run.ofExcept_error {α : Type} {x : Except Failure α} {failure : Failure}
    (h : x = .error failure) : Run.ofExcept x s = .error (.failed failure) s := by
  rw [h]
  rfl

theorem Run.warn_ok (warnings : List Warning) :
    Run.warn warnings s = .ok () { s with warnings := s.warnings ++ warnings } :=
  rfl

theorem Run.resolve_of_found {kind : ReferenceKind} {lookups : List Lookup}
    {paths : List (String × Path)} (h : Lookup.join world.probe lookups = .found paths) :
    Run.resolve world kind lookups s =
      .ok paths { s with asked := s.asked ++ Lookup.asked world.probe lookups } := by
  unfold Run.resolve
  rw [h]
  rfl

theorem Run.resolve_of_stop {kind : ReferenceKind} {lookups : List Lookup} {stop : Stop}
    (h : (Lookup.join world.probe lookups).stop? kind = some stop) :
    Run.resolve world kind lookups s =
      .error stop { s with asked := s.asked ++ Lookup.asked world.probe lookups } := by
  unfold Run.resolve
  cases hjoin : Lookup.join world.probe lookups with
  | found paths =>
    rw [hjoin] at h
    cases h
  | missing l =>
    rw [hjoin] at h
    cases h
    rfl
  | never =>
    rw [hjoin] at h
    cases h
    rfl

/-- What a run does when the included templates have been found. -/
def extractAssets (world : World) (options : ProcessOptions) (env : Environment)
    (template : Template) (text : String) (dependencies : List (String × Path)) : Run Manifest := do
  Run.warn template.assetWarnings
  let paths ← Run.ofExcept template.assetPaths
  let assets := distinctBy AssetPath.expression paths
  let found ← Run.resolve world .asset (assets.map (AssetPath.lookup world.cwd options.assetsPaths))
  let entries := assetEntries world.identities assets (found.map (·.2))
  return {
    precompiled := replaceAssets entries text
    dependencies := dependencies
    globals := template.usedGlobals ((inNameOrder (options.globals.map (·, ()))).map (·.1))
    extensions := template.usedExtensions env.extensions
    filters := template.usedFilters env.filters
    assets := entries }

/-- What a run does when the template has been compiled. -/
def resolveReferences (world : World) (options : ProcessOptions) (env : Environment)
    (template : Template) (text : String) : Run Manifest := do
  let dependencies ←
    Run.resolve world .template (template.templateLookups world.cwd options.searchPaths)
  extractAssets world options env template text dependencies

theorem makeManifest_eq :
    makeManifest world options name source = (do
      let env ← Run.ofExcept (loadEnvironment world options)
      Run.warn (env.tagClashes.map .tagClash)
      let template ← Run.ofExcept (Template.ofSource env name source)
      Run.warn template.inclusionWarnings
      let text ← Run.ofExcept (template.compiledText env options.moduleVar)
      resolveReferences world options env template text) :=
  rfl

theorem ofSource_eq_ok {env : Environment} {template : Template}
    (h : Template.parse env name source = .ok template) :
    Template.ofSource env name source = .ok template := by
  rw [Template.ofSource, h]
  rfl

theorem ofSource_eq_error {env : Environment} {e : SyntaxError}
    (h : Template.parse env name source = .error e) :
    Template.ofSource env name source = .error (e.failure name) := by
  rw [Template.ofSource, h]
  rfl

/-- A template has the name that it was read under. -/
theorem Template.name_of_parse {env : Environment} {template : Template}
    (h : Template.parse env name source = .ok template) : template.name = name := by
  unfold Template.parse at h
  split at h
  · cases h
  · split at h <;> cases h
    rfl

section Stages

variable {env : Environment} {template : Template} {module : Script.Module}

theorem makeManifest_of_not_loaded {failure : Failure}
    (h : loadEnvironment world options = .error failure) :
    makeManifest world options name source s = .error (.failed failure) s :=
  bind_of_error (Run.ofExcept_error h)

theorem makeManifest_of_not_parsed {e : SyntaxError} (hloaded : loadEnvironment world options = .ok env)
    (h : Template.parse env name source = .error e) :
    ∃ t : Trace, t.asked = s.asked ∧
      makeManifest world options name source s = .error (.failed (e.failure name)) t := by
  rw [makeManifest_eq, bind_of_ok (Run.ofExcept_ok hloaded), bind_of_ok (Run.warn_ok _),
    bind_of_error (Run.ofExcept_error (ofSource_eq_error h))]
  refine ⟨_, ?_, rfl⟩
  rfl

theorem makeManifest_of_not_compiled {fault : CompileFault}
    (hloaded : loadEnvironment world options = .ok env)
    (hparsed : Template.parse env name source = .ok template)
    (h : template.compile env options.moduleVar = .error fault) :
    ∃ t : Trace, t.asked = s.asked ∧ makeManifest world options name source s =
      .error (.failed (.compile name fault.message)) t := by
  have htext : template.compiledText env options.moduleVar = .error (.compile name fault.message) := by
    rw [Template.compiledText, h, ← Template.name_of_parse hparsed]
    rfl
  rw [makeManifest_eq, bind_of_ok (Run.ofExcept_ok hloaded), bind_of_ok (Run.warn_ok _),
    bind_of_ok (Run.ofExcept_ok (ofSource_eq_ok hparsed)), bind_of_ok (Run.warn_ok _),
    bind_of_error (Run.ofExcept_error htext)]
  refine ⟨_, ?_, rfl⟩
  rfl

/-- Until a template is compiled nothing is asked for. -/
theorem makeManifest_of_prepared (h : Prepared world options name source env template module) :
    ∃ t : Trace, t.asked = s.asked ∧ makeManifest world options name source s =
      resolveReferences world options env template module.text t := by
  have htext : template.compiledText env options.moduleVar = .ok module.text := by
    rw [Template.compiledText, h.compiled]
  rw [makeManifest_eq, bind_of_ok (Run.ofExcept_ok h.loaded), bind_of_ok (Run.warn_ok _),
    bind_of_ok (Run.ofExcept_ok (ofSource_eq_ok h.parsed)), bind_of_ok (Run.warn_ok _),
    bind_of_ok (Run.ofExcept_ok htext)]
  refine ⟨_, ?_, rfl⟩
  rfl

variable {text : String}

theorem resolveReferences_of_stop {stop : Stop}
    (h : (Lookup.join world.probe (template.templateLookups world.cwd options.searchPaths)).stop?
      .template = some stop) :
    ∃ t : Trace, t.asked = s.asked ++
        Lookup.asked world.probe (template.templateLookups world.cwd options.searchPaths) ∧
      resolveReferences world options env template text s = .error stop t := by
  rw [resolveReferences, bind_of_error (Run.resolve_of_stop h)]
  refine ⟨_, ?_, rfl⟩
  rfl

theorem resolveReferences_of_found {dependencies : List (String × Path)}
    (h : Lookup.join world.probe (template.templateLookups world.cwd options.searchPaths) =
      .found dependencies) :
    ∃ t : Trace, t.asked = s.asked ++
        (template.templateLookups world.cwd options.searchPaths).flatMap Lookup.candidates ∧
      resolveReferences world options env template text s =
        extractAssets world options env template text dependencies t := by
  rw [resolveReferences, bind_of_ok (Run.resolve_of_found h),
    Lookup.asked_of_found (Lookup.exists_join_eq_found_iff.mp ⟨_, h⟩)]
  refine ⟨_, ?_, rfl⟩
  rfl

variable {dependencies : List (String × Path)}

theorem extractAssets_of_refused {before after : List Node} {node operand : Node}
    (hwalk : template.walk = before ++ node :: after)
    (hbefore : ∀ node' ∈ before, node'.refused? template.name = none)
    (hnode : node.refused? template.name = some operand) :
    ∃ t : Trace, t.asked = s.asked ∧
      extractAssets world options env template text dependencies s =
        .error (.failed (.unsupported template.name operand.describe operand.pos)) t := by
  have hpaths := Template.assetPaths_eq_error_iff.mpr
    ⟨before, node, after, operand, hwalk, hbefore, hnode, rfl⟩
  rw [extractAssets, bind_of_ok (Run.warn_ok _), bind_of_error (Run.ofExcept_error hpaths)]
  refine ⟨_, ?_, rfl⟩
  rfl

variable (hsupported : ∀ node ∈ template.walk, node.refused? template.name = none)
include hsupported

theorem extractAssets_of_stop {stop : Stop}
    (h : (Lookup.join world.probe (template.assetLookups world.cwd options.assetsPaths)).stop?
      .asset = some stop) :
    ∃ t : Trace, t.asked = s.asked ++
        Lookup.asked world.probe (template.assetLookups world.cwd options.assetsPaths) ∧
      extractAssets world options env template text dependencies s = .error stop t := by
  have hpaths := Template.assetPaths_eq_ok_iff.mpr ⟨hsupported, rfl⟩
  rw [extractAssets, bind_of_ok (Run.warn_ok _), bind_of_ok (Run.ofExcept_ok hpaths),
    Template.distinctBy_expression hpaths]
  rw [Template.assetLookups] at h ⊢
  rw [bind_of_error (Run.resolve_of_stop h)]
  refine ⟨_, ?_, rfl⟩
  rfl

theorem extractAssets_of_found {found : List (String × Path)}
    (h : Lookup.join world.probe (template.assetLookups world.cwd options.assetsPaths) =
      .found found) :
    ∃ t : Trace, t.asked = s.asked ++
        (template.assetLookups world.cwd options.assetsPaths).flatMap Lookup.candidates ∧
      extractAssets world options env template text dependencies s = .ok
        { precompiled := replaceAssets
            (assetEntries world.identities template.assetReferences (found.map (·.2))) text
          dependencies := dependencies
          globals := template.usedGlobals ((inNameOrder (options.globals.map (·, ()))).map (·.1))
          extensions := template.usedExtensions env.extensions
          filters := template.usedFilters env.filters
          assets := assetEntries world.identities template.assetReferences (found.map (·.2)) } t := by
  have hpaths := Template.assetPaths_eq_ok_iff.mpr ⟨hsupported, rfl⟩
  rw [extractAssets, bind_of_ok (Run.warn_ok _), bind_of_ok (Run.ofExcept_ok hpaths),
    Template.distinctBy_expression hpaths]
  rw [Template.assetLookups] at h ⊢
  rw [bind_of_ok (Run.resolve_of_found h),
    Lookup.asked_of_found (Lookup.exists_join_eq_found_iff.mp ⟨_, h⟩)]
  refine ⟨_, ?_, rfl⟩
  rfl

end Stages

end Run

theorem process_eq_ok {world : World} {options : ProcessOptions} {name source : String}
    {manifest : Manifest} {t : Trace}
    (h : makeManifest world options name source {} = .ok manifest t) :
    process world options name source = ⟨.ok manifest, t⟩ := by
  rw [process, h]

theorem process_eq_error {world : World} {options : ProcessOptions} {name source : String}
    {stop : Stop} {t : Trace}
    (h : makeManifest world options name source {} = .error stop t) :
    process world options name source = ⟨.error stop, t⟩ := by
  rw [process, h]

section

variable {world : World} {options : ProcessOptions} {name source : String}
  {result : Except Stop Manifest} {asked : List Path}

/-- A run ends in only one way. -/
theorem Ends.report (h : Ends world options name source result asked) :
    (process world options name source).result = result ∧
      (process world options name source).trace.asked = asked := by
  cases h with
  | extension h =>
    have hload := loadEnvironment_eq_error_iff.mpr (.inl h)
    rw [process_eq_error (makeManifest_of_not_loaded hload)]
    exact ⟨rfl, rfl⟩
  | filter hextensions h =>
    have hload := loadEnvironment_eq_error_iff.mpr (.inr ⟨hextensions, h⟩)
    rw [process_eq_error (makeManifest_of_not_loaded hload)]
    exact ⟨rfl, rfl⟩
  | parse hloaded h =>
    obtain ⟨t, hasked, hrun⟩ := makeManifest_of_not_parsed (s := {}) hloaded h
    rw [process_eq_error hrun]
    exact ⟨rfl, hasked⟩
  | compile hloaded hparsed h =>
    obtain ⟨t, hasked, hrun⟩ := makeManifest_of_not_compiled (s := {}) hloaded hparsed h
    rw [process_eq_error hrun]
    exact ⟨rfl, hasked⟩
  | template hprepared h =>
    obtain ⟨t, hasked, hrun⟩ := makeManifest_of_prepared (s := {}) hprepared
    obtain ⟨u, hasked', hstop⟩ := resolveReferences_of_stop (s := t) h
    rw [process_eq_error (hrun.trans hstop)]
    exact ⟨rfl, by rw [hasked', hasked, List.nil_append]⟩
  | expression hprepared hfound hwalk hbefore hnode =>
    obtain ⟨t, hasked, hrun⟩ := makeManifest_of_prepared (s := {}) hprepared
    obtain ⟨dependencies, hjoin⟩ := Lookup.exists_join_eq_found_iff.mpr hfound
    obtain ⟨u, hasked', hresolve⟩ := resolveReferences_of_found (s := t) hjoin
    rw [← Template.name_of_parse hprepared.parsed] at hbefore hnode
    obtain ⟨v, hasked'', hstop⟩ := extractAssets_of_refused (s := u) hwalk hbefore hnode
    rw [process_eq_error (hrun.trans (hresolve.trans hstop))]
    refine ⟨by rw [Template.name_of_parse hprepared.parsed], ?_⟩
    rw [hasked'', hasked', hasked, List.nil_append]
  | asset hprepared hfound hsupported h =>
    obtain ⟨t, hasked, hrun⟩ := makeManifest_of_prepared (s := {}) hprepared
    obtain ⟨dependencies, hjoin⟩ := Lookup.exists_join_eq_found_iff.mpr hfound
    obtain ⟨u, hasked', hresolve⟩ := resolveReferences_of_found (s := t) hjoin
    rw [← Template.name_of_parse hprepared.parsed] at hsupported
    obtain ⟨v, hasked'', hstop⟩ := extractAssets_of_stop (s := u) hsupported h
    rw [process_eq_error (hrun.trans (hresolve.trans hstop))]
    exact ⟨rfl, by rw [hasked'', hasked', hasked, List.nil_append]⟩
  | success hprepared hfound hsupported hmanifest =>
    obtain ⟨t, hasked, hrun⟩ := makeManifest_of_prepared (s := {}) hprepared
    obtain ⟨u, hasked', hresolve⟩ := resolveReferences_of_found (s := t) hmanifest.dependencies
    obtain ⟨found, hjoin, hassets⟩ := hmanifest.resolved
    rw [← Template.name_of_parse hprepared.parsed] at hsupported
    obtain ⟨v, hasked'', hok⟩ := extractAssets_of_found (s := u) hsupported hjoin
    rw [process_eq_ok (hrun.trans (hresolve.trans hok)), ← hassets, ← hmanifest.precompiled,
      ← hmanifest.globals, ← hmanifest.extensions, ← hmanifest.filters]
    refine ⟨rfl, ?_⟩
    rw [hasked'', hasked', hasked, List.nil_append, List.flatMap_append]

/-- What has been put together of the results of all stages is a manifest. -/
theorem exists_stages_of_found {env : Environment} {template : Template} {module : Script.Module}
    (h : Prepared world options name source env template module)
    (hsupported : ∀ node ∈ template.walk, node.refused? template.name = none)
    {dependencies found : List (String × Path)}
    (hdependencies : Lookup.join world.probe
      (template.templateLookups world.cwd options.searchPaths) = .found dependencies)
    (hfound : Lookup.join world.probe
      (template.assetLookups world.cwd options.assetsPaths) = .found found) :
    ∃ manifest : Manifest, manifest.Stages world options name source env template module
      template.assetReferences := by
  have hpaths := Template.assetPaths_eq_ok_iff.mpr ⟨hsupported, rfl⟩
  let entries := assetEntries world.identities template.assetReferences (found.map (·.2))
  refine ⟨⟨replaceAssets entries module.text, dependencies, _, _, _, entries⟩, {
    loaded := h.loaded
    parsed := ofSource_eq_ok h.parsed
    compiled := h.compiled
    dependencies := hdependencies
    extracted := ⟨_, hpaths, (Template.distinctBy_expression hpaths).symm⟩
    resolved := ⟨found, hfound, rfl⟩
    precompiled := rfl
    globals := rfl
    extensions := rfl
    filters := rfl }⟩

/-- Every run ends in one of these ways. -/
theorem exists_ends (world : World) (options : ProcessOptions) (name source : String) :
    ∃ result asked, Ends world options name source result asked := by
  cases hload : loadEnvironment world options with
  | error failure =>
    obtain h | ⟨hextensions, h⟩ := loadEnvironment_eq_error_iff.mp hload
    · exact ⟨_, _, .extension h⟩
    · exact ⟨_, _, .filter hextensions h⟩
  | ok env =>
  cases hparse : Template.parse env name source with
  | error e => exact ⟨_, _, .parse hload hparse⟩
  | ok template =>
  cases hcompile : template.compile env options.moduleVar with
  | error fault => exact ⟨_, _, .compile hload hparse hcompile⟩
  | ok module =>
  have hprepared : Prepared world options name source env template module :=
    ⟨hload, hparse, hcompile⟩
  have hname := Template.name_of_parse hparse
  cases hstop : (Lookup.join world.probe
      (template.templateLookups world.cwd options.searchPaths)).stop? .template with
  | some stop => exact ⟨_, _, .template hprepared hstop⟩
  | none =>
  obtain ⟨dependencies, hdependencies⟩ := Joined.stop?_eq_none_iff.mp hstop
  have hfound := Lookup.exists_join_eq_found_iff.mp ⟨_, hdependencies⟩
  cases hpaths : template.assetPaths with
  | error failure =>
    obtain ⟨before, node, after, operand, hwalk, hbefore, hnode, -⟩ :=
      Template.assetPaths_eq_error_iff.mp hpaths
    rw [hname] at hbefore hnode
    exact ⟨_, _, .expression hprepared hfound hwalk hbefore hnode⟩
  | ok paths =>
  have hsupported := (Template.assetPaths_eq_ok_iff.mp hpaths).1
  cases hstop' : (Lookup.join world.probe
      (template.assetLookups world.cwd options.assetsPaths)).stop? .asset with
  | some stop => exact ⟨_, _, .asset hprepared hfound (hname ▸ hsupported) hstop'⟩
  | none =>
  obtain ⟨found, hjoin⟩ := Joined.stop?_eq_none_iff.mp hstop'
  obtain ⟨manifest, hmanifest⟩ := exists_stages_of_found hprepared hsupported hdependencies hjoin
  refine ⟨_, _, .success hprepared (List.forall_mem_append.mpr ⟨hfound, ?_⟩) (hname ▸ hsupported)
    hmanifest⟩
  exact Lookup.exists_join_eq_found_iff.mp ⟨_, hjoin⟩

/-- A run ends as it is reported to. -/
theorem ends_iff : Ends world options name source result asked ↔
    (process world options name source).result = result ∧
      (process world options name source).trace.asked = asked := by
  constructor
  · exact Ends.report
  · rintro ⟨rfl, rfl⟩
    obtain ⟨result, asked, h⟩ := exists_ends world options name source
    obtain ⟨hresult, hasked⟩ := h.report
    rwa [hresult, hasked]

/-- A manifest is made unless a stage fails or never ends. -/
theorem exists_manifest_iff :
    (∃ manifest, (process world options name source).result = .ok manifest) ↔
      ∃ env template module, Prepared world options name source env template module ∧
        (∀ node ∈ template.walk, node.refused? name = none) ∧
        ∀ l ∈ template.templateLookups world.cwd options.searchPaths ++
            template.assetLookups world.cwd options.assetsPaths,
          ∃ path time, l.FoundAt world.probe path time := by
  constructor
  · rintro ⟨manifest, hmanifest⟩
    have hends := ends_iff.mpr ⟨hmanifest, rfl⟩
    generalize (process world options name source).trace.asked = asked at hends
    cases hends with
    | success hprepared hfound hsupported _ => exact ⟨_, _, _, hprepared, hsupported, hfound⟩
  · rintro ⟨env, template, module, hprepared, hsupported, hfound⟩
    obtain ⟨htemplates, hassets⟩ := List.forall_mem_append.mp hfound
    obtain ⟨dependencies, hdependencies⟩ := Lookup.exists_join_eq_found_iff.mpr htemplates
    obtain ⟨found, hjoin⟩ := Lookup.exists_join_eq_found_iff.mpr hassets
    obtain ⟨manifest, hmanifest⟩ := exists_stages_of_found hprepared
      (Template.name_of_parse hprepared.parsed ▸ hsupported) hdependencies hjoin
    exact ⟨manifest, (Ends.success hprepared hfound hsupported hmanifest).report.1⟩

end

/-- A run ends with the first stage that fails or never answers: the first extension that cannot be
    loaded, the first such filter, the source, the syntax tree, the included templates, the first
    operand that cannot be part of the path of an asset, the assets. If there is none, it gives a
    manifest. Nothing is asked for unless the template has been compiled, and no asset is asked for
    unless all included templates have been found and the paths of all assets are known. -/
theorem process_ends (world : World) (options : ProcessOptions) (name source : String) :
    (∀ result asked, Ends world options name source result asked ↔
      (process world options name source).result = result ∧
        (process world options name source).trace.asked = asked) ∧
    ((∃ manifest, (process world options name source).result = .ok manifest) ↔
      ∃ env template module, Prepared world options name source env template module ∧
        (∀ node ∈ template.walk, node.refused? name = none) ∧
        ∀ l ∈ template.templateLookups world.cwd options.searchPaths ++
            template.assetLookups world.cwd options.assetsPaths,
          ∃ path time, l.FoundAt world.probe path time) ∧
    ((process world options name source).trace.asked ≠ [] →
      ∃ env template module, Prepared world options name source env template module) ∧
    ∀ env template module, Prepared world options name source env template module →
      (∀ l ∈ template.templateLookups world.cwd options.searchPaths,
          ∃ path time, l.FoundAt world.probe path time) ∧
        (∀ node ∈ template.walk, node.refused? name = none) ∨
      (process world options name source).trace.asked =
        Lookup.asked world.probe (template.templateLookups world.cwd options.searchPaths) := by
  obtain ⟨result, asked, hends⟩ := exists_ends world options name source
  obtain ⟨hresult, hasked⟩ := hends.report
  refine ⟨fun _ _ => ends_iff, exists_manifest_iff, ?_, ?_⟩
  · rw [hasked]
    cases hends with
    | template h | expression h | asset h | success h => exact fun _ => ⟨_, _, _, h⟩
    | _ => exact fun h => absurd rfl h
  · intro env template module hprepared
    have hname := Template.name_of_parse hprepared.parsed
    by_cases hfound : ∀ l ∈ template.templateLookups world.cwd options.searchPaths,
        ∃ path time, l.FoundAt world.probe path time
    · by_cases hsupported : ∀ node ∈ template.walk, node.refused? name = none
      · exact .inl ⟨hfound, hsupported⟩
      · right
        cases hpaths : template.assetPaths with
        | ok paths => exact absurd (hname ▸ (Template.assetPaths_eq_ok_iff.mp hpaths).1) hsupported
        | error failure =>
          obtain ⟨before, node, after, operand, hwalk, hbefore, hnode, -⟩ :=
            Template.assetPaths_eq_error_iff.mp hpaths
          rw [hname] at hbefore hnode
          rw [Lookup.asked_of_found hfound]
          exact (Ends.expression hprepared hfound hwalk hbefore hnode).report.2
    · right
      cases hstop : (Lookup.join world.probe
          (template.templateLookups world.cwd options.searchPaths)).stop? .template with
      | some stop => exact (Ends.template hprepared hstop).report.2
      | none =>
        exact absurd (Lookup.exists_join_eq_found_iff.mp (Joined.stop?_eq_none_iff.mp hstop)) hfound

end TemplateManifest
