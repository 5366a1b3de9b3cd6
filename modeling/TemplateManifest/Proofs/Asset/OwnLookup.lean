import TemplateManifest.Proofs.Asset.Entries
import TemplateManifest.Proofs.Asset.Watched

/-!
What becomes of the path in a call of the asset function. Main statement: the code of the path
becomes the lookup of the call's own entry exactly when no other entry gets in its way.
-/

namespace TemplateManifest

open Script

/-- A text in which the middle part is watched. -/
def watchPart (before part after : List Char) : TracedText :=
  before.map (fun c => (c, ⟨some false, none⟩)) ++ part.map (fun c => (c, ⟨some true, none⟩)) ++
    after.map fun c => (c, ⟨some false, none⟩)

theorem chars_watchPart (before part after : List Char) :
    (watchPart before part after).chars = before ++ part ++ after := by
  simp [watchPart, TracedText.chars, Function.comp_def]

theorem put_watchPart {before part after : List Char} {c : Char × Origin}
    (h : c ∈ watchPart before part after) : c.2.put = none := by
  simp only [watchPart, List.mem_append, List.mem_map] at h
  rcases h with (⟨_, _, rfl⟩ | ⟨_, _, rfl⟩) | ⟨_, _, rfl⟩ <;> rfl

/-- In the module stands the code of a call of the asset function, and `code` is that of its first
    argument, which spells the path. -/
def Script.Module.HasPathCode (module : Module) (call : Node) (path : AssetPath) (code : Expr) :
    Prop :=
  ∃ pos p arg args kwargs called others,
    call = .call pos (.symbol p assetFunction) (arg :: args) kwargs ∧
      arg.assetPath? = some path ∧
      CodeContext.callCode pos called assetFunction (.ofNode arg code :: others) ∈ module.parts

theorem Script.Module.HasPathCode.infix_text {module : Module} {call : Node} {path : AssetPath}
    {code : Expr} (h : module.HasPathCode call path code) :
    code.text.toList <:+: module.text.toList := by
  obtain ⟨pos, p, arg, args, kwargs, called, others, _, _, hmem⟩ := h
  refine List.IsInfix.trans (Expr.infix_of_mem_parts ?_) (Module.infix_of_mem_parts hmem)
  have hself := Expr.mem_parts_self code
  simp only [CodeContext.callCode, Vocabulary.runtime, Vocabulary.method, Expr.parts,
    Expr.partsAll, List.mem_append, List.mem_cons]
  grind

/-- A call whose path was extracted has code in the module, and the code of its path has the texts
    of the path's variables. -/
theorem exists_hasPathCode {template : Template} {env : Environment} {moduleVar : String}
    {module : Module} (hmodule : template.compile env moduleVar = .ok module) {call : Node}
    {path : AssetPath} (hcall : call ∈ template.walk)
    (hpath : call.assetCall? template.name = some (.asset path)) :
    ∃ code, module.HasPathCode call path code ∧
      List.Forall₂ (CodeContext.EmitsFor ⟨template.name, env, template.requiresAsync env⟩)
        path.variableNames code.values := by
  obtain ⟨pos, p, arg, args, kwargs, rfl, harg⟩ := Node.assetCall?_eq_asset hpath
  obtain ⟨_, s, t, hcode, hmem⟩ := Template.exists_code_of_mem_walk hmodule hcall rfl
  obtain ⟨called, first, others, u, v, hfirst, rfl⟩ := CodeContext.expression_call_eq_ok hcode
  obtain ⟨code, rfl, hvalues⟩ := CodeContext.expression_path_eq_ok harg hfirst
  exact ⟨code, ⟨pos, p, arg, args, kwargs, called, others, rfl, harg, hmem⟩, hvalues⟩

/-- In every manifest and for every call of the asset function whose path was extracted, the path
    has one entry of its own, and the code of the path stands in the module. Wherever it stands,
    it has become the lookup of that entry, with the values of its variables, exactly when one
    match of the entry takes up as a whole what the earlier entries have left of the code, and no
    later entry matches any of the lookup. -/
theorem watchedIs_own_lookup_iff {world : World} {options : ProcessOptions} {name source : String}
    {manifest : Manifest} (h : (process world options name source).result = .ok manifest) :
    ∃ env template module assets,
      manifest.Stages world options name source env template module assets ∧
      ∀ call ∈ template.walk, ∀ path, call.assetCall? template.name = some (.asset path) →
        ∃ earlier own later code,
          manifest.assets = earlier ++ own :: later ∧
          own.reference.expression = path.expression ∧
          (∀ other ∈ earlier ++ later, other.reference.expression ≠ path.expression) ∧
          module.HasPathCode call path code ∧
          List.Forall₂ (CodeContext.EmitsFor ⟨template.name, env, template.requiresAsync env⟩)
            path.variableNames code.values ∧
          code.text.toList <:+: module.text.toList ∧
          ∀ before after, module.text.toList = before ++ code.text.toList ++ after →
            let compiled := watchPart before code.text.toList after
            let lookup := (own.lookupText code.values).toList
            (traceAssets manifest.assets compiled).chars = manifest.precompiled.toList ∧
              ((traceAssets manifest.assets compiled).WatchedIs (own.putText (some true) lookup) ↔
                own.TakesWhole lookup (traceAssets earlier compiled) ∧
                  MatchOnly false later (own.trace (traceAssets earlier compiled))) := by
  obtain ⟨env, template, module, assets, hstages⟩ := exists_stages h
  refine ⟨env, template, module, assets, hstages, fun call hcall path hpath => ?_⟩
  obtain ⟨earlier, own, later, hassets, hown, hothers⟩ := hstages.exists_own_entry hcall hpath
  obtain ⟨code, hcode, hvalues⟩ := exists_hasPathCode hstages.compiled hcall hpath
  refine ⟨earlier, own, later, code, hassets, hown, hothers, hcode, hvalues, hcode.infix_text,
    fun before after htext => ?_⟩
  intro compiled lookup
  have hearlier : own ∉ earlier := fun hmem => hothers own (List.mem_append_left _ hmem) hown
  have hlater : own ∉ later := fun hmem => hothers own (List.mem_append_right _ hmem) hown
  refine ⟨?_, ?_⟩
  · rw [chars_traceAssets, chars_watchPart, ← htext, String.ofList_toList, hstages.precompiled]
  · rw [hassets]
    exact watchedIs_traceAssets_iff (fun c hc => put_watchPart hc) hearlier hlater
      (own.lookupText_ne_nil code.values)

/-- A world in which every path exists, no addon can be loaded, and assets are numbered. -/
def openWorld : World :=
  ⟨⟨"/w"⟩, fun _ _ _ => .error "", fun _ => .after 0 true,
    ⟨fun _ => "", fun _ => "", fun index => String.ofList (Nat.toDigits 10 index)⟩⟩

/-- A string and a sum that starts with it: each call has its own entry. -/
theorem watchedIs_own_lookup_iff_string_and_sum :
    let options : ProcessOptions := { assetsPaths := [⟨"/a"⟩] }
    let source := "\x7b\x7b static('img') \x7d\x7d\x7b\x7b static('img' + x) \x7d\x7d"
    ∃ manifest own, (process openWorld options "t.njk" source).result = .ok manifest ∧
      own ∈ manifest.assets ∧ own.reference.expression = (AssetPath.static "img").expression := by
  intro options source
  have hok : (process openWorld options "t.njk" source).result.toOption.any
      (fun manifest => manifest.assets.length = 2) = true := by
    decide +kernel
  obtain ⟨manifest, hmanifest, _⟩ := exists_eq_ok_of_any hok
  have hcall : (Template.ofSource {} "t.njk" source).toOption.any (fun template =>
      template.walk.any fun call => (call.assetCall? template.name).any fun said =>
        (collectAssets [said]).2.toOption = some [.static "img"]) = true := by
    decide +kernel
  obtain ⟨env, template, module, assets, hstages, hcalls⟩ := watchedIs_own_lookup_iff hmanifest
  obtain rfl : { options := options.language } = env :=
    Except.ok.inj ((loadEnvironment_of_nil openWorld rfl rfl).symm.trans hstages.loaded)
  obtain ⟨template', htemplate, hcall⟩ := exists_eq_ok_of_any hcall
  obtain rfl : template = template' := Except.ok.inj (hstages.parsed.symm.trans htemplate)
  obtain ⟨call, hmem, hpath⟩ := List.any_eq_true.mp hcall
  obtain ⟨said, hsaid, hpath⟩ := (Option.any_eq_true _ _).mp hpath
  have hpath := of_decide_eq_true hpath
  cases said with
  | refused operand => cases hpath
  | skipped warning => cases hpath
  | asset path =>
    obtain rfl : path = .static "img" := List.head_eq_of_cons_eq (Option.some.inj hpath)
    obtain ⟨earlier, own, later, _, hassets, hown, _⟩ := hcalls call hmem _ hsaid
    refine ⟨manifest, own, hmanifest, ?_, hown⟩
    rw [hassets]
    exact List.mem_append_right _ List.mem_cons_self

/-- In the same template the string is replaced inside the sum too, and what is left of the sum is
    not found any more: its entry has no lookup in the text. -/
theorem exists_entry_without_lookup :
    let options : ProcessOptions := { assetsPaths := [⟨"/a"⟩] }
    let source := "\x7b\x7b static('img') \x7d\x7d\x7b\x7b static('img' + x) \x7d\x7d"
    ∃ manifest own, (process openWorld options "t.njk" source).result = .ok manifest ∧
      own ∈ manifest.assets ∧ ¬ (Text.quote own.id).toList <:+: manifest.precompiled.toList := by
  intro options source
  let sum : AssetEntry := ⟨⟨"/a"⟩, "1", .dynamic [.literal (.str "img"), .symbol "x"]⟩
  let entries : List AssetEntry := [⟨⟨"/a/img"⟩, "0", .static "img"⟩, sum]
  have hok : (process openWorld options "t.njk" source).result.toOption.any
      (fun manifest => manifest.assets = entries) = true := by
    decide +kernel
  obtain ⟨manifest, hmanifest, hassets⟩ := exists_eq_ok_of_any hok
  have hlost : (Template.ofSource {} "t.njk" source).toOption.any (fun template =>
      (template.compile {} "template").toOption.any fun module =>
        !decide ((Text.quote sum.id).toList <:+:
          (traceAssets entries (module.traced entries)).chars)) = true := by
    decide +kernel
  obtain ⟨env, template, module, assets, hstages⟩ := exists_stages hmanifest
  obtain rfl : { options := options.language } = env :=
    Except.ok.inj ((loadEnvironment_of_nil openWorld rfl rfl).symm.trans hstages.loaded)
  obtain ⟨template', htemplate, hlost⟩ := exists_eq_ok_of_any hlost
  obtain rfl : template = template' := Except.ok.inj (hstages.parsed.symm.trans htemplate)
  obtain ⟨module', hmodule, hlost⟩ := exists_eq_ok_of_any hlost
  obtain rfl : module = module' := Except.ok.inj (hstages.compiled.symm.trans hmodule)
  refine ⟨manifest, sum, hmanifest, ?_, ?_⟩
  · rw [of_decide_eq_true hassets]
    exact List.mem_cons_of_mem _ (List.mem_singleton_self sum)
  · rw [hstages.precompiled, of_decide_eq_true hassets]
    rw [chars_traceAssets, chars_traced, String.ofList_toList] at hlost
    simpa using hlost

end TemplateManifest
