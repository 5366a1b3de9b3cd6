import TemplateManifest.Proofs.Compile.Gathering
import TemplateManifest.Proofs.Process.Loading

/-!
The addons that a manifest lists are those that the compiled template fetches. Main statement:
`process_listsFetched`.
-/

namespace TemplateManifest

open Script Vocabulary

theorem Script.Expr.item?_eq_some_fetch {e : Expr} {addon : Fetch} :
    e.item? = some (.fetch addon) ↔ e.fetch? = some addon := by
  cases e <;> simp [Expr.item?, Expr.fetch?]

/-- Code that fetches an addon has the call that does so among its parts. -/
theorem Script.fetch_filter_mem_inventory {parts : List Expr} {addon : String} :
    .fetch (.filter addon) ∈ inventory parts ↔ getFilter addon ∈ parts := by
  simp only [mem_inventory, Expr.item?_eq_some_fetch, Expr.fetch?_eq_some_filter, exists_eq_right]

theorem Script.fetch_extension_mem_inventory {parts : List Expr} {addon : String} :
    .fetch (.extension addon) ∈ inventory parts ↔ getExtension addon ∈ parts := by
  simp only [mem_inventory, Expr.item?_eq_some_fetch, Expr.fetch?_eq_some_extension, exists_eq_right]

namespace CodeContext

variable {cx : CodeContext} {node : Node} {addon : String}

theorem fetch_notMem_waits {isAsync : Bool} {called : Option Fetch} {addon : Fetch} :
    .fetch addon ∉ waits isAsync called := by
  cases isAsync <;> simp [waits]

theorem fetch_filter_mem_own :
    .fetch (.filter addon) ∈ cx.own node ↔ node.filterName? = some addon := by
  cases node with
  | filter pos name target args kwargs =>
    simp [own, Node.filterName?, fetch_notMem_waits, eq_comm]
  | extensionCall pos site method args kwargs bodies isAsync =>
    rw [own]
    cases cx.env.extension? site <;>
      simp [Node.filterName?, fetch_notMem_waits, Multiset.mem_replicate]
  | inclusion pos form template =>
    cases form <;> simp [own, inclusionWaits, Node.filterName?, fetch_notMem_waits]
  | _ => simp [own, Node.filterName?, fetch_notMem_waits]

theorem fetch_extension_mem_own :
    .fetch (.extension addon) ∈ cx.own node ↔
      ∃ site e, node.site? = some site ∧ cx.env.extension? site = some e ∧ e.name = addon := by
  cases node with
  | extensionCall pos site method args kwargs bodies isAsync =>
    rw [own]
    cases hsite : cx.env.extension? site <;>
      simp [Node.site?, hsite, fetch_notMem_waits, Multiset.mem_replicate, eq_comm]
  | inclusion pos form template =>
    cases form <;> simp [own, inclusionWaits, Node.site?, fetch_notMem_waits]
  | _ => simp [own, Node.site?, fetch_notMem_waits]

end CodeContext

namespace Template

variable {template : Template} {env : Environment} {moduleVar : String} {module : Module}

/-- The module of a template fetches the filters that the nodes of the template apply. -/
theorem getFilter_mem_parts_iff (h : template.compile env moduleVar = .ok module) {addon : String} :
    getFilter addon ∈ module.parts ↔ ∃ node ∈ template.walk, node.filterName? = some addon := by
  obtain ⟨hinventory, -⟩ := inventory_compile h
  rw [← fetch_filter_mem_inventory, hinventory, Multiset.mem_add,
    or_iff_right CodeContext.fetch_notMem_waits, Multiset.mem_bind]
  simp only [Node.mem_census, CodeContext.fetch_filter_mem_own]
  rfl

/-- The module of a template fetches the extensions that the nodes of the template call. -/
theorem getExtension_mem_parts_iff (h : template.compile env moduleVar = .ok module)
    {addon : String} :
    getExtension addon ∈ module.parts ↔ ∃ node ∈ template.walk, ∃ site e,
      node.site? = some site ∧ env.extension? site = some e ∧ e.name = addon := by
  obtain ⟨hinventory, -⟩ := inventory_compile h
  rw [← fetch_extension_mem_inventory, hinventory, Multiset.mem_add,
    or_iff_right CodeContext.fetch_notMem_waits, Multiset.mem_bind]
  simp only [Node.mem_census, CodeContext.fetch_extension_mem_own]
  rfl

theorem mem_findAll {category : Category} {node : Node} :
    node ∈ template.findAll category ↔ node ∈ template.walk ∧ node.category = category := by
  rw [findAll, Node.findAll, List.mem_filter, decide_eq_true_eq]
  rfl

theorem mem_used {α : Type} {category : Category} {candidates : List α} {bears : α → Node → Bool}
    {a : α} (hbears : ∀ node, bears a node = true → node.category = category) :
    a ∈ template.used category candidates bears ↔
      a ∈ candidates ∧ ∃ node ∈ template.walk, bears a node = true := by
  rw [used, List.mem_filter, List.any_eq_true]
  refine and_congr_right fun _ => exists_congr fun node => ?_
  rw [mem_findAll, and_assoc]
  exact and_congr_right fun _ => and_iff_right_of_imp (hbears node)

theorem mem_usedFilters {fs : List FilterAddon} {f : FilterAddon} :
    f ∈ template.usedFilters fs ↔
      f ∈ fs ∧ ∃ node ∈ template.walk, node.filterName? = some f.name := by
  refine (mem_used fun node hnode => ?_).trans
    (and_congr_right fun _ => exists_congr fun node => and_congr_right fun _ => ?_)
  · cases node <;> first | rfl | cases hnode
  · cases node <;> simp [Node.filterName?]

theorem mem_usedExtensions {es : List Extension} {e : Extension} :
    e ∈ template.usedExtensions es ↔
      e ∈ es ∧ ∃ node ∈ template.walk, ∃ site, node.site? = some site ∧ e.answers site = true := by
  refine (mem_used fun node hnode => ?_).trans
    (and_congr_right fun _ => exists_congr fun node => and_congr_right fun _ => ?_)
  · cases node <;> first | rfl | cases hnode
  · cases node <;> simp [Node.site?]

end Template

/-- If names and identities are distinct, a call site names one extension at most. -/
theorem Environment.extension?_eq_some_iff {env : Environment}
    (hnames : (env.extensions.map Extension.name).Nodup)
    (hhandles : (env.extensions.map Extension.handle).Nodup) {site : Site} {e : Extension} :
    env.extension? site = some e ↔ e ∈ env.extensions ∧ e.answers site = true := by
  rw [extension?]
  constructor
  · exact fun h => ⟨List.mem_of_find?_eq_some h, List.find?_some (p := fun e : Extension => e.answers site) h⟩
  · rintro ⟨hmem, hanswers⟩
    have hfound : (env.extensions.find? fun e => e.answers site).isSome = true :=
      List.find?_isSome.mpr ⟨e, hmem, hanswers⟩
    obtain ⟨e', he'⟩ := Option.isSome_iff_exists.mp hfound
    have hmem' := List.mem_of_find?_eq_some he'
    have hanswers' : e'.answers site = true := List.find?_some (p := fun e : Extension => e.answers site) he'
    rw [he', Option.some.injEq]
    cases site with
    | byName name =>
      refine List.inj_on_of_nodup_map hnames hmem' hmem ?_
      rw [of_decide_eq_true hanswers, of_decide_eq_true hanswers']
    | byHandle handle =>
      refine List.inj_on_of_nodup_map hhandles hmem' hmem ?_
      rw [of_decide_eq_true hanswers, of_decide_eq_true hanswers']

/-- Of the declared addons exactly those are listed whose fetching is among the parts of some code,
    each once and in the order of the declarations. -/
structure ListsFetched {α : Type} (declaration : α → String × Path) (fetch : String → Expr)
    (parts : List Expr) (declared : List (String × Path)) (listed : List α) : Prop where
  sublist : (listed.map declaration).Sublist (inNameOrder declared)
  nodup : (listed.map fun a => (declaration a).1).Nodup
  mem_iff : ∀ d ∈ declared, d ∈ listed.map declaration ↔ fetch d.1 ∈ parts

/-- Some of the loaded addons are listed. -/
theorem ListsFetched.of_loaded {α : Type} {declaration : α → String × Path} {fetch : String → Expr}
    {parts : List Expr} {declared : List (String × Path)} {loaded listed : List α}
    (hnames : (declared.map Prod.fst).Nodup) (hloaded : loaded.map declaration = inNameOrder declared)
    (hlisted : listed.Sublist loaded)
    (hmem : ∀ a ∈ loaded, a ∈ listed ↔ fetch (declaration a).1 ∈ parts) :
    ListsFetched declaration fetch parts declared listed := by
  have hnodup : (loaded.map fun a => (declaration a).1).Nodup := by
    have hperm := (inNameOrder_perm declared).map Prod.fst
    rw [← hloaded, List.map_map] at hperm
    exact hperm.nodup_iff.mpr hnames
  refine ⟨hloaded ▸ hlisted.map declaration, hnodup.sublist (hlisted.map _), fun d hd => ?_⟩
  have hd' : d ∈ loaded.map declaration := hloaded ▸ (inNameOrder_perm declared).mem_iff.mpr hd
  obtain ⟨a, ha, rfl⟩ := List.mem_map.mp hd'
  rw [← hmem a ha, List.mem_map]
  constructor
  · rintro ⟨a', ha', heq⟩
    have ha'' := List.inj_on_of_nodup_map hnodup (hlisted.subset ha') ha (congrArg Prod.fst heq)
    exact ha'' ▸ ha'
  · exact fun ha' => ⟨a, ha', rfl⟩

/-- A manifest lists the declared addons that its code fetches: the filters by their names, and the
    extensions by theirs, however the calls in the template name them. -/
theorem process_listsFetched {world : World} {options : ProcessOptions} {name source : String}
    {manifest : Manifest} (hextensions : (options.extensions.map Prod.fst).Nodup)
    (hfilters : (options.filters.map Prod.fst).Nodup)
    (hidentities : Function.Injective world.identities.extension)
    (h : (process world options name source).result = .ok manifest) :
    ∃ env template module, loadEnvironment world options = .ok env ∧
      Template.ofSource env name source = .ok template ∧
      template.compile env options.moduleVar = .ok module ∧
      manifest.precompiled = replaceAssets manifest.assets module.text ∧
      ListsFetched FilterAddon.declaration getFilter module.parts options.filters
        manifest.filters ∧
      ListsFetched Extension.declaration getExtension module.parts options.extensions
        manifest.extensions ∧
      ∀ e, e ∈ manifest.extensions ↔
        ∃ node ∈ template.walk, ∃ site, node.site? = some site ∧ env.extension? site = some e := by
  obtain ⟨env, template, module, assets, hstages⟩ := exists_stages h
  obtain ⟨hes, hfs, -⟩ := loadEnvironment_eq_ok hstages.loaded
  have hdeclared := declaration_loadExtensions hes
  have hnames : (env.extensions.map Extension.name).Nodup := by
    have hperm := (inNameOrder_perm options.extensions).map Prod.fst
    rw [← hdeclared, List.map_map] at hperm
    exact hperm.nodup_iff.mpr hextensions
  have hsite {site : Site} {e : Extension} :
      env.extension? site = some e ↔ e ∈ env.extensions ∧ e.answers site = true :=
    Environment.extension?_eq_some_iff hnames (nodup_handle_loadExtensions hidentities hes)
  have hcalled (e : Extension) : e ∈ manifest.extensions ↔
      ∃ node ∈ template.walk, ∃ site, node.site? = some site ∧ env.extension? site = some e := by
    rw [hstages.extensions, Template.mem_usedExtensions]
    simp only [hsite]
    exact ⟨fun ⟨he, node, hnode, site, hs, ha⟩ => ⟨node, hnode, site, hs, he, ha⟩,
      fun ⟨node, hnode, site, hs, he, ha⟩ => ⟨he, node, hnode, site, hs, ha⟩⟩
  refine ⟨env, template, module, hstages.loaded, hstages.parsed, hstages.compiled,
    hstages.precompiled, .of_loaded hfilters (declaration_loadFilters hfs) ?_ fun f hf => ?_,
    .of_loaded hextensions hdeclared ?_ fun e he => ?_, hcalled⟩
  · rw [hstages.filters]
    exact List.filter_sublist
  · rw [hstages.filters, Template.mem_usedFilters, and_iff_right hf]
    exact (Template.getFilter_mem_parts_iff hstages.compiled).symm
  · rw [hstages.extensions]
    exact List.filter_sublist
  · rw [hcalled, Template.getExtension_mem_parts_iff hstages.compiled]
    refine exists_congr fun node => and_congr_right fun _ => exists_congr fun site => ?_
    constructor
    · exact fun ⟨hs, hfound⟩ => ⟨e, hs, hfound, rfl⟩
    · rintro ⟨e', hs, hfound, heq⟩
      have he' := List.inj_on_of_nodup_map hnames (hsite.mp hfound).1 he heq
      exact ⟨hs, he' ▸ hfound⟩

/-- A world in which the tags of two extensions can be loaded: the tag `alias` stands for a call of
    the other extension. -/
def aliasWorld : World where
  cwd := ⟨"/w"⟩
  load kind name _ :=
    match kind with
    | .filter => .ok (.filter false)
    | .extension =>
      .ok (.extension [name]
        (if name = "alias" then .scripted { site := .fixed (.byName "note") }
         else .standard false .handle false))
  probe _ := .after 0 true
  identities :=
    let numbered (index : Nat) := String.ofList (List.replicate index 'x')
    ⟨numbered, numbered, numbered⟩

theorem process_listsFetched_alias :
    let options : ProcessOptions :=
      { extensions := [("alias", ⟨"/alias.js"⟩), ("note", ⟨"/note.js"⟩)],
        filters := [("loud", ⟨"/loud.js"⟩), ("mild", ⟨"/mild.js"⟩)] }
    let source := "\x7b% alias %\x7d\x7b\x7b x | mild \x7d\x7d"
    ∃ (manifest : Manifest) (module : Module),
      (process aliasWorld options "t.njk" source).result = .ok manifest ∧
      manifest.precompiled = replaceAssets manifest.assets module.text ∧
      getExtension "note" ∈ module.parts ∧ getExtension "alias" ∉ module.parts ∧
      getFilter "mild" ∈ module.parts ∧ getFilter "loud" ∉ module.parts := by
  intro options source
  have hinOrder : inNameOrder options.extensions = options.extensions ∧
      inNameOrder options.filters = options.filters :=
    ⟨List.mergeSort_of_pairwise (by decide +kernel), List.mergeSort_of_pairwise (by decide +kernel)⟩
  have hok : (process aliasWorld options "t.njk" source).result.toOption.any (fun manifest =>
      manifest.extensions.map Extension.declaration = [("note", ⟨"/note.js"⟩)] ∧
        manifest.filters.map FilterAddon.declaration = [("mild", ⟨"/mild.js"⟩)]) = true := by
    unfold process makeManifest loadEnvironment loadExtensions loadFilters
    rw [hinOrder.1, hinOrder.2]
    decide +kernel
  obtain ⟨manifest, hmanifest, hlisted⟩ := exists_eq_ok_of_any hok
  obtain ⟨hextensions, hfilters⟩ := of_decide_eq_true hlisted
  have hidentities : Function.Injective aliasWorld.identities.extension := fun i j hij => by
    have hlength := congrArg List.length (String.ofList_injective hij)
    simpa using hlength
  have hextensionNames : (options.extensions.map Prod.fst).Nodup := by decide
  have hfilterNames : (options.filters.map Prod.fst).Nodup := by decide
  obtain ⟨env, template, module, -, -, -, hprecompiled, hfetchedFilters, hfetchedExtensions, -⟩ :=
    process_listsFetched hextensionNames hfilterNames hidentities hmanifest
  have hnote := hfetchedExtensions.mem_iff ("note", ⟨"/note.js"⟩) (by decide)
  have halias := hfetchedExtensions.mem_iff ("alias", ⟨"/alias.js"⟩) (by decide)
  have hmild := hfetchedFilters.mem_iff ("mild", ⟨"/mild.js"⟩) (by decide)
  have hloud := hfetchedFilters.mem_iff ("loud", ⟨"/loud.js"⟩) (by decide)
  rw [hextensions] at hnote halias
  rw [hfilters] at hmild hloud
  exact ⟨manifest, module, hmanifest, hprecompiled, hnote.mp (by decide),
    halias.not.mp (by decide), hmild.mp (by decide), hloud.not.mp (by decide)⟩

end TemplateManifest
