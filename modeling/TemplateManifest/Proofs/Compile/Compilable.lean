import TemplateManifest.Compile.Source
import TemplateManifest.Proofs.Compile.Refusal

/-!
Which templates can be compiled. Compiling one that has been read fails only because of the variable
for its module, a filter, or the names of its blocks. Main statement: `Template.compile_parsed`.
-/

namespace TemplateManifest

open Script Vocabulary

namespace Node

/-- All blocks in the tree have statements for their bodies. -/
def BlocksHoldStatements (env : Environment) (root : Node) : Prop :=
  ∀ node : Node, node.Within root → ∀ b ∈ node.block?, AreStatements env b.body

section

variable {env : Environment} {root : Node}

theorem blocksHoldStatements_of_children (hroot : ∀ b ∈ root.block?, AreStatements env b.body)
    (h : ∀ child ∈ root.children, child.BlocksHoldStatements env) :
    root.BlocksHoldStatements env := by
  intro node hwithin
  cases hwithin with
  | self => exact hroot
  | child hchild hwithin => exact h _ hchild node hwithin

theorem blocksHoldStatements_of_none (hroot : root.block? = none)
    (h : ∀ child ∈ root.children, child.BlocksHoldStatements env) : root.BlocksHoldStatements env :=
  blocksHoldStatements_of_children (by simp [hroot]) h

theorem IsExpression.blocksHoldStatements (h : root.IsExpression) :
    root.BlocksHoldStatements env := by
  intro node hwithin
  have hnode : node.IsExpression := by
    induction hwithin with
    | self => exact h
    | child hchild _ ih => exact ih (h.child hchild)
  cases hnode <;> exact fun _ hb => by cases hb

theorem blocksHoldStatements_keywords {kwargs : List (String × Node)}
    (h : ∀ entry ∈ kwargs, entry.2.IsExpression) :
    ∀ node ∈ kwargs.map (·.2), node.BlocksHoldStatements env :=
  List.forall_mem_map.mpr fun entry hentry => (h entry hentry).blocksHoldStatements

theorem IsStatement.blocksHoldStatements (h : root.IsStatement env) :
    root.BlocksHoldStatements env := by
  have hexpressions {nodes : List Node} (h : ∀ node ∈ nodes, node.IsExpression) :
      ∀ node ∈ nodes, node.BlocksHoldStatements env :=
    fun node hnode => (h node hnode).blocksHoldStatements
  induction h with
  | data => exact blocksHoldStatements_of_none rfl (List.forall_mem_nil _)
  | output h | assign h | inclusion h =>
    exact blocksHoldStatements_of_none rfl (List.forall_mem_singleton.mpr h.blocksHoldStatements)
  | ifElse h _ _ ihbody ihotherwise | forEach h _ _ ihbody ihotherwise =>
    exact blocksHoldStatements_of_none rfl (List.forall_mem_cons.mpr
      ⟨h.blocksHoldStatements, List.forall_mem_append.mpr ⟨ihbody, ihotherwise⟩⟩)
  | assignBody _ ih =>
    exact blocksHoldStatements_of_none rfl
      (List.forall_mem_singleton.mpr (blocksHoldStatements_of_none rfl ih))
  | block h ih =>
    refine blocksHoldStatements_of_children ?_ ih
    rintro _ ⟨⟩
    exact h
  | macroDef hparams _ ihbody =>
    exact blocksHoldStatements_of_none rfl
      (List.forall_mem_append.mpr ⟨hexpressions hparams, ihbody⟩)
  | @callBlock pos pos' callee args kwargs params body hcallee hargs hkwargs hparams _ ihbody =>
    have hcaller : (callerBody pos params body).BlocksHoldStatements env :=
      blocksHoldStatements_of_none rfl
        (List.forall_mem_append.mpr ⟨hexpressions hparams, ihbody⟩)
    refine blocksHoldStatements_of_none rfl (List.forall_mem_singleton.mpr
      (blocksHoldStatements_of_none rfl (List.forall_mem_cons.mpr
        ⟨hcallee.blocksHoldStatements, List.forall_mem_append.mpr ⟨hexpressions hargs, ?_⟩⟩)))
    rw [List.map_append]
    exact List.forall_mem_append.mpr
      ⟨blocksHoldStatements_keywords hkwargs, List.forall_mem_singleton.mpr hcaller⟩
  | filterBlock _ hargs hkwargs ihbody =>
    exact blocksHoldStatements_of_none rfl (List.forall_mem_singleton.mpr
      (blocksHoldStatements_of_none rfl (List.forall_mem_cons.mpr
        ⟨blocksHoldStatements_of_none rfl ihbody, List.forall_mem_append.mpr
          ⟨hexpressions hargs, blocksHoldStatements_keywords hkwargs⟩⟩)))
  | extensionCall _ hargs hkwargs _ ihbodies =>
    refine blocksHoldStatements_of_none rfl (List.forall_mem_append.mpr
      ⟨List.forall_mem_append.mpr ⟨hexpressions hargs, blocksHoldStatements_keywords hkwargs⟩, ?_⟩)
    intro node hnode
    obtain ⟨body, hbody, hnode⟩ := List.mem_flatten.mp hnode
    exact ihbodies body hbody node hnode

/-- In statements, the bodies of blocks are statements at any depth. -/
theorem AreStatements.body {nodes : List Node} (h : AreStatements env nodes) {node : Node}
    {b : PendingBlock} (hnode : node ∈ census nodes) (hb : node.block? = some b) :
    AreStatements env b.body := by
  obtain ⟨root, hroot, hwithin⟩ := mem_walk_iff.mp (mem_census.mp hnode)
  exact (h root hroot).blocksHoldStatements node hwithin b hb

end

end Node

namespace CodeContext

variable {cx : CodeContext}

/-- The blocks that are left to later when statements are compiled hold statements. -/
theorem Visits.areStatements {nodes : List Node} {items : Multiset Feature} {visited : Multiset Node}
    {later : List PendingBlock} (h : cx.Visits nodes items visited later)
    (hnodes : Node.AreStatements cx.env nodes) :
    ∀ b ∈ later, Node.AreStatements cx.env b.body := by
  intro b hb
  rw [← Multiset.mem_coe, h.blocks, Multiset.mem_filterMap] at hb
  obtain ⟨node, hnode, hb⟩ := hb
  have hmem : node ∈ Node.census nodes := by
    rw [h.census]
    exact Multiset.mem_add.mpr (.inl hnode)
  exact hnodes.body hmem hb

/-- The names of the functions that are still to be written when some blocks are pending: those of
    these blocks and of the blocks in their bodies. -/
def namesToWrite (pending : List PendingBlock) : Multiset String :=
  (pending.map PendingBlock.name : List String) + blockNames (below pending)

theorem mem_namesToWrite_cons (b : PendingBlock) (pending : List PendingBlock) :
    b.name ∈ namesToWrite (b :: pending) :=
  Multiset.mem_add.mpr (.inl (Multiset.mem_coe.mpr List.mem_cons_self))

/-- The functions that are still to be written after some nodes are those of the blocks in them. -/
theorem Visits.namesToWrite_later {nodes : List Node} {items : Multiset Feature}
    {visited : Multiset Node} {later : List PendingBlock} (h : cx.Visits nodes items visited later) :
    namesToWrite later = CodeContext.blockNames (Node.census nodes) := by
  have hcensus : Node.census nodes = visited + below later := h.census
  rw [hcensus, blockNames_add, h.blockNames, CodeContext.namesToWrite]

/-- A block that is written leaves the names of the others. -/
theorem Visits.namesToWrite_cons {b : PendingBlock} {pending later : List PendingBlock}
    {items : Multiset Feature} {visited : Multiset Node}
    (h : cx.Visits b.body items visited later) :
    namesToWrite (b :: pending) = b.name ::ₘ namesToWrite (pending ++ later) := by
  rw [namesToWrite, h.below_cons, blockNames_add, h.blockNames, namesToWrite, List.map_cons,
    List.map_append, ← Multiset.cons_coe, ← Multiset.coe_add, Multiset.cons_add, add_assoc]

/-- Writing the functions of the pending blocks fails because the name of the first one has been
    used, because there are too many blocks, or in a block. -/
theorem blockCodes_eq_error {bound : Nat} {written : List String} {s t : CodeState}
    {fault : CompileFault} (h : cx.blockCodes bound written s = .error fault t) :
    ∃ b u, s.pending = b :: u.pending ∧
      (b.name ∈ written ∧ fault = .duplicateBlock b.name ∨ bound = 0 ∨
        ∃ bound', bound = bound' + 1 ∧ (cx.blockCode b u = .error fault t ∨
          ∃ function v, cx.blockCode b u = .ok function v ∧
            cx.blockCodes bound' (b.name :: written) v = .error fault t)) := by
  rw [blockCodes] at h
  obtain hnext | ⟨next, u, hnext, h⟩ := bind_eq_error_iff.mp h
  · unfold Coder.nextBlock? at hnext
    split at hnext <;> cases hnext
  · rcases nextBlock?_eq_ok hnext with ⟨rfl, -⟩ | ⟨b, rfl, hpending⟩
    · exact absurd h pure_ne_error
    · refine ⟨b, u, hpending, ?_⟩
      simp only at h
      split at h
      · next hused =>
        obtain hthrow | ⟨_, _, hthrow, -⟩ := bind_eq_error_iff.mp h
        · cases hthrow
          exact .inl ⟨by simpa using hused, rfl⟩
        · exact absurd hthrow throw_ne_ok
      · cases bound with
        | zero => exact .inr (.inl rfl)
        | succ bound =>
          refine .inr (.inr ⟨bound, rfl, ?_⟩)
          obtain hfunction | ⟨function, v, hfunction, h⟩ := bind_eq_error_iff.mp h
          · exact .inl hfunction
          · obtain hrest | ⟨_, _, _, hpure⟩ := bind_eq_error_iff.mp h
            · exact .inr ⟨function, v, hfunction, hrest⟩
            · exact absurd hpure pure_ne_error

/-- If there is room for all blocks, writing their functions fails because of a filter that is not
    known or because two blocks have one name. -/
theorem refuses_blockCodes {bound : Nat} {written : List String} {s t : CodeState}
    {fault : CompileFault} (h : cx.blockCodes bound written s = .error fault t)
    (hstatements : ∀ b ∈ s.pending, Node.AreStatements cx.env b.body)
    (hbound : (namesToWrite s.pending).card ≤ bound) :
    cx.Refuses (below s.pending) fault ∨ (∃ name, fault = .duplicateBlock name) ∧
      ¬ ((written : Multiset String) + namesToWrite s.pending).Nodup := by
  induction bound generalizing written s with
  | zero =>
    obtain ⟨b, u, hpending, -⟩ := blockCodes_eq_error h
    rw [hpending, Nat.le_zero, Multiset.card_eq_zero] at hbound
    exact absurd (mem_namesToWrite_cons b u.pending) (hbound ▸ Multiset.notMem_zero _)
  | succ bound ih =>
    obtain ⟨b, u, hpending, hcases⟩ := blockCodes_eq_error h
    rw [hpending] at hstatements hbound ⊢
    obtain ⟨hb, hstatements⟩ := List.forall_mem_cons.mp hstatements
    obtain ⟨hused, rfl⟩ | hzero | ⟨_, hsucc, hfunction | ⟨function, v, hfunction, hrest⟩⟩ := hcases
    · refine .inr ⟨⟨b.name, rfl⟩, fun hnodup => ?_⟩
      exact Multiset.disjoint_left.mp (Multiset.nodup_add.mp hnodup).2.2 hused
        (mem_namesToWrite_cons b u.pending)
    · cases hzero
    · left
      refine (failsAt_blockCode hb u fault t hfunction).mono (Multiset.subset_of_le ?_)
      rw [below, List.map_cons, List.sum_cons]
      exact Multiset.le_add_right _ _
    · obtain rfl := Nat.succ.inj hsucc
      obtain ⟨items, visited, later, hvisits, hlater, -⟩ :=
        gathers_blockCode b u function v hfunction
      have hnames : namesToWrite (b :: u.pending) = b.name ::ₘ namesToWrite (u.pending ++ later) :=
        hvisits.namesToWrite_cons
      rw [hnames, Multiset.card_cons, Nat.add_le_add_iff_right] at hbound
      have hrest := ih hrest
      rw [hlater] at hrest
      obtain hrefuses | ⟨hfault, hnodup⟩ := hrest
        (List.forall_mem_append.mpr ⟨hstatements, hvisits.areStatements hb⟩) hbound
      · left
        refine hrefuses.mono (Multiset.subset_of_le ?_)
        rw [hvisits.below_cons]
        exact Multiset.le_add_left _ _
      · right
        rw [← Multiset.cons_coe, Multiset.cons_add, ← Multiset.add_cons] at hnodup
        exact ⟨hfault, hnames ▸ hnodup⟩

end CodeContext

/-- The word is an identifier of the target language, in letters of its basic alphabet. -/
def IsIdentifier (word : String) : Prop :=
  let isFirst (c : Char) : Prop := c.isAlpha = true ∨ c = '_' ∨ c = '$'
  ∃ c rest, word.toList = c :: rest ∧ isFirst c ∧ ∀ d ∈ rest, isFirst d ∨ d.isDigit = true

theorem isModuleVariable_iff {word : String} : isModuleVariable word = true ↔ IsIdentifier word := by
  unfold isModuleVariable IsIdentifier
  cases word.toList with
  | nil => simp
  | cons c rest => simp [or_assoc]

/-- The name of the named block that a node is. -/
def Node.blockName? : Node → Option String
  | block _ name _ => some name
  | _ => none

/-- What a template needs in order to be compiled: a variable that can hold its module, filters that
    are built in or declared, and blocks under different names. -/
structure Template.IsCompilable (template : Template) (env : Environment) (moduleVar : String) :
    Prop where
  identifier : IsIdentifier moduleVar
  filters : ∀ node ∈ template.walk, ∀ name, node.filterName? = some name →
    name ∈ builtinFilters ∨ ∃ f ∈ env.filters, f.name = name
  blocks : (template.walk.filterMap Node.blockName?).Nodup

theorem CodeContext.isSome_filterIsAsync? {cx : CodeContext} {name : String} :
    (cx.filterIsAsync? name).isSome = true ↔
      name ∈ builtinFilters ∨ ∃ f ∈ cx.env.filters, f.name = name := by
  unfold filterIsAsync?
  split
  · next f hf =>
    have hfound := List.find?_some (p := fun f : FilterAddon => f.name = name) hf
    exact iff_of_true rfl (.inr ⟨f, List.mem_of_find?_eq_some hf, of_decide_eq_true hfound⟩)
  · next hnone =>
    have hundeclared : ¬ ∃ f ∈ cx.env.filters, f.name = name := by
      rintro ⟨f, hf, hname⟩
      exact (List.find?_eq_none.mp hnone f hf) (decide_eq_true hname)
    rw [or_iff_left hundeclared]
    split
    · next hbuiltin => exact iff_of_true rfl (List.contains_iff_mem.mp hbuiltin)
    · next hbuiltin => exact iff_of_false (by simp) (hbuiltin ∘ List.contains_iff_mem.mpr)

theorem CodeContext.blockNames_census (nodes : List Node) :
    blockNames (Node.census nodes) = ((Node.walk nodes).filterMap Node.blockName? : List String) := by
  rw [blockNames, Multiset.map_filterMap, Node.census, Multiset.filterMap_coe]
  congr 2
  funext node
  cases node <;> rfl

/-- There are no more functions to write than nodes. -/
theorem CodeContext.card_blockNames_le (nodes : Multiset Node) :
    (blockNames nodes).card ≤ nodes.card := by
  rw [blockNames, Multiset.card_map]
  induction nodes using Quotient.inductionOn with
  | h nodes => exact List.length_filterMap_le _ nodes

section

variable {template : Template} {env : Environment} {moduleVar : String}

theorem Template.isCompilable_of_compile {module : Module}
    (h : template.compile env moduleVar = .ok module) : template.IsCompilable env moduleVar := by
  obtain ⟨-, haccepts, hnames, hnodup⟩ := inventory_compile h
  refine ⟨isModuleVariable_iff.mp (compile_eq_ok_iff.mp h).1, fun node hnode name hname => ?_, ?_⟩
  · exact CodeContext.isSome_filterIsAsync?.mp ((haccepts node hnode).filter name hname)
  · rw [← Multiset.coe_nodup, walk, ← CodeContext.blockNames_census, ← hnames, Multiset.coe_nodup]
    exact hnodup

/-- Compiling a template of statements fails because of the variable, because of a filter that is not
    known, or because two blocks have one name. -/
theorem Template.compile_eq_error (hbody : Node.AreStatements env template.body)
    {fault : CompileFault} (h : template.compile env moduleVar = .error fault) :
    fault = .invalidModuleVariable moduleVar ∧ isModuleVariable moduleVar = false ∨
    CodeContext.Refuses ⟨template.name, env, template.requiresAsync env⟩
      (Node.census template.body) fault ∨
    (∃ name, fault = .duplicateBlock name) ∧
      ¬ (template.walk.filterMap Node.blockName?).Nodup := by
  obtain hvariable | ⟨t, hroot⟩ | ⟨root, s, t, hroot, hblocks⟩ := compile_error_cases h
  · exact .inl hvariable
  · exact .inr (.inl (CodeContext.failsAt_rootCode hbody _ _ _ hroot))
  · obtain ⟨items, visited, later, hvisits, hlater, -⟩ :=
      CodeContext.gathers_rootCode template.body {} root s hroot
    have hpending : s.pending = later := hlater
    have hrefuses := CodeContext.refuses_blockCodes hblocks
    rw [hpending, hvisits.namesToWrite_later] at hrefuses
    obtain hrefuses | ⟨hfault, hnodup⟩ := hrefuses (hvisits.areStatements hbody)
      ((CodeContext.card_blockNames_le _).trans (Node.card_census _).le)
    · refine .inr (.inl (hrefuses.mono (Multiset.subset_of_le ?_)))
      rw [hvisits.census]
      exact Multiset.le_add_left _ _
    · refine .inr (.inr ⟨hfault, ?_⟩)
      rw [CodeContext.blockNames_census] at hnodup
      simpa [walk] using hnodup

end

/-- A template that has been read in an environment without scripted tags is compiled exactly if the
    variable is an identifier, each filter that the template applies is known, and no two of its
    blocks have one name. Otherwise the failure names the template, and its reason is one of these:
    nodes never stand where they have no code, and no extension is missing. -/
theorem Template.compile_parsed {env : Environment} (henv : ∀ e ∈ env.extensions, e.IsStandard)
    {name source : String} {template : Template}
    (h : Template.parse env name source = .ok template) (moduleVar : String) :
    ((∃ text, template.compiledText env moduleVar = .ok text) ↔
      template.IsCompilable env moduleVar) ∧
    ∀ failure, template.compiledText env moduleVar = .error failure →
      ∃ fault : CompileFault, failure = .compile name fault.message ∧
        (fault = .invalidModuleVariable moduleVar ∨
          (∃ node ∈ template.walk, ∃ filter, node.filterName? = some filter ∧
            fault = .ofFilter env filter) ∨
          ∃ block, fault = .duplicateBlock block) := by
  have hname : template.name = name := by
    unfold Template.parse at h
    split at h
    · cases h
    · split at h <;> cases h
      rfl
  have hbody := Template.areStatements_of_parse henv h
  have hfilter {fault : CompileFault}
      (h : CodeContext.Refuses ⟨template.name, env, template.requiresAsync env⟩
        (Node.census template.body) fault) :
      ∃ node ∈ template.walk, ∃ filter, node.filterName? = some filter ∧
        ¬ (filter ∈ builtinFilters ∨ ∃ f ∈ env.filters, f.name = filter) ∧
        fault = .ofFilter env filter := by
    obtain ⟨node, hnode, filter, hfilter, hunknown, hfault⟩ := h
    refine ⟨node, Node.mem_census.mp hnode, filter, hfilter, ?_, hfault⟩
    rw [← @CodeContext.isSome_filterIsAsync? ⟨template.name, env, template.requiresAsync env⟩,
      hunknown]
    simp
  unfold Template.compiledText
  cases hcompile : template.compile env moduleVar with
  | ok module =>
    refine ⟨iff_of_true ⟨_, rfl⟩ (Template.isCompilable_of_compile hcompile), fun failure h => ?_⟩
    cases h
  | error fault =>
    -- The reason for the fault is also why the template is not compilable.
    have hreason : ¬ template.IsCompilable env moduleVar ∧
        (fault = .invalidModuleVariable moduleVar ∨
          (∃ node ∈ template.walk, ∃ filter, node.filterName? = some filter ∧
            fault = .ofFilter env filter) ∨
          ∃ block, fault = .duplicateBlock block) := by
      obtain ⟨hfault, hvariable⟩ | hrefuses | ⟨hfault, hnodup⟩ :=
        Template.compile_eq_error hbody hcompile
      · refine ⟨fun hcompilable => ?_, .inl hfault⟩
        rw [isModuleVariable_iff.mpr hcompilable.identifier] at hvariable
        cases hvariable
      · obtain ⟨node, hnode, filter, hname, hunknown, hfault⟩ := hfilter hrefuses
        exact ⟨fun hcompilable => hunknown (hcompilable.filters node hnode filter hname),
          .inr (.inl ⟨node, hnode, filter, hname, hfault⟩)⟩
      · exact ⟨fun hcompilable => hnodup hcompilable.blocks, .inr (.inr hfault)⟩
    refine ⟨iff_of_false (fun ⟨_, h⟩ => by cases h) hreason.1, fun failure h => ?_⟩
    cases h
    exact ⟨fault, by rw [CompileFault.failure, hname], hreason.2⟩

/-- Two blocks have one name, one of them in the body of a call block. -/
theorem Template.compile_parsed_repeated_block :
    let source := "\x7b% block a %\x7d\x7b% endblock %\x7d\x7b% call m() %\x7d\x7b% block a %\x7d\x7b% endblock %\x7d\x7b% endcall %\x7d"
    ∃ template failure, Template.parse {} "t.njk" source = .ok template ∧
      template.compiledText {} "template" = .error failure ∧
      ∃ fault : CompileFault, failure = .compile "t.njk" fault.message := by
  intro source
  have hfound : (Template.parse {} "t.njk" source).toOption.any fun template =>
      !(template.compiledText {} "template").toOption.isSome := by
    decide +kernel
  obtain ⟨template, htemplate, hfailed⟩ := exists_eq_ok_of_any hfound
  have henv : ∀ e ∈ ({} : Environment).extensions, e.IsStandard := List.forall_mem_nil _
  have hcompile := Template.compile_parsed henv htemplate "template"
  cases htext : template.compiledText {} "template" with
  | ok text =>
    rw [htext] at hfailed
    cases hfailed
  | error failure =>
    obtain ⟨fault, hfailure, -⟩ := hcompile.2 failure htext
    exact ⟨template, failure, htemplate, htext, fault, hfailure⟩

end TemplateManifest
