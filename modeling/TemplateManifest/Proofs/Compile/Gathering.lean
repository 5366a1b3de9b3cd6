import TemplateManifest.Proofs.Compile.Calls
import TemplateManifest.Proofs.Compile.Visiting

/-!
Code generation visits every node of a tree once. Main statement: `Template.inventory_compile`, which
says what the module of a template that compiles holds.
-/

namespace TemplateManifest

open Script Vocabulary

namespace CodeContext

open Coder

variable {cx : CodeContext}

theorem gathers_membersCode {m : Multiset Feature} (module : Variable)
    (names : List (String × Option String)) :
    (membersCode module names).Gathers cx m [] fun code => m + inventory (Stmt.partsAll code) := by
  induction names with
  | nil => exact gathers_pure (by simp)
  | cons entry names ih =>
    exact gathers_fresh.bind fun v => (gathers_bind _ v).bind fun _ => ih.bind_pure fun code => by
      simp

theorem gathers_importCode {m : Multiset Feature} (target : Expr) (withContext : Bool) :
    (cx.importCode target withContext).Gathers cx (m + inventory target.parts +
        (waits cx.isAsync none + waits cx.isAsync none)) [] fun result =>
      m + inventory (Stmt.partsAll result.2) := by
  refine gathers_fresh.bind_pure fun v => ?_
  have hargs : inventory (Expr.partsAll (if withContext then
      [method (name "context") "getVariables" [], name "frame"] else [])) = 0 := by
    split <;> rfl
  simp (disch := decide) [Stmt.parts, hargs]
  abel

theorem gathers_inclusionCode {m : Multiset Feature} (target : Expr) (form : Inclusion) :
    (cx.inclusionCode target form).Gathers cx (m + inventory target.parts + cx.inclusionWaits form)
      [] fun code => m + inventory (Stmt.partsAll code) := by
  cases form with
  | parent =>
    refine gathers_fresh.bind_pure fun v => ?_
    simp (disch := decide) [Stmt.parts, inclusionWaits]
    abel
  | part ignoreMissing =>
    refine gathers_fresh.bind_pure fun v => ?_
    simp (disch := decide) [Stmt.parts, inclusionWaits]
    abel
  | module exportsName withContext =>
    refine (gathers_importCode target withContext).bind fun result => ?_
    exact (gathers_bind _ _).bind_pure fun _ => by simp
  | members names withContext =>
    refine (gathers_importCode target withContext).bind fun result => ?_
    exact (gathers_membersCode _ names).bind_pure fun code => by simp [add_assoc]

/-- What the defaults and the body of a macro bring stands in its code. -/
theorem gathers_macroCode {m : Multiset Feature} {isCaller : Bool}
    {params : List (String × Option Node)} {nodes : List Node}
    {defaults : Coder (List (String × Expr))} {body : Coder (List Stmt)}
    (hdefaults : ∀ m, defaults.Gathers cx m (params.filterMap (·.2)) fun code =>
      m + inventory (Expr.partsAll (code.map (·.2))))
    (hbody : ∀ m, body.Gathers cx m nodes fun code => m + inventory (Stmt.partsAll code)) :
    (cx.macroCode isCaller params defaults body).Gathers cx (m + {.function cx.isAsync})
      (params.filterMap (·.2) ++ nodes) fun code => m + inventory code.parts := by
  refine .inScope ((gathers_bindAll _).bind fun _ => (hdefaults _).bind fun ds => ?_)
  refine (hbody _).bind_pure fun code => ?_
  simp [inventory_makeMacro, add_assoc]

/-- What the arguments and the bodies of a custom tag bring stands in the call of its extension. -/
theorem gathers_extension {α : Type} {m : Multiset Feature} (pos : Position) {site : Site}
    {e : Extension} (extensionMethod : String) {args : List Node} {kwargs : List (String × Node)}
    {bodies : List (List Node)} (isAsync : Bool) (hsite : cx.env.extension? site = some e)
    {argCode kwargCode closureCode : Coder (List Expr)} {k : Expr → α} {f : α → Multiset Feature}
    (hargs : ∀ m, argCode.Gathers cx m args fun code => m + inventory (Expr.partsAll code))
    (hkwargs : ∀ m, kwargCode.Gathers cx m (kwargs.map (·.2)) fun code =>
      m + inventory (Expr.partsAll code))
    (hclosures : ∀ m, closureCode.Gathers cx
      (m + Multiset.replicate bodies.length (.function cx.isAsync)) bodies.flatten fun code =>
        m + inventory (Expr.partsAll code))
    (hf : ∀ code, f (k code) = m + inventory code.parts) :
    Gathers (do
      let args ← argCode
      let kwargs ← kwargCode
      let closures ← closureCode
      return k (extensionCode e extensionMethod isAsync (args ++ kwargs ++ closures)))
      cx m [.extensionCall pos site extensionMethod args kwargs bodies isAsync] f := by
  refine .node ⟨by simp [Node.filterName?], by simp [Node.site?, hsite]⟩ rfl ?_
  rw [Node.children, List.append_assoc]
  refine (hargs _).bind fun as => (hkwargs _).bind fun ks => ?_
  refine ((hclosures (m + (waits (isAsync || e.form.isAsync) (some (.extension e.name)) +
    {.fetch (.extension e.name)}) + inventory (Expr.partsAll as) +
      inventory (Expr.partsAll ks))).of_eq ?_).bind_pure fun cs => ?_
  · simp only [own, hsite]
    abel
  · simp [hf, add_assoc]

theorem gathers_otherwise {β : Type} {m : Multiset Feature} {nodes : List Node} {k : List Stmt → β}
    {f : List Stmt → Multiset Feature} {g : β → Multiset Feature}
    (h : (cx.statements nodes).Gathers cx m nodes f)
    (hg : ∀ code, (nodes = [] → code = []) → g (k code) = f code) :
    Gathers (cx.statements nodes >>= fun code => pure (k code)) cx m nodes g := by
  have hbind := h.bind_of (P := fun code => nodes = [] → code = []) ?_ fun code hcode =>
    gathers_pure (hg code hcode)
  · rwa [List.append_nil] at hbind
  · rintro s code t hcode rfl
    exact (pure_eq_ok_iff.mp hcode).1.symm

mutual

theorem gathers_expression (m : Multiset Feature) : ∀ node : Node,
    (cx.expression node).Gathers cx m [node] fun code => m + inventory code.parts
  | .literal pos value => by
    rw [expression]
    exact .plain (.of_none rfl rfl) rfl rfl (gathers_pure (by simp))
  | .symbol pos symbol => by
    rw [expression]
    refine .plain (.of_none rfl rfl) rfl rfl ((gathers_holder? symbol).bind fun holder => ?_)
    cases holder <;> exact gathers_pure (by simp)
  | .group _ inner => by
    rw [expression]
    refine .plain (.of_none rfl rfl) rfl rfl ((gathers_expression _ inner).bind_pure fun code => ?_)
    simp
  | .array _ items => by
    rw [expression]
    refine .plain (.of_none rfl rfl) rfl rfl ((gathers_expressions _ items).bind_pure fun code => ?_)
    simp
  | .dict _ entries => by
    rw [expression]
    refine .plain (.of_none rfl rfl) rfl rfl ((gathers_entryCode _ entries).bind_pure fun code => ?_)
    simp
  | .lookup _ target key => by
    rw [expression]
    refine .plain (.of_none rfl rfl) rfl rfl ((gathers_expression _ target).bind fun t =>
      (gathers_expression _ key).bind_pure fun k => ?_)
    simp (disch := decide) [add_assoc]
  | .call pos callee args kwargs => by
    rw [expression]
    refine .plain (.of_none rfl rfl) rfl rfl ((gathers_expression _ callee).bind fun c =>
      (gathers_expressions _ args).bind fun as => (gathers_keywordCode _ kwargs).bind_pure fun ks => ?_)
    simp [add_assoc]
  | .filter pos filter target args kwargs => by
    rw [expression]
    cases hfilter : cx.filterIsAsync? filter with
    | none => exact gathers_throw _
    | some isAsync =>
      refine .node ⟨by simp [Node.filterName?, hfilter], by simp [Node.site?]⟩ rfl
        ((gathers_expression _ target).bind fun t => (gathers_expressions _ args).bind fun as =>
          (gathers_keywordCode _ kwargs).bind_pure fun ks => ?_)
      simp [own, hfilter, add_assoc]
  | .test _ target test args negated => by
    rw [expression]
    refine .plain (.of_none rfl rfl) rfl rfl ((gathers_expression _ target).bind fun t =>
      (gathers_expressions _ args).bind_pure fun as => ?_)
    split <;> simp (disch := decide) [add_assoc]
  | .unary _ op operand => by
    rw [expression]
    refine .plain (.of_none rfl rfl) rfl rfl ((gathers_expression _ operand).bind_pure fun code => ?_)
    simp
  | .binary pos op left right => by
    rw [expression]
    refine .plain (.of_none rfl rfl) rfl rfl ((gathers_expression _ left).bind fun l =>
      (gathers_expression _ right).bind_pure fun r => ?_)
    simp [add_assoc]
  | .compare _ first rest => by
    rw [expression]
    refine .plain (.of_none rfl rfl) rfl rfl ((gathers_expression _ first).bind fun code => ?_)
    simpa using gathers_comparedCode m (first.operandCode false code) rest
  | .inlineIf _ cond body otherwise => by
    rw [expression]
    refine .plain (.of_none rfl rfl) rfl rfl ((gathers_expression _ cond).bind fun c =>
      (gathers_expression _ body).bind fun b => (gathers_optionalCode _ otherwise).bind_pure fun o => ?_)
    simp [add_assoc]
  | .extensionCall pos site extensionMethod args kwargs bodies isAsync => by
    rw [expression]
    cases hsite : cx.env.extension? site with
    | none => exact gathers_throw _
    | some e =>
      exact gathers_extension (k := id) pos extensionMethod isAsync hsite
        (fun m => gathers_expressions m args) (fun m => gathers_keywordCode m kwargs)
        (fun m => gathers_closureCode m bodies) fun _ => rfl
  | .callerBody _ params body => by
    rw [expression_callerBody]
    refine .node (.of_none rfl rfl) rfl ?_
    exact gathers_macroCode (fun m => gathers_defaultCode m params) fun m => gathers_statements m body
  | .capture _ body => by
    rw [expression]
    refine .node (.of_none rfl rfl) rfl ((gathers_statements _ body).inScope.bind_pure fun code => ?_)
    simp [own, add_assoc]
  | .data _ _ | .output _ _ | .ifElse _ _ _ _ | .forEach _ _ _ _ _ | .assign _ _ _
  | .block _ _ _ | .macroDef _ _ _ _ | .inclusion _ _ _ => gathers_throw _

theorem gathers_expressions (m : Multiset Feature) : ∀ nodes : List Node,
    (cx.expressions nodes).Gathers cx m nodes fun code => m + inventory (Expr.partsAll code)
  | [] => gathers_pure (by simp)
  | node :: nodes => by
    rw [expressions]
    exact (gathers_expression _ node).bind fun code => (gathers_expressions _ nodes).bind_pure
      fun rest => by simp [add_assoc]

theorem gathers_optionalCode (m : Multiset Feature) : ∀ node : Option Node,
    (cx.optionalCode node).Gathers cx m node.toList fun code => m + inventory code.parts
  | none => gathers_pure (by simp)
  | some node => by
    rw [optionalCode]
    exact gathers_expression m node

theorem gathers_entryCode (m : Multiset Feature) : ∀ entries : List (Node × Node),
    (cx.entryCode entries).Gathers cx m (entries.flatMap fun entry => [entry.1, entry.2])
      fun code => m + inventory (Expr.partsEntries code)
  | [] => gathers_pure (by simp)
  | (key, value) :: entries => by
    by_cases hliteral : ∃ pos literal, key = .literal pos literal
    · obtain ⟨pos, literal, rfl⟩ := hliteral
      rw [entryCode]
      exact .cons (.of_none rfl rfl) rfl rfl rfl ((gathers_expression _ value).bind fun code =>
        (gathers_entryCode _ entries).bind_pure fun rest => by simp [add_assoc])
    · rw [entryCode]
      · exact (gathers_expression _ key).bind fun k => (gathers_expression _ value).bind fun v =>
          (gathers_entryCode _ entries).bind_pure fun rest => by simp [add_assoc]
      · exact fun pos literal heq => hliteral ⟨pos, literal, heq⟩

theorem gathers_keywordCode (m : Multiset Feature) : ∀ kwargs : List (String × Node),
    (cx.keywordCode kwargs).Gathers cx m (kwargs.map (·.2)) fun code =>
      m + inventory (Expr.partsAll code)
  | [] => gathers_pure (by simp)
  | (keyword, value) :: kwargs => by
    rw [keywordCode]
    exact (gathers_expression _ value).bind fun code => (gathers_keywordEntries _ kwargs).bind_pure
      fun entries => by simp (disch := decide) [add_assoc]

theorem gathers_keywordEntries (m : Multiset Feature) : ∀ kwargs : List (String × Node),
    (cx.keywordEntries kwargs).Gathers cx m (kwargs.map (·.2)) fun code =>
      m + inventory (Expr.partsEntries code)
  | [] => gathers_pure (by simp)
  | (keyword, value) :: kwargs => by
    rw [keywordEntries]
    exact (gathers_expression _ value).bind fun code => (gathers_keywordEntries _ kwargs).bind_pure
      fun entries => by simp [add_assoc]

theorem gathers_comparedCode (m : Multiset Feature) (start : Expr) :
    ∀ rest : List (CompareOp × Node),
    (cx.comparedCode start rest).Gathers cx (m + inventory start.parts) (rest.map (·.2))
      fun code => m + inventory code.parts
  | [] => gathers_pure rfl
  | (op, operand) :: rest => by
    rw [comparedCode]
    refine (gathers_expression _ operand).bind fun code => ?_
    have h := gathers_comparedCode m
      (.operation op.code start (operand.operandCode false code)) rest
    simpa [add_assoc] using h

theorem gathers_closureCode (m : Multiset Feature) : ∀ bodies : List (List Node),
    (cx.closureCode bodies).Gathers cx
      (m + Multiset.replicate bodies.length (.function cx.isAsync)) bodies.flatten fun code =>
      m + inventory (Expr.partsAll code)
  | [] => gathers_pure (by simp)
  | body :: bodies => by
    rw [closureCode]
    refine (gathers_statements _ body).inScope.bind fun b => ?_
    refine ((gathers_closureCode (m + {.function cx.isAsync} + inventory (Stmt.partsAll b)) bodies).of_eq
      ?_).bind_pure fun rest => ?_
    · rw [List.length_cons, Multiset.replicate_succ, ← Multiset.singleton_add]
      abel
    · simp [add_assoc]

theorem gathers_defaultCode (m : Multiset Feature) : ∀ params : List (String × Option Node),
    (cx.defaultCode params).Gathers cx m (params.filterMap (·.2)) fun code =>
      m + inventory (Expr.partsAll (code.map (·.2)))
  | [] => gathers_pure (by simp)
  | (_, none) :: params => by
    rw [defaultCode]
    exact gathers_defaultCode m params
  | (param, some node) :: params => by
    rw [defaultCode]
    exact (gathers_expression _ node).bind fun code => (gathers_defaultCode _ params).bind_pure
      fun rest => by simp [add_assoc]

theorem gathers_outputCode (m : Multiset Feature) : ∀ nodes : List Node,
    (cx.outputCode nodes).Gathers cx m nodes fun code => m + inventory (Stmt.partsAll code)
  | [] => gathers_pure (by simp)
  | node :: nodes => by
    by_cases hdata : ∃ pos text, node = .data pos text
    · obtain ⟨pos, text, rfl⟩ := hdata
      rw [outputCode]
      exact .cons (.of_none rfl rfl) rfl rfl rfl
        ((gathers_outputCode _ nodes).bind_pure fun rest => by simp)
    · rw [outputCode]
      · refine (gathers_expression _ node).bind fun code => ?_
        refine (gathers_outputCode _ nodes).bind_pure fun rest => ?_
        split <;> simp (disch := decide) [add_assoc]
      · exact fun pos text heq => hdata ⟨pos, text, heq⟩

theorem gathers_statement (m : Multiset Feature) : ∀ node : Node,
    (cx.statement node).Gathers cx m [node] fun code => m + inventory (Stmt.partsAll code)
  | .data pos text => by
    rw [statement]
    exact .plain (.of_none rfl rfl) rfl rfl (gathers_pure (by simp))
  | .output _ nodes => by
    rw [statement_output]
    exact .plain (.of_none rfl rfl) rfl rfl (gathers_outputCode _ nodes)
  | .ifElse _ cond body otherwise => by
    rw [statement]
    refine .plain (.of_none rfl rfl) rfl rfl ((gathers_expression _ cond).bind fun c =>
      (gathers_statements _ body).bind fun b => ?_)
    refine gathers_otherwise (gathers_statements _ otherwise) fun code hcode => ?_
    split
    · next hempty =>
      simp [Stmt.parts, hcode (List.isEmpty_iff.mp hempty), add_assoc]
    · simp [Stmt.parts, add_assoc]
  | .forEach _ targets iterated body otherwise => by
    rw [statement]
    refine .plain (.of_none rfl rfl) rfl rfl ((gathers_expression _ iterated).bind fun e =>
      gathers_fresh.bind fun arr => gathers_fresh.bind fun len => gathers_fresh.bind fun i => ?_)
    refine Gathers.bind (f := fun result : List Variable × List Stmt =>
      m + inventory e.parts + inventory (Stmt.partsAll result.2)) (.inScope ?_) fun result => ?_
    · exact (gathers_freshAll _).bind fun holders => (gathers_bindAll _).bind fun _ =>
        (gathers_statements _ body).bind_pure fun _ => rfl
    · refine gathers_otherwise (gathers_statements _ otherwise) fun code hcode => ?_
      split
      · next hempty =>
        simp [inventory_loopCode, hcode (List.isEmpty_iff.mp hempty), add_assoc]
      · simp [inventory_loopCode, add_assoc]
  | .assign _ targets value => by
    rw [statement]
    refine .plain (.of_none rfl rfl) rfl rfl ((gathers_expression _ value).bind fun e =>
      (gathers_variablesFor targets).bind fun holders => (gathers_bindAll _).bind_pure fun _ => ?_)
    rw [inventory_assignment]
  | .block pos blockName body => by
    rw [statement]
    refine (gathers_addBlock pos blockName body).bind_pure fun _ => ?_
    simp (disch := decide) [own, Stmt.parts]
  | .macroDef _ macroName params body => by
    rw [statement]
    refine .node (.of_none rfl rfl) rfl (gathers_fresh.bind fun v => ?_)
    refine (gathers_macroCode (fun m => gathers_defaultCode m params)
      fun m => gathers_statements m body).bind_last fun code => ?_
    exact (gathers_bind _ _).bind_pure fun _ => by simp [Stmt.parts]
  | .inclusion _ form template => by
    rw [statement]
    refine .node (.of_none rfl rfl) rfl ((gathers_expression _ template).bind fun target => ?_)
    refine (gathers_inclusionCode target form).of_eq ?_
    rw [own]
    abel
  | .extensionCall pos site extensionMethod args kwargs bodies isAsync => by
    rw [statement]
    cases hsite : cx.env.extension? site with
    | none => exact gathers_throw _
    | some e =>
      exact gathers_extension (k := fun value => [outputValue value cx.env.options.autoescape]) pos
        extensionMethod isAsync hsite (fun m => gathers_expressions m args)
        (fun m => gathers_keywordCode m kwargs) (fun m => gathers_closureCode m bodies)
        fun code => by simp
  | .literal _ _ | .symbol _ _ | .group _ _ | .array _ _ | .dict _ _ | .lookup _ _ _
  | .call _ _ _ _ | .filter _ _ _ _ _ | .test _ _ _ _ _ | .unary _ _ _ | .binary _ _ _ _
  | .compare _ _ _ | .inlineIf _ _ _ _ | .callerBody _ _ _ | .capture _ _ => gathers_throw _

theorem gathers_statements (m : Multiset Feature) : ∀ nodes : List Node,
    (cx.statements nodes).Gathers cx m nodes fun code => m + inventory (Stmt.partsAll code)
  | [] => gathers_pure (by simp)
  | node :: nodes => by
    rw [statements]
    exact (gathers_statement _ node).bind fun code => (gathers_statements _ nodes).bind_pure
      fun rest => by simp [add_assoc]

end

theorem gathers_rootCode (body : List Node) :
    (cx.rootCode body).Gathers cx (waits cx.isAsync none) body fun code =>
      inventory (Stmt.partsAll code) :=
  (gathers_statements _ body).bind_pure fun code => by
    simp (disch := decide) [Stmt.parts, add_comm]

theorem gathers_blockCode (b : PendingBlock) :
    (cx.blockCode b).Gathers cx 0 b.body fun function => inventory (Stmt.partsAll function.body) :=
  (gathers_statements 0 b.body).isolated.bind_pure fun code => by
    simp (disch := decide) [Stmt.parts]

/-- The nodes in the bodies of some blocks. -/
def below (blocks : List PendingBlock) : Multiset Node :=
  (blocks.map fun b => Node.census b.body).sum

theorem below_append (blocks blocks' : List PendingBlock) :
    below (blocks ++ blocks') = below blocks + below blocks' := by
  rw [below, List.map_append, List.sum_append, below, below]

/-- The names of the blocks among some nodes. -/
def blockNames (nodes : Multiset Node) : Multiset String :=
  (nodes.filterMap Node.block?).map PendingBlock.name

theorem blockNames_add (nodes nodes' : Multiset Node) :
    blockNames (nodes + nodes') = blockNames nodes + blockNames nodes' := by
  rw [blockNames, Multiset.filterMap_add, Multiset.map_add, blockNames, blockNames]

theorem Visits.blockNames {nodes : List Node} {items : Multiset Feature} {visited : Multiset Node}
    {later : List PendingBlock} (h : cx.Visits nodes items visited later) :
    blockNames visited = (later.map PendingBlock.name : List String) := by
  rw [CodeContext.blockNames, ← h.blocks, Multiset.map_coe]

/-- All nodes in the bodies of some blocks are visited, and one function is written for each of the
    blocks and for each block in the bodies. -/
structure Completes (cx : CodeContext) (pending : List PendingBlock) (written : List String)
    (functions : List BlockFunction) : Prop where
  items : inventory (functions.flatMap fun b => Stmt.partsAll b.body) = (below pending).bind cx.own
  accepts : ∀ node ∈ below pending, cx.Accepts node
  names : ((functions.map BlockFunction.name : List String) : Multiset String) =
    (pending.map PendingBlock.name : List String) + blockNames (below pending)
  nodup : (functions.map BlockFunction.name).Nodup
  fresh : ∀ name ∈ functions.map BlockFunction.name, name ∉ written

theorem Completes.nil {written : List String} : cx.Completes [] written [] :=
  ⟨rfl, by simp [below], rfl, List.nodup_nil, by simp⟩

/-- A block that is written leaves the blocks that it meets. -/
theorem Visits.below_cons {b : PendingBlock} {pending later : List PendingBlock}
    {items : Multiset Feature} {visited : Multiset Node}
    (h : cx.Visits b.body items visited later) :
    below (b :: pending) = visited + below (pending ++ later) := by
  have hbody : Node.census b.body = visited + below later := h.census
  rw [below_append, below, List.map_cons, List.sum_cons, hbody, add_assoc, add_comm (below later)]
  rfl

theorem Completes.cons {b : PendingBlock} {pending later : List PendingBlock}
    {written : List String} {function : BlockFunction} {functions : List BlockFunction}
    {visited : Multiset Node} (hname : function.name = b.name) (hnew : b.name ∉ written)
    (hfunction : cx.Visits b.body (inventory (Stmt.partsAll function.body)) visited later)
    (h : cx.Completes (pending ++ later) (b.name :: written) functions) :
    cx.Completes (b :: pending) written (function :: functions) where
  items := by
    rw [List.flatMap_cons, inventory_append, h.items, hfunction.items, hfunction.below_cons,
      Multiset.add_bind]
  accepts node hnode := by
    rw [hfunction.below_cons, Multiset.mem_add] at hnode
    exact hnode.elim (hfunction.accepts node) (h.accepts node)
  names := by
    rw [hfunction.below_cons, blockNames_add, hfunction.blockNames, List.map_cons, hname,
      ← Multiset.cons_coe, h.names, List.map_cons, List.map_append, ← Multiset.coe_add,
      ← Multiset.cons_coe, Multiset.cons_add, add_assoc]
  nodup := by
    rw [List.map_cons, List.nodup_cons, hname]
    exact ⟨fun hmem => h.fresh _ hmem List.mem_cons_self, h.nodup⟩
  fresh := by
    rw [List.map_cons, List.forall_mem_cons, hname]
    exact ⟨hnew, fun name hmem hwritten => h.fresh name hmem (List.mem_cons_of_mem _ hwritten)⟩

theorem completes_blockCodes {bound : Nat} {written : List String} {s t : CodeState}
    {functions : List BlockFunction} (h : cx.blockCodes bound written s = .ok functions t) :
    cx.Completes s.pending written functions := by
  induction bound generalizing written s functions with
  | zero =>
    rcases blockCodes_eq_ok h with ⟨hnil, rfl⟩ | ⟨_, _, _, _, _, _, hbound, _⟩
    · rw [hnil]
      exact .nil
    · cases hbound
  | succ bound ih =>
    rcases blockCodes_eq_ok h with
      ⟨hnil, rfl⟩ | ⟨_, b, u, v, function, rest, hbound, hpending, hnew, hfunction, hrest, rfl⟩
    · rw [hnil]
      exact .nil
    · obtain rfl := Nat.succ.inj hbound
      obtain ⟨items, visited, later, hvisits, hlater, hitems⟩ := gathers_blockCode b u function v hfunction
      rw [zero_add] at hitems
      subst hitems
      have hcompletes := ih hrest
      rw [hlater] at hcompletes
      rw [hpending]
      exact .cons (blockCode_name hfunction) hnew hvisits hcompletes

end CodeContext

/-- What the module of a template holds: what each node of the template adds, and a call of the parent
    that is awaited when functions are asynchronous. All filters and extensions of the template are
    known, and the functions of the blocks are one for each block, under different names. -/
theorem Template.inventory_compile {template : Template} {env : Environment} {moduleVar : String}
    {module : Module} (h : template.compile env moduleVar = .ok module) :
    let cx : CodeContext := ⟨template.name, env, template.requiresAsync env⟩
    inventory module.parts =
        CodeContext.waits cx.isAsync none + (Node.census template.body).bind cx.own ∧
      (∀ node ∈ template.walk, cx.Accepts node) ∧
      ((module.blocks.map BlockFunction.name : List String) : Multiset String) =
        CodeContext.blockNames (Node.census template.body) ∧
      (module.blocks.map BlockFunction.name).Nodup := by
  intro cx
  obtain ⟨s, t, hroot, hblocks⟩ := Template.compile_eq_ok h
  obtain ⟨items, visited, later, hvisits, hlater, hitems⟩ :=
    CodeContext.gathers_rootCode template.body {} module.root s hroot
  have hcompletes := CodeContext.completes_blockCodes hblocks
  have hpending : s.pending = later := hlater
  rw [hpending] at hcompletes
  have hcensus : Node.census template.body = visited + CodeContext.below later := hvisits.census
  refine ⟨?_, fun node hnode => ?_, ?_, hcompletes.nodup⟩
  · have hrootItems : inventory (Stmt.partsAll module.root) =
        CodeContext.waits cx.isAsync none + items := hitems
    rw [Module.parts, inventory_append, hrootItems, hcompletes.items, hvisits.items, hcensus,
      Multiset.add_bind, add_assoc]
  · rw [Template.walk, ← Node.mem_census, hcensus, Multiset.mem_add] at hnode
    exact hnode.elim (hvisits.accepts node) (hcompletes.accepts node)
  · rw [hcompletes.names, hcensus, CodeContext.blockNames_add, hvisits.blockNames]

end TemplateManifest
