import TemplateManifest.Proofs.Compile.Calls
import TemplateManifest.Proofs.Compile.Emission

/-!
Code generation follows lexical scoping: the code of every template is code for its flow. The
main statements are `CodeContext.carries_statements` and, for whole functions,
`CodeContext.emits_rootCode` and `CodeContext.emits_blockCode`.
-/

namespace TemplateManifest

open Script Vocabulary Coder

namespace CodeContext

variable {cx : CodeContext}

/-- The code of a block call. -/
theorem carries_block {b : PendingBlock} {call : Expr} {s : CodeState}
    (hcall : call.notable = []) :
    Carries [] [.block b] s
      (.code [.branch (.signed .not (name "parentTemplate")) [.append (.named "output") call]])
      { s with pending := s.pending ++ [b] } :=
  ⟨⟨fun _ hσ => ⟨hσ.temps, hσ.holder?, hσ.opened⟩, rfl, rfl⟩, fun _ _ => .block hcall .done⟩

@[simp]
theorem notable_keyCode (key : Node) (code : Expr) : (key.keyCode code).notable = code.notable := by
  unfold Node.keyCode
  split <;> simp

mutual

theorem evaluates_expression : ∀ {node : Node} {s t : CodeState} {code : Expr},
    cx.expression node s = .ok code t → Evaluates [] node.outline s (.uses code.notable) t
  | .literal _ _, s, t, code, h => by
    obtain ⟨rfl, rfl⟩ := pure_eq_ok_iff.mp h
    exact Evaluates.nil.of_eq (by simp)
  | .symbol pos symbol, s, t, code, h => by
    obtain ⟨rfl, rfl⟩ := expression_symbol_eq_ok_iff.mp h
    have hmoves : Moves [.symbol pos symbol] t t := ⟨fun _ h => h, rfl, (List.append_nil _).symm⟩
    refine ⟨⟨hmoves, fun σ hσ => ?_⟩, rfl⟩
    have hheld := hσ.holder? symbol
    cases hx : t.holder? symbol with
    | some v =>
      rw [hx] at hheld
      obtain ⟨x, hholder, rfl⟩ := Option.map_eq_some_iff.mp hheld.symm
      have hsymbol : Emits [] [.symbol pos symbol σ.visible] _ := .held hholder .none
      cases x <;> exact hsymbol
    | none =>
      rw [hx] at hheld
      have hsymbol : Emits [] [.symbol pos symbol σ.visible] _ :=
        .unheld (Option.map_eq_none_iff.mp hheld.symm) .none
      rw [Option.elim_none, Expr.notable_ofNode_symbol, notable_contextLookup]
      exact hsymbol
  | .group _ inner, s, t, code, h => by
    obtain ⟨c, hinner, rfl⟩ := expression_group_eq_ok_iff.mp h
    exact (evaluates_expression hinner).of_eq (by simp)
  | .array _ items, s, t, code, h => by
    obtain ⟨cs, hitems, rfl⟩ := expression_array_eq_ok_iff.mp h
    exact (evaluates_expressions hitems).of_eq (by simp)
  | .dict _ entries, s, t, code, h => by
    obtain ⟨cs, hentries, rfl⟩ := expression_dict_eq_ok_iff.mp h
    exact evaluates_entryCode hentries
  | .lookup _ target key, s, t, code, h => by
    obtain ⟨c, u, k, htarget, hkey, rfl⟩ := expression_lookup_eq_ok_iff.mp h
    exact ((evaluates_expression htarget).append (evaluates_expression hkey)).of_eq (by simp)
  | .call pos callee args kwargs, s, t, code, h => by
    obtain ⟨called, u, as, v, ks, hcalled, hargs, hkwargs, rfl⟩ := expression_call_eq_ok_iff.mp h
    exact ((evaluates_expression hcalled).append ((evaluates_expressions hargs).append
      (evaluates_keywordCode hkwargs))).of_eq (by simp)
  | .filter _ filter target args kwargs, s, t, code, h => by
    obtain ⟨isAsync, c, u, as, v, ks, -, htarget, hargs, hkwargs, rfl⟩ :=
      expression_filter_eq_ok_iff.mp h
    exact ((evaluates_expression htarget).append ((evaluates_expressions hargs).append
      (evaluates_keywordCode hkwargs))).of_eq (by simp (disch := decide))
  | .test _ target test args negated, s, t, code, h => by
    obtain ⟨c, u, as, htarget, hargs, rfl⟩ := expression_test_eq_ok_iff.mp h
    refine ((evaluates_expression htarget).append (evaluates_expressions hargs)).of_eq ?_
    split <;> simp (disch := decide)
  | .unary _ op operand, s, t, code, h => by
    obtain ⟨c, hoperand, rfl⟩ := expression_unary_eq_ok_iff.mp h
    exact (evaluates_expression hoperand).of_eq (by simp)
  | .binary _ op left right, s, t, code, h => by
    obtain ⟨l, u, r, hleft, hright, rfl⟩ := expression_binary_eq_ok_iff.mp h
    exact ((evaluates_expression hleft).append (evaluates_expression hright)).of_eq (by simp)
  | .compare _ first rest, s, t, code, h => by
    obtain ⟨c, u, hfirst, h⟩ := expression_compare_eq_ok_iff.mp h
    obtain ⟨us, hus, hrest⟩ := evaluates_comparedCode h
    exact ((evaluates_expression hfirst).append hrest).of_eq (by rw [hus, notable_operandCode])
  | .inlineIf _ cond body otherwise, s, t, code, h => by
    obtain ⟨c, u, b, v, o, hcond, hbody, hotherwise, rfl⟩ := expression_inlineIf_eq_ok_iff.mp h
    exact ((evaluates_expression hcond).append ((evaluates_expression hbody).append
      (evaluates_optionalCode hotherwise))).of_eq (by simp)
  | .extensionCall _ site extensionMethod args kwargs bodies isAsync, s, t, code, h => by
    obtain ⟨e, as, u, ks, v, cs, -, hargs, hkwargs, hbodies, rfl⟩ :=
      expression_extensionCall_eq_ok_iff.mp h
    exact ((evaluates_expressions hargs).append ((evaluates_keywordCode hkwargs).append
      (evaluates_closureCode hbodies))).of_eq (by simp)
  | .callerBody _ params body, s, t, code, h => by
    rw [expression_callerBody] at h
    exact evaluates_macroCode evaluates_defaultCode carries_statements h
  | .capture _ body, s, t, code, h => by
    obtain ⟨b, hbody, rfl⟩ := expression_capture_eq_ok_iff.mp h
    exact (Evaluates.closure cx hbody carries_statements).of_eq (by simp)
  | .data _ _, s, t, code, h | .output _ _, s, t, code, h | .ifElse _ _ _ _, s, t, code, h
  | .forEach _ _ _ _ _, s, t, code, h | .assign _ _ _, s, t, code, h
  | .block _ _ _, s, t, code, h | .macroDef _ _ _ _, s, t, code, h
  | .inclusion _ _ _, s, t, code, h => absurd h throw_ne_ok

theorem evaluates_expressions : ∀ {nodes : List Node} {s t : CodeState} {code : List Expr},
    cx.expressions nodes s = .ok code t →
      Evaluates [] (Node.outlineAll nodes) s (.uses (Expr.notableAll code)) t
  | [], s, t, code, h => by
    obtain ⟨rfl, rfl⟩ := pure_eq_ok_iff.mp h
    exact .nil
  | node :: nodes, s, t, code, h => by
    obtain ⟨c, u, cs, hnode, hnodes, rfl⟩ := expressions_cons_eq_ok_iff.mp h
    exact ((evaluates_expression hnode).append (evaluates_expressions hnodes)).of_eq (by simp)

theorem evaluates_optionalCode : ∀ {node : Option Node} {s t : CodeState} {code : Expr},
    cx.optionalCode node s = .ok code t →
      Evaluates [] (Node.outlineOption node) s (.uses code.notable) t
  | none, s, t, code, h => by
    obtain ⟨rfl, rfl⟩ := pure_eq_ok_iff.mp h
    exact .nil
  | some node, s, t, code, h => by
    rw [optionalCode] at h
    exact evaluates_expression h

theorem evaluates_entryCode : ∀ {entries : List (Node × Node)} {s t : CodeState}
    {code : List (Expr × Expr)}, cx.entryCode entries s = .ok code t →
      Evaluates [] (Node.outlineEntries entries) s (.uses (Expr.object code).notable) t
  | [], s, t, code, h => by
    obtain ⟨rfl, rfl⟩ := pure_eq_ok_iff.mp h
    exact .nil
  | (key, value) :: entries, s, t, code, h => by
    obtain ⟨k, u, c, v, cs, hkey, hvalue, hentries, rfl⟩ := entryCode_cons_eq_ok_iff.mp h
    exact ((evaluates_expression hkey).append ((evaluates_expression hvalue).append
      (evaluates_entryCode hentries))).of_eq (by simp)

theorem evaluates_keywordCode : ∀ {kwargs : List (String × Node)} {s t : CodeState}
    {code : List Expr}, cx.keywordCode kwargs s = .ok code t →
      Evaluates [] (Node.outlineKeywords kwargs) s (.uses (Expr.notableAll code)) t
  | [], s, t, code, h => by
    obtain ⟨rfl, rfl⟩ := pure_eq_ok_iff.mp h
    exact .nil
  | (keyword, value) :: kwargs, s, t, code, h => by
    obtain ⟨c, u, entries, hvalue, hentries, rfl⟩ := keywordCode_cons_eq_ok_iff.mp h
    exact ((evaluates_expression hvalue).append (evaluates_keywordEntries hentries)).of_eq (by simp)

theorem evaluates_keywordEntries : ∀ {kwargs : List (String × Node)} {s t : CodeState}
    {code : List (Expr × Expr)}, cx.keywordEntries kwargs s = .ok code t →
      Evaluates [] (Node.outlineKeywords kwargs) s (.uses (Expr.object code).notable) t
  | [], s, t, code, h => by
    obtain ⟨rfl, rfl⟩ := pure_eq_ok_iff.mp h
    exact .nil
  | (keyword, value) :: kwargs, s, t, code, h => by
    obtain ⟨c, u, entries, hvalue, hentries, rfl⟩ := keywordEntries_cons_eq_ok_iff.mp h
    exact ((evaluates_expression hvalue).append (evaluates_keywordEntries hentries)).of_eq (by simp)

theorem evaluates_comparedCode : ∀ {rest : List (CompareOp × Node)} {s t : CodeState}
    {start code : Expr}, cx.comparedCode start rest s = .ok code t →
      ∃ us, code.notable = start.notable ++ us ∧
        Evaluates [] (Node.outlineCompared rest) s (.uses us) t
  | [], s, t, start, code, h => by
    obtain ⟨rfl, rfl⟩ := pure_eq_ok_iff.mp h
    exact ⟨[], (List.append_nil _).symm, .nil⟩
  | (op, operand) :: rest, s, t, start, code, h => by
    obtain ⟨c, u, hoperand, h⟩ := comparedCode_cons_eq_ok_iff.mp h
    obtain ⟨us, hus, hrest⟩ := evaluates_comparedCode h
    exact ⟨c.notable ++ us, by simp [hus], (evaluates_expression hoperand).append hrest⟩

theorem evaluates_closureCode : ∀ {bodies : List (List Node)} {s t : CodeState}
    {code : List Expr}, cx.closureCode bodies s = .ok code t →
      Evaluates [] (Node.outlineBodies bodies) s (.uses (Expr.notableAll code)) t
  | [], s, t, code, h => by
    obtain ⟨rfl, rfl⟩ := pure_eq_ok_iff.mp h
    exact .nil
  | body :: bodies, s, t, code, h => by
    obtain ⟨b, u, cs, hbody, hbodies, rfl⟩ := closureCode_cons_eq_ok_iff.mp h
    exact ((Evaluates.closure cx hbody carries_statements).append
      (evaluates_closureCode hbodies)).of_eq (by simp)

theorem evaluates_defaultCode : ∀ {params : List (String × Option Node)} {s t : CodeState}
    {code : List (String × Expr)}, cx.defaultCode params s = .ok code t →
      Evaluates [.named "kwargs"] (Node.outlineDefaults params) s (.code (defaultSettings code)) t
  | [], s, t, code, h => by
    obtain ⟨rfl, rfl⟩ := pure_eq_ok_iff.mp h
    exact ⟨.done, rfl⟩
  | (_, none) :: params, s, t, code, h => by
    rw [defaultCode] at h
    have hparams := evaluates_defaultCode h
    exact hparams
  | (param, some node) :: params, s, t, code, h => by
    obtain ⟨c, u, cs, hnode, hparams, rfl⟩ := defaultCode_cons_eq_ok_iff.mp h
    exact (evaluates_expression hnode).setDefault param (evaluates_defaultCode hparams)

theorem carries_outputCode : ∀ {nodes : List Node} {s t : CodeState} {code : List Stmt},
    cx.outputCode nodes s = .ok code t →
      Carries [] (Node.outlineAll nodes) s (.code code) t
  | [], s, t, code, h => by
    obtain ⟨rfl, rfl⟩ := pure_eq_ok_iff.mp h
    exact .done
  | node :: nodes, s, t, code, h => by
    obtain ⟨pos, text, cs, rfl, hnodes, rfl⟩ | ⟨c, u, cs, hnode, hnodes, rfl⟩ :=
      outputCode_cons_eq_ok h
    · exact Carries.code_append (.data text) (carries_outputCode hnodes)
    · refine Carries.code_append (.outputValue ((evaluates_expression hnode).of_eq ?_))
        (carries_outputCode hnodes)
      split <;> simp

theorem carries_statement : ∀ {node : Node} {s t : CodeState} {code : List Stmt},
    cx.statement node s = .ok code t → Carries [] node.outline s (.code code) t
  | .data pos text, s, t, code, h => by
    obtain ⟨rfl, rfl⟩ := pure_eq_ok_iff.mp h
    exact .data text
  | .output _ nodes, s, t, code, h => by
    rw [statement_output] at h
    exact carries_outputCode h
  | .ifElse _ cond body otherwise, s, t, code, h => by
    obtain ⟨c, u, b, v, o, hcond, hbody, hotherwise, rfl⟩ := statement_ifElse_eq_ok_iff.mp h
    split
    · next hempty =>
      obtain rfl := List.isEmpty_iff.mp hempty
      obtain ⟨rfl, rfl⟩ := pure_eq_ok_iff.mp hotherwise
      exact .branch (evaluates_expression hcond) (carries_statements hbody)
    · exact .branchElse (evaluates_expression hcond) (carries_statements hbody)
        (carries_statements hotherwise)
  | .forEach _ targets iterated body otherwise, s, t, code, h => by
    obtain ⟨c, u, result, v, o, hiterated, hscope, hotherwise, rfl⟩ := statement_forEach_eq_ok h
    have hloop := Carries.loop (!otherwise.isEmpty) (evaluates_expression hiterated) hscope
      carries_statements (carries_statements hotherwise) fun hempty => by
        cases otherwise with
        | nil => rfl
        | cons => cases hempty
    cases otherwise <;> exact hloop
  | .assign _ targets value, s, t, code, h => by
    obtain ⟨c, u, holders, v, hvalue, hholders, hbind, rfl⟩ := statement_assign_eq_ok_iff.mp h
    exact .assign (evaluates_expression hvalue) hholders hbind
  | .block _ blockName body, s, t, code, h => by
    obtain ⟨rfl, rfl⟩ := statement_block_eq_ok_iff.mp h
    exact carries_block (by simp (disch := decide))
  | .macroDef _ macroName params body, s, t, code, h => by
    obtain ⟨c, u, hcode, hbind, rfl⟩ := statement_macroDef_eq_ok_iff.mp h
    exact .define rfl (evaluates_macroCode evaluates_defaultCode carries_statements hcode) hbind
  | .inclusion _ form template, s, t, code, h => by
    obtain ⟨c, u, htemplate, h⟩ := statement_inclusion_eq_ok_iff.mp h
    exact carries_inclusionCode (evaluates_expression htemplate) h
  | .extensionCall _ site extensionMethod args kwargs bodies isAsync, s, t, code, h => by
    obtain ⟨e, as, u, ks, v, cs, -, hargs, hkwargs, hbodies, rfl⟩ :=
      statement_extensionCall_eq_ok_iff.mp h
    exact .outputValue (((evaluates_expressions hargs).append ((evaluates_keywordCode
      hkwargs).append (evaluates_closureCode hbodies))).of_eq (by simp))
  | .literal _ _, s, t, code, h | .symbol _ _, s, t, code, h | .group _ _, s, t, code, h
  | .array _ _, s, t, code, h | .dict _ _, s, t, code, h | .lookup _ _ _, s, t, code, h
  | .call _ _ _ _, s, t, code, h | .filter _ _ _ _ _, s, t, code, h
  | .test _ _ _ _ _, s, t, code, h | .unary _ _ _, s, t, code, h
  | .binary _ _ _ _, s, t, code, h | .compare _ _ _, s, t, code, h
  | .inlineIf _ _ _ _, s, t, code, h
  | .callerBody _ _ _, s, t, code, h | .capture _ _, s, t, code, h => absurd h throw_ne_ok

theorem carries_statements : ∀ {nodes : List Node} {s t : CodeState} {code : List Stmt},
    cx.statements nodes s = .ok code t → Carries [] (Node.outlineAll nodes) s (.code code) t
  | [], s, t, code, h => by
    obtain ⟨rfl, rfl⟩ := pure_eq_ok_iff.mp h
    exact .done
  | node :: nodes, s, t, code, h => by
    obtain ⟨c, u, cs, hnode, hnodes, rfl⟩ := statements_cons_eq_ok_iff.mp h
    exact (carries_statement hnode).code_append (carries_statements hnodes)

end

end CodeContext

/-- What a body does with variables, given that nothing is visible to it and how many temporaries
    have been handed out before it. -/
def Node.bodyFlow (body : List Node) (temps : Nat) : List Flow :=
  (Outline.flowAll (outlineAll body) ⟨temps, []⟩).1

/-- The function is made of some code for a body, with the first `temps` temporaries handed out
    before, and of what stands before and after that code. -/
def RendersFrom (temps : Nat) (start finish : List Stmt) (body : List Node)
    (function : List Stmt) : Prop :=
  ∃ code, function = start ++ (code ++ finish) ∧ Emits [] (Node.bodyFlow body temps) (.code code)

/-- The function is made of some code for a body and of what stands before and after it. -/
def Renders (start finish : List Stmt) (body : List Node) (function : List Stmt) : Prop :=
  ∃ temps, RendersFrom temps start finish body function

/-- What stands in the root function before the code of the template. -/
def rootStart : List Stmt :=
  prologue ++ [.declare (.named "parentTemplate") (some (.constant "null"))]

/-- What stands in the root function after the code of the template. -/
def rootEnd (cx : CodeContext) : List Stmt :=
  let parent := name "parentTemplate"
  [.branch parent [.return (cx.awaitedIfAsync (method parent "rootRenderFunc" renderArguments))],
   .return (name "output")]

/-- What stands in the function of a block before the code of its body. -/
def blockStart : List Stmt :=
  prologue ++ [pushFrame [truth true]]

/-- What stands in the function of a block after the code of its body. -/
def blockEnd : List Stmt :=
  [.return (name "output")]

namespace CodeContext

variable {cx : CodeContext} {s t : CodeState}

theorem agrees_of_scopes_eq (hscopes : s.scopes = [[]]) : Agrees s ⟨s.temps, []⟩ :=
  ⟨rfl, fun name => by rw [CodeState.holder?, hscopes]; rfl, by rw [hscopes]; exact List.cons_ne_nil _ _⟩

theorem renders_rootCode {body : List Node} {code : List Stmt} (hscopes : s.scopes = [[]])
    (h : cx.rootCode body s = .ok code t) :
    RendersFrom s.temps rootStart (rootEnd cx) body code ∧
      t.pending = s.pending ++ Outline.blocks (Node.outlineAll body) := by
  obtain ⟨inner, hbody, rfl⟩ := rootCode_eq_ok_iff.mp h
  have hcarries := carries_statements hbody
  refine ⟨⟨inner, ?_, hcarries.emits _ (agrees_of_scopes_eq hscopes)⟩, hcarries.pending⟩
  simp [rootStart, rootEnd]

/-- A block sees no binding around it. -/
theorem renders_blockCode {b : PendingBlock} {function : BlockFunction}
    (h : cx.blockCode b s = .ok function t) :
    function.name = b.name ∧ Renders blockStart blockEnd b.body function.body ∧
      t.pending = s.pending ++ Outline.blocks (Node.outlineAll b.body) := by
  obtain ⟨inner, u, hbody, rfl, rfl⟩ := blockCode_eq_ok_iff.mp h
  have hcarries := carries_statements hbody
  refine ⟨rfl, ⟨s.temps, inner, ?_, hcarries.emits _ (agrees_of_scopes_eq rfl)⟩,
    hcarries.pending⟩
  simp [blockStart, blockEnd]

/-- Every pending block gets a function, and so do the blocks in it. -/
theorem renders_blockCodes {bound : Nat} {written : List String} {functions : List BlockFunction}
    (h : cx.blockCodes bound written s = .ok functions t) :
    ∃ bs, s.pending ⊆ bs ∧ (∀ b ∈ bs, Outline.blocks (Node.outlineAll b.body) ⊆ bs) ∧
      (∀ b ∈ bs, ∃ p ∈ s.pending, b = p ∨ Node.HasBlock b p.body) ∧
      List.Forall₂ (fun b function => function.name = b.name ∧
        Renders blockStart blockEnd b.body function.body) bs functions := by
  induction bound generalizing written s functions with
  | zero =>
    rcases blockCodes_eq_ok h with ⟨hnil, rfl⟩ | ⟨_, _, _, _, _, _, hbound, _⟩
    · exact ⟨[], by rw [hnil]; exact List.nil_subset _, nofun, nofun, .nil⟩
    · cases hbound
  | succ bound ih =>
    rcases blockCodes_eq_ok h with
      ⟨hnil, rfl⟩ | ⟨_, b, u, v, function, rest, hbound, hpending, _, hfunction, hrest, rfl⟩
    · exact ⟨[], by rw [hnil]; exact List.nil_subset _, nofun, nofun, .nil⟩
    · obtain rfl := Nat.succ.inj hbound
      obtain ⟨hname, hrenders, hv⟩ := renders_blockCode hfunction
      obtain ⟨bs, hsubset, hclosed, horigin, hall⟩ := ih hrest
      rw [hv] at hsubset horigin
      obtain ⟨hu, hinner⟩ := List.append_subset.mp hsubset
      rw [hpending]
      refine ⟨b :: bs, List.cons_subset_cons _ hu, ?_, ?_, .cons ⟨hname, hrenders⟩ hall⟩
      · intro b' hb'
        rcases List.mem_cons.mp hb' with rfl | hb'
        · exact List.subset_cons_of_subset _ hinner
        · exact List.subset_cons_of_subset _ (hclosed b' hb')
      · intro b' hb'
        rcases List.mem_cons.mp hb' with rfl | hb'
        · exact ⟨b', List.mem_cons_self .., .inl rfl⟩
        · obtain ⟨p, hp, heq⟩ := horigin b' hb'
          rcases List.mem_append.mp hp with hp | hp
          · exact ⟨p, List.mem_cons_of_mem _ hp, heq⟩
          · refine ⟨b, List.mem_cons_self .., .inr ?_⟩
            rcases heq with rfl | hinside
            · exact .here hp
            · exact .inside hp hinside

end CodeContext

/-- A template that compiles becomes a root function for its body and one function for each block
    in it. -/
theorem Template.renders_compile {template : Template} {env : Environment} {moduleVar : String}
    {module : Module} (h : template.compile env moduleVar = .ok module) :
    RendersFrom 0 rootStart (rootEnd ⟨template.name, env, template.requiresAsync env⟩)
        template.body module.root ∧
      ∃ bs, (∀ b, b ∈ bs ↔ Node.HasBlock b template.body) ∧
        List.Forall₂ (fun b function => function.name = b.name ∧
          Renders blockStart blockEnd b.body function.body) bs module.blocks := by
  obtain ⟨s, t, hroot, hblocks⟩ := Template.compile_eq_ok h
  obtain ⟨hrenders, hpending⟩ := CodeContext.renders_rootCode rfl hroot
  obtain ⟨bs, hsubset, hclosed, horigin, hall⟩ := CodeContext.renders_blockCodes hblocks
  rw [hpending] at hsubset horigin
  refine ⟨hrenders, bs, fun b => ⟨fun hb => ?_, fun hb => ?_⟩, hall⟩
  · obtain ⟨p, hp, rfl | hinside⟩ := horigin b hb
    · exact .here hp
    · exact .inside hp hinside
  · have hall {nodes : List Node} (hb : Node.HasBlock b nodes)
        (hnodes : Outline.blocks (Node.outlineAll nodes) ⊆ bs) : b ∈ bs := by
      induction hb with
      | here hb => exact hnodes hb
      | inside houter _ ih => exact ih (hclosed _ (hnodes houter))
    exact hall hb hsubset

end TemplateManifest
