import TemplateManifest.Proofs.Compile.Written

/-!
The code of every call stands in the module of its template. Main statement:
`Template.exists_code_of_mem_walk`, for any template that compiles.
-/

namespace TemplateManifest

open Script Vocabulary

namespace CodeContext

open Coder

variable {cx : CodeContext}

theorem partsAll_subset_call (callee : Expr) (args : List Expr) :
    Expr.partsAll args ⊆ (Expr.call callee args).parts := by
  intro e he
  simp only [Expr.parts, List.mem_cons, List.mem_append]
  exact .inr (.inr he)

theorem partsAll_subset_runtime (function : String) (args : List Expr) :
    Expr.partsAll args ⊆ (runtime function args).parts :=
  partsAll_subset_call _ args

theorem parts_subset_lookupCode (target key : Expr) :
    target.parts ++ key.parts ⊆ (runtime "memberLookup" [.paren target, key]).parts := by
  refine List.Subset.trans (fun e he => ?_) (partsAll_subset_runtime _ _)
  simp only [Expr.partsAll, Expr.parts, List.mem_append, List.mem_cons] at he ⊢
  grind

/-- What is called and its arguments stand in the code of a call. -/
theorem parts_subset_callCode (pos : Position) (called : Expr) (callee : String)
    (args args' : List Expr) :
    called.parts ++ (Expr.partsAll args ++ Expr.partsAll args') ⊆
      (callCode pos called callee (args ++ args')).parts := by
  intro e he
  simp only [callCode, runtime, method, Expr.parts, Expr.partsAll, Expr.partsAll_append,
    List.mem_append, List.mem_cons] at he ⊢
  grind

/-- The code of an operand stands in the operand with its parentheses. -/
theorem parts_subset_operandCode (inSum : Bool) (node : Node) (code : Expr) :
    code.parts ⊆ (node.operandCode inSum code).parts := by
  unfold Node.operandCode
  split
  · exact List.subset_cons_self _ _
  · exact List.Subset.refl _

/-- The code of both operands stands in that of a binary operator. -/
theorem parts_subset_code (op : BinaryOp) (left right : Expr) :
    left.parts ++ right.parts ⊆ (op.code left right).parts := by
  intro e he
  cases op <;> simp only [BinaryOp.code, runtime, method, Expr.parts, Expr.partsAll] <;> grind

theorem parts_subset_awaitedIf (isAsync : Bool) (call : Expr) :
    call.parts ⊆ (awaitedIf isAsync call).parts := by
  intro e he
  unfold awaitedIf awaited
  split
  · simp only [Expr.parts, List.mem_cons]
    exact .inr (.inr he)
  · exact he

theorem parts_subset_awaitedIfAsync (call : Expr) :
    call.parts ⊆ (cx.awaitedIfAsync call).parts :=
  parts_subset_awaitedIf cx.isAsync call

/-- The target and the arguments of a filter stand in its code. -/
theorem parts_subset_filterCode (isAsync : Bool) (filter target : Expr) (args args' : List Expr) :
    target.parts ++ (Expr.partsAll args ++ Expr.partsAll args') ⊆
      (awaitedIf isAsync (method filter "call"
        (name "context" :: target :: (args ++ args')))).parts := by
  refine List.Subset.trans (List.Subset.trans (fun e he => ?_) (partsAll_subset_call _ _))
    (parts_subset_awaitedIf isAsync _)
  rw [← Expr.partsAll_append] at he
  exact List.mem_append_right _ he

theorem parts_subset_testCode (negated : Bool) (test target : Expr) (args : List Expr) :
    let result : Expr := .paren (.operation .strictEq
      (method test "call" (name "context" :: target :: args)) (truth true))
    target.parts ++ Expr.partsAll args ⊆
      (if negated then .signed .not result else result).parts := by
  intro result e he
  have hcall : e ∈ (method test "call" (name "context" :: target :: args)).parts :=
    partsAll_subset_call _ _ (List.mem_append_right _ he)
  have hresult : e ∈ result.parts :=
    List.mem_cons_of_mem _ (List.mem_cons_of_mem _ (List.mem_append_left _ hcall))
  split
  · exact List.mem_cons_of_mem _ hresult
  · exact hresult

theorem partsAll_subset_extensionCode (e : Extension) (extensionMethod : String) (isAsync : Bool)
    (args args' args'' : List Expr) :
    Expr.partsAll args ++ Expr.partsAll args' ++ Expr.partsAll args'' ⊆
      (extensionCode e extensionMethod isAsync (args ++ args' ++ args'')).parts := by
  rw [← Expr.partsAll_append, ← Expr.partsAll_append]
  refine List.Subset.trans (fun x hx => ?_) (parts_subset_awaitedIf _ _)
  exact partsAll_subset_call _ _ (List.mem_append_right _ hx)

/-- What is put out stands in the code that puts it out. -/
theorem parts_subset_outputValue (value : Expr) (autoescape : Bool) :
    value.parts ⊆ (outputValue value autoescape).parts := fun _ he =>
  partsAll_subset_runtime "suppressValue" _ (List.mem_append_left _ he)

theorem partsAll_subset_closure (cx : CodeContext) (body : List Stmt) :
    Stmt.partsAll body ⊆ (cx.closure body).parts := by
  intro e he
  simp only [closure, Expr.parts, Stmt.partsAll, Stmt.partsAll_append, List.mem_cons,
    List.mem_append]
  exact .inr (.inr (.inl he))

theorem parts_subset_getTemplate (target : Expr) (flags : Bool × Option Bool) :
    target.parts ⊆ (cx.getTemplate target flags).parts := by
  refine List.Subset.trans (fun e he => ?_) (parts_subset_awaitedIfAsync _)
  simp only [method, Expr.parts, Expr.partsAll, List.cons_append, List.mem_cons, List.mem_append]
  exact .inr (.inr (.inr (.inl he)))

/-- The defaults and the body of a macro stand in its code. -/
theorem parts_subset_makeMacro (isCaller : Bool) (positional : List String)
    (defaults : List (String × Expr)) (body : List Stmt) :
    defaults.flatMap (·.2.parts) ++ Stmt.partsAll body ⊆
      (cx.makeMacro isCaller positional defaults body).parts := by
  refine List.Subset.trans (fun e he => ?_) (partsAll_subset_runtime _ _)
  simp only [Expr.partsAll, Expr.parts, Stmt.partsAll, Stmt.partsAll_append, List.mem_append,
    List.mem_cons]
  rcases List.mem_append.mp he with he | he
  · obtain ⟨⟨param, code⟩, hentry, he⟩ := List.mem_flatMap.mp he
    have hset : e ∈ (setFrame param (.conditional (hasOwn (name "kwargs") (.string param))
        (.index (name "kwargs") (.string param)) code)).parts := by
      simp only [setFrame, method, Stmt.parts, Expr.parts, Expr.partsAll, List.mem_append,
        List.mem_cons]
      grind
    have hdefaults : e ∈ Stmt.partsAll (defaults.map fun entry =>
        setFrame entry.1 (.conditional (hasOwn (name "kwargs") (.string entry.1))
          (.index (name "kwargs") (.string entry.1)) entry.2)) := by
      rw [Stmt.partsAll_eq_flatMap]
      exact List.mem_flatMap.mpr ⟨_, List.mem_map_of_mem hentry, hset⟩
    grind
  · grind

/-- What a loop runs over, its body and what it does without items stand in its code. -/
theorem parts_subset_loopCode (arr len i : Variable) (iterated : Expr)
    (targets : List (String × Variable)) (body : List Stmt) (otherwise : Option (List Stmt)) :
    iterated.parts ++ (Stmt.partsAll body ++ otherwise.elim [] Stmt.partsAll) ⊆
      Stmt.partsAll (loopCode arr len i iterated targets body otherwise) := by
  intro e he
  simp only [loopCode, Stmt.partsAll, Stmt.partsAll_append, Stmt.parts, List.mem_append]
  rcases List.mem_append.mp he with he | he
  · grind
  · rcases List.mem_append.mp he with he | he
    · grind
    · cases otherwise with
      | none => cases he
      | some otherwise =>
        simp only [Option.elim, Option.map_some, Option.toList, Stmt.partsAll, Stmt.parts,
          List.mem_append] at he ⊢
        grind

theorem inclusionCode_parts {target : Expr} {form : Inclusion} {code : List Stmt}
    {s t : CodeState} (h : cx.inclusionCode target form s = .ok code t) :
    target.parts ⊆ Stmt.partsAll code := by
  have himport {withContext : Bool} {result : Variable × List Stmt} {s t : CodeState}
      (h : cx.importCode target withContext s = .ok result t) :
      target.parts ⊆ Stmt.partsAll result.2 := by
    obtain ⟨v, u, _, h⟩ := bind_eq_ok_iff.mp h
    obtain ⟨rfl, rfl⟩ := pure_eq_ok_iff.mp h
    exact List.subset_append_of_subset_left _ (parts_subset_getTemplate target _)
  cases form with
  | parent | part =>
    obtain ⟨v, u, _, h⟩ := bind_eq_ok_iff.mp h
    obtain ⟨rfl, rfl⟩ := pure_eq_ok_iff.mp h
    exact List.subset_append_of_subset_left _ (parts_subset_getTemplate target _)
  | module exportsName withContext =>
    obtain ⟨imported, u, himported, _, rfl⟩ := inclusionCode_module_eq_ok_iff.mp h
    rw [Stmt.partsAll_append]
    exact List.subset_append_of_subset_left _ (himport himported)
  | members names withContext =>
    obtain ⟨imported, u, cs, himported, _, rfl⟩ := inclusionCode_members_eq_ok_iff.mp h
    rw [Stmt.partsAll_append]
    exact List.subset_append_of_subset_left _ (himport himported)

theorem written_macroCode {isCaller : Bool} {params : List (String × Option Node)}
    {nodes : List Node} {defaults : Coder (List (String × Expr))} {body : Coder (List Stmt)}
    {s t : CodeState} {code : Expr}
    (hdefaults : ∀ {s t : CodeState} {code : List (String × Expr)}, defaults s = .ok code t →
      cx.Written (params.filterMap (·.2)) s.pending (code.flatMap (·.2.parts)) t.pending)
    (hbody : ∀ {s t : CodeState} {code : List Stmt}, body s = .ok code t →
      cx.Written nodes s.pending (Stmt.partsAll code) t.pending)
    (h : cx.macroCode isCaller params defaults body s = .ok code t) :
    cx.Written (params.filterMap (·.2) ++ nodes) s.pending code.parts t.pending := by
  obtain ⟨u, ds, v, b, w, hbind, hds, hb, rfl, rfl⟩ := macroCode_eq_ok_iff.mp h
  have hgrows := grows_bindAll _ { s with scopes := [] :: s.scopes } u () hbind
  have hall := (hdefaults hds).append (hbody hb)
  refine Written.mono ⟨List.Subset.trans hgrows hall.grows, hall.covers⟩ ?_
  exact parts_subset_makeMacro isCaller _ ds b

/-- Both branches stand in the code of a condition; without nodes there is nothing in the second
    one. -/
theorem partsAll_ifElse {otherwise : List Node} {s t : CodeState} {cond : Expr}
    {body code : List Stmt} (h : cx.statements otherwise s = .ok code t) :
    Stmt.partsAll [if otherwise.isEmpty then .branch cond body else .branchElse cond body code] =
      cond.parts ++ (Stmt.partsAll body ++ Stmt.partsAll code) := by
  cases otherwise with
  | nil =>
    obtain ⟨rfl, rfl⟩ := pure_eq_ok_iff.mp h
    simp [Stmt.parts, Stmt.partsAll]
  | cons node nodes => simp [Stmt.parts, Stmt.partsAll]

/-- A loop has a part for the case without items exactly when the template has one. -/
theorem partsAll_otherwise {otherwise : List Node} {s t : CodeState} {code : List Stmt}
    (h : cx.statements otherwise s = .ok code t) :
    (if otherwise.isEmpty then none else some code).elim [] Stmt.partsAll = Stmt.partsAll code := by
  cases otherwise with
  | nil =>
    obtain ⟨rfl, rfl⟩ := pure_eq_ok_iff.mp h
    rfl
  | cons node nodes => rfl

theorem parts_subset_putOut (pos : Position) (value : Expr) :
    value.parts ⊆ (cx.putOut pos value).parts := by
  intro e he
  refine parts_subset_outputValue _ _ ?_
  split
  · exact partsAll_subset_runtime "ensureDefined" _ (List.mem_append_left _ he)
  · exact he

theorem parts_subset_keyCode (key : Node) (code : Expr) : code.parts ⊆ (key.keyCode code).parts := by
  intro e he
  unfold Node.keyCode
  split
  · exact he
  · exact List.mem_cons_of_mem _ (List.mem_append_left _ he)

mutual

/-- Code generation for an expression writes the code of every call in it. -/
theorem written_expression : ∀ {node : Node} {s t : CodeState} {code : Expr},
    cx.expression node s = .ok code t → cx.Written [node] s.pending code.parts t.pending
  | .literal _ _, s, t, code, h => by
    obtain ⟨rfl, rfl⟩ := pure_eq_ok_iff.mp h
    exact .of_children nofun (.nil (List.Subset.refl _))
  | .symbol _ _, s, t, code, h => by
    obtain ⟨rfl, rfl⟩ := expression_symbol_eq_ok_iff.mp h
    exact .of_children nofun (.nil (List.Subset.refl _))
  | .group _ inner, s, t, code, h => by
    obtain ⟨c, hinner, rfl⟩ := expression_group_eq_ok_iff.mp h
    exact .of_children nofun ((written_expression hinner).mono (List.subset_cons_self _ _))
  | .array _ items, s, t, code, h => by
    obtain ⟨cs, hitems, rfl⟩ := expression_array_eq_ok_iff.mp h
    exact .of_children nofun ((written_expressions hitems).mono (List.subset_cons_self _ _))
  | .dict _ entries, s, t, code, h => by
    obtain ⟨cs, hentries, rfl⟩ := expression_dict_eq_ok_iff.mp h
    exact .of_children nofun ((written_entryCode hentries).mono (List.subset_cons_self _ _))
  | .lookup _ target key, s, t, code, h => by
    obtain ⟨c, u, k, htarget, hkey, rfl⟩ := expression_lookup_eq_ok_iff.mp h
    exact .of_children nofun (((written_expression htarget).append (written_expression hkey)).mono
      (parts_subset_lookupCode c k))
  | .call pos callee args kwargs, s, t, code, h => by
    obtain ⟨called, u, as, v, ks, hcalled, hargs, hkwargs, hcode⟩ := expression_call_eq_ok_iff.mp h
    exact .of_code h (Expr.mem_parts_self _) (((written_expression hcalled).append
      ((written_expressions hargs).append (written_keywordCode hkwargs))).mono
        (hcode ▸ parts_subset_callCode pos called callee.calleeText as ks))
  | .filter _ filter target args kwargs, s, t, code, h => by
    obtain ⟨isAsync, c, u, as, v, ks, -, htarget, hargs, hkwargs, rfl⟩ :=
      expression_filter_eq_ok_iff.mp h
    exact .of_children nofun (((written_expression htarget).append
      ((written_expressions hargs).append (written_keywordCode hkwargs))).mono
        (parts_subset_filterCode isAsync _ c as ks))
  | .test _ target test args negated, s, t, code, h => by
    obtain ⟨c, u, as, htarget, hargs, rfl⟩ := expression_test_eq_ok_iff.mp h
    exact .of_children nofun (((written_expression htarget).append (written_expressions hargs)).mono
      (parts_subset_testCode negated _ c as))
  | .unary _ op operand, s, t, code, h => by
    obtain ⟨c, hoperand, rfl⟩ := expression_unary_eq_ok_iff.mp h
    exact .of_children nofun ((written_expression hoperand).mono
      (List.Subset.trans (parts_subset_operandCode _ _ _) (List.subset_cons_self _ _)))
  | .binary _ op left right, s, t, code, h => by
    obtain ⟨l, u, r, hleft, hright, rfl⟩ := expression_binary_eq_ok_iff.mp h
    refine .of_children (by cases op <;> nofun)
      (((written_expression hleft).append (written_expression hright)).mono fun e he => ?_)
    refine List.mem_cons_of_mem _ (parts_subset_code op _ _ ?_)
    rcases List.mem_append.mp he with he | he
    · exact List.mem_append_left _ (parts_subset_operandCode _ _ _ he)
    · exact List.mem_append_right _ (parts_subset_operandCode _ _ _ he)
  | .compare _ first rest, s, t, code, h => by
    obtain ⟨c, u, hfirst, h⟩ := expression_compare_eq_ok_iff.mp h
    obtain ⟨hrest, hsub⟩ := written_comparedCode h
    have hall := (written_expression hfirst).append hrest
    refine .of_children nofun (hall.mono (List.append_subset.mpr ⟨?_, List.Subset.refl _⟩))
    exact List.Subset.trans (parts_subset_operandCode _ _ _) hsub
  | .inlineIf _ cond body otherwise, s, t, code, h => by
    obtain ⟨c, u, b, v, o, hcond, hbody, hotherwise, rfl⟩ := expression_inlineIf_eq_ok_iff.mp h
    refine .of_children nofun (((written_expression hcond).append
      ((written_expression hbody).append (written_optionalCode hotherwise))).mono ?_)
    exact List.subset_cons_of_subset _ (List.subset_cons_self _ _)
  | .extensionCall _ site extensionMethod args kwargs bodies isAsync, s, t, code, h => by
    obtain ⟨e, as, u, ks, v, cs, -, hargs, hkwargs, hbodies, rfl⟩ :=
      expression_extensionCall_eq_ok_iff.mp h
    exact .of_children nofun ((((written_expressions hargs).append
      (written_keywordCode hkwargs)).append (written_closureCode hbodies)).mono
        (partsAll_subset_extensionCode e extensionMethod isAsync as ks cs))
  | .callerBody _ params body, s, t, code, h => by
    rw [expression_callerBody] at h
    exact .of_children nofun (written_macroCode written_defaultCode written_statements h)
  | .capture _ body, s, t, code, h => by
    obtain ⟨b, hscope, rfl⟩ := expression_capture_eq_ok_iff.mp h
    obtain ⟨u, hbody, rfl⟩ := inScope_eq_ok_iff.mp hscope
    refine .of_children nofun ((written_statements hbody).mono ?_)
    refine List.Subset.trans (fun e he => ?_) (parts_subset_awaitedIfAsync _)
    simp only [Expr.parts, List.mem_cons, List.mem_append]
    exact .inr (.inl (.inr (partsAll_subset_closure cx _ he)))
  | .data _ _, s, t, code, h | .output _ _, s, t, code, h | .ifElse _ _ _ _, s, t, code, h
  | .forEach _ _ _ _ _, s, t, code, h | .assign _ _ _, s, t, code, h
  | .block _ _ _, s, t, code, h | .macroDef _ _ _ _, s, t, code, h
  | .inclusion _ _ _, s, t, code, h => absurd h throw_ne_ok

theorem written_expressions : ∀ {nodes : List Node} {s t : CodeState} {code : List Expr},
    cx.expressions nodes s = .ok code t →
      cx.Written nodes s.pending (Expr.partsAll code) t.pending
  | [], s, t, code, h => by
    obtain ⟨rfl, rfl⟩ := pure_eq_ok_iff.mp h
    exact .nil (List.Subset.refl _)
  | node :: nodes, s, t, code, h => by
    obtain ⟨c, u, cs, hnode, hnodes, rfl⟩ := expressions_cons_eq_ok_iff.mp h
    exact (written_expression hnode).append (written_expressions hnodes)

theorem written_optionalCode : ∀ {node : Option Node} {s t : CodeState} {code : Expr},
    cx.optionalCode node s = .ok code t →
      cx.Written node.toList s.pending code.parts t.pending
  | none, s, t, code, h => by
    obtain ⟨rfl, rfl⟩ := pure_eq_ok_iff.mp h
    exact .nil (List.Subset.refl _)
  | some node, s, t, code, h => by
    rw [optionalCode] at h
    exact written_expression h

theorem written_entryCode : ∀ {entries : List (Node × Node)} {s t : CodeState}
    {code : List (Expr × Expr)}, cx.entryCode entries s = .ok code t →
      cx.Written (entries.flatMap fun entry => [entry.1, entry.2]) s.pending
        (Expr.partsEntries code) t.pending
  | [], s, t, code, h => by
    obtain ⟨rfl, rfl⟩ := pure_eq_ok_iff.mp h
    exact .nil (List.Subset.refl _)
  | (key, value) :: entries, s, t, code, h => by
    obtain ⟨k, u, c, v, cs, hkey, hvalue, hentries, rfl⟩ := entryCode_cons_eq_ok_iff.mp h
    exact ((written_expression hkey).mono (parts_subset_keyCode key k)).append
      ((written_expression hvalue).append (written_entryCode hentries))

theorem written_keywordCode : ∀ {kwargs : List (String × Node)} {s t : CodeState}
    {code : List Expr}, cx.keywordCode kwargs s = .ok code t →
      cx.Written (kwargs.map (·.2)) s.pending (Expr.partsAll code) t.pending
  | [], s, t, code, h => by
    obtain ⟨rfl, rfl⟩ := pure_eq_ok_iff.mp h
    exact .nil (List.Subset.refl _)
  | (keyword, value) :: kwargs, s, t, code, h => by
    obtain ⟨c, u, entries, hvalue, hentries, rfl⟩ := keywordCode_cons_eq_ok_iff.mp h
    refine ((written_expression hvalue).append (written_keywordEntries hentries)).mono ?_
    refine List.subset_append_of_subset_left _
      (List.Subset.trans (fun e he => ?_) (partsAll_subset_runtime _ _))
    simp only [Expr.partsAll, Expr.parts, Expr.partsEntries, List.mem_append, List.mem_cons] at he ⊢
    grind

theorem written_keywordEntries : ∀ {kwargs : List (String × Node)} {s t : CodeState}
    {code : List (Expr × Expr)}, cx.keywordEntries kwargs s = .ok code t →
      cx.Written (kwargs.map (·.2)) s.pending (Expr.partsEntries code) t.pending
  | [], s, t, code, h => by
    obtain ⟨rfl, rfl⟩ := pure_eq_ok_iff.mp h
    exact .nil (List.Subset.refl _)
  | (keyword, value) :: kwargs, s, t, code, h => by
    obtain ⟨c, u, entries, hvalue, hentries, rfl⟩ := keywordEntries_cons_eq_ok_iff.mp h
    exact ((written_expression hvalue).append (written_keywordEntries hentries)).mono
      (List.subset_append_right _ _)

theorem written_comparedCode : ∀ {rest : List (CompareOp × Node)} {s t : CodeState}
    {start code : Expr}, cx.comparedCode start rest s = .ok code t →
      cx.Written (rest.map (·.2)) s.pending code.parts t.pending ∧ start.parts ⊆ code.parts
  | [], s, t, start, code, h => by
    obtain ⟨rfl, rfl⟩ := pure_eq_ok_iff.mp h
    exact ⟨.nil (List.Subset.refl _), List.Subset.refl _⟩
  | (op, operand) :: rest, s, t, start, code, h => by
    obtain ⟨c, u, hoperand, h⟩ := comparedCode_cons_eq_ok_iff.mp h
    obtain ⟨hrest, hsub⟩ := written_comparedCode h
    obtain ⟨hstart, hc⟩ := List.append_subset.mp
      (List.Subset.trans (List.subset_cons_self _ _) hsub)
    have hall := (written_expression hoperand).append hrest
    refine ⟨hall.mono (List.append_subset.mpr ⟨?_, List.Subset.refl _⟩), hstart⟩
    exact List.Subset.trans (parts_subset_operandCode _ _ _) hc

theorem written_closureCode : ∀ {bodies : List (List Node)} {s t : CodeState}
    {code : List Expr}, cx.closureCode bodies s = .ok code t →
      cx.Written bodies.flatten s.pending (Expr.partsAll code) t.pending
  | [], s, t, code, h => by
    obtain ⟨rfl, rfl⟩ := pure_eq_ok_iff.mp h
    exact .nil (List.Subset.refl _)
  | body :: bodies, s, t, code, h => by
    obtain ⟨b, u, cs, hscope, hbodies, rfl⟩ := closureCode_cons_eq_ok_iff.mp h
    obtain ⟨v, hbody, rfl⟩ := inScope_eq_ok_iff.mp hscope
    have hbodies := written_closureCode hbodies
    exact ((written_statements hbody).mono (partsAll_subset_closure cx b)).append hbodies

theorem written_defaultCode : ∀ {params : List (String × Option Node)} {s t : CodeState}
    {code : List (String × Expr)}, cx.defaultCode params s = .ok code t →
      cx.Written (params.filterMap (·.2)) s.pending (code.flatMap (·.2.parts)) t.pending
  | [], s, t, code, h => by
    obtain ⟨rfl, rfl⟩ := pure_eq_ok_iff.mp h
    exact .nil (List.Subset.refl _)
  | (_, none) :: params, s, t, code, h => by
    rw [defaultCode] at h
    have hparams := written_defaultCode h
    exact hparams
  | (param, some node) :: params, s, t, code, h => by
    obtain ⟨c, u, cs, hnode, hparams, rfl⟩ := defaultCode_cons_eq_ok_iff.mp h
    exact (written_expression hnode).append (written_defaultCode hparams)

theorem written_outputCode : ∀ {nodes : List Node} {s t : CodeState} {code : List Stmt},
    cx.outputCode nodes s = .ok code t →
      cx.Written nodes s.pending (Stmt.partsAll code) t.pending
  | [], s, t, code, h => by
    obtain ⟨rfl, rfl⟩ := pure_eq_ok_iff.mp h
    exact .nil (List.Subset.refl _)
  | node :: nodes, s, t, code, h => by
    obtain ⟨pos, text, cs, rfl, hnodes, rfl⟩ | ⟨c, u, cs, hnode, hnodes, rfl⟩ :=
      outputCode_cons_eq_ok h
    · have hnode : cx.Written [.data pos text] s.pending [] s.pending :=
        .of_children nofun (.nil (List.Subset.refl _))
      rw [Stmt.partsAll_append]
      exact (hnode.append (written_outputCode hnodes)).mono (List.subset_append_right _ _)
    · exact ((written_expression hnode).mono (parts_subset_putOut node.pos c)).append
        (written_outputCode hnodes)

theorem written_statement : ∀ {node : Node} {s t : CodeState} {code : List Stmt},
    cx.statement node s = .ok code t →
      cx.Written [node] s.pending (Stmt.partsAll code) t.pending
  | .data pos text, s, t, code, h => by
    obtain ⟨rfl, rfl⟩ := pure_eq_ok_iff.mp h
    exact .of_children nofun (.nil (List.Subset.refl _))
  | .output _ nodes, s, t, code, h => by
    rw [statement_output] at h
    exact .of_children nofun (written_outputCode h)
  | .ifElse _ cond body otherwise, s, t, code, h => by
    obtain ⟨c, u, b, v, o, hcond, hbody, hotherwise, rfl⟩ := statement_ifElse_eq_ok_iff.mp h
    rw [partsAll_ifElse hotherwise]
    exact .of_children nofun ((written_expression hcond).append
      ((written_statements hbody).append (written_statements hotherwise)))
  | .forEach _ targets iterated body otherwise, s, t, code, h => by
    obtain ⟨c, u, result, v, o, hiterated, hscope, hotherwise, rfl⟩ := statement_forEach_eq_ok h
    obtain ⟨w₁, w₂, w₃, hholders, hbind, hbody, rfl⟩ := inScope_targets_eq_ok_iff.mp hscope
    have hgrows : u.pending ⊆ w₂.pending :=
      calc { u with temps := u.temps + 3, scopes := [] :: u.scopes }.pending
        _ ⊆ w₁.pending := grows_freshAll _ _ _ _ hholders
        _ ⊆ w₂.pending := grows_bindAll _ _ _ _ hbind
    have hother := written_statements hotherwise
    refine .of_children nofun ((((written_expression hiterated).trans hgrows).append
      ((written_statements hbody).append hother)).mono ?_)
    rw [← partsAll_otherwise hotherwise]
    exact parts_subset_loopCode _ _ _ c _ result.2 _
  | .assign _ targets value, s, t, code, h => by
    obtain ⟨c, u, holders, v, hvalue, hholders, hbind, rfl⟩ := statement_assign_eq_ok_iff.mp h
    have hgrows := List.Subset.trans (grows_variablesFor _ _ _ _ hholders)
      (grows_bindAll _ _ _ _ hbind)
    refine .of_children nofun (((written_expression hvalue).trans hgrows).mono fun e he => ?_)
    simp only [Stmt.partsAll, Stmt.partsAll_append, Stmt.parts, List.mem_append]
    exact .inr (.inl he)
  | .block _ blockName body, s, t, code, h => by
    obtain ⟨rfl, rfl⟩ := statement_block_eq_ok_iff.mp h
    refine .of_children nofun ⟨List.subset_append_left _ _, fun call _ hcall => ?_⟩
    exact .inr ⟨⟨blockName, body⟩, List.mem_append_right _ (List.mem_singleton_self _), hcall⟩
  | .macroDef _ macroName params body, s, t, code, h => by
    obtain ⟨c, u, hcode, hbind, rfl⟩ := statement_macroDef_eq_ok_iff.mp h
    have hwritten := (written_macroCode written_defaultCode written_statements hcode).trans
      (grows_bind _ _ _ _ _ hbind)
    exact .of_children nofun (hwritten.mono (List.subset_append_left _ _))
  | .inclusion _ form template, s, t, code, h => by
    obtain ⟨c, u, htemplate, h⟩ := statement_inclusion_eq_ok_iff.mp h
    exact .of_children nofun (((written_expression htemplate).trans
      (grows_inclusionCode cx c form u t code h)).mono (inclusionCode_parts h))
  | .extensionCall _ site extensionMethod args kwargs bodies isAsync, s, t, code, h => by
    obtain ⟨e, as, u, ks, v, cs, -, hargs, hkwargs, hbodies, rfl⟩ :=
      statement_extensionCall_eq_ok_iff.mp h
    refine .of_children nofun ((((written_expressions hargs).append
      (written_keywordCode hkwargs)).append (written_closureCode hbodies)).mono ?_)
    exact List.subset_append_of_subset_left _ (List.Subset.trans
      (partsAll_subset_extensionCode e extensionMethod isAsync as ks cs)
      (parts_subset_outputValue _ _))
  | .literal _ _, s, t, code, h | .symbol _ _, s, t, code, h | .group _ _, s, t, code, h
  | .array _ _, s, t, code, h | .dict _ _, s, t, code, h | .lookup _ _ _, s, t, code, h
  | .call _ _ _ _, s, t, code, h | .filter _ _ _ _ _, s, t, code, h
  | .test _ _ _ _ _, s, t, code, h | .unary _ _ _, s, t, code, h | .binary _ _ _ _, s, t, code, h
  | .compare _ _ _, s, t, code, h | .inlineIf _ _ _ _, s, t, code, h
  | .callerBody _ _ _, s, t, code, h | .capture _ _, s, t, code, h => absurd h throw_ne_ok

theorem written_statements : ∀ {nodes : List Node} {s t : CodeState} {code : List Stmt},
    cx.statements nodes s = .ok code t →
      cx.Written nodes s.pending (Stmt.partsAll code) t.pending
  | [], s, t, code, h => by
    obtain ⟨rfl, rfl⟩ := pure_eq_ok_iff.mp h
    exact .nil (List.Subset.refl _)
  | node :: nodes, s, t, code, h => by
    obtain ⟨c, u, cs, hnode, hnodes, rfl⟩ := statements_cons_eq_ok_iff.mp h
    rw [Stmt.partsAll_append]
    exact (written_statement hnode).append (written_statements hnodes)

end

theorem written_blockCode {b : PendingBlock} {s t : CodeState} {function : BlockFunction}
    (h : cx.blockCode b s = .ok function t) :
    cx.Written b.body s.pending (Stmt.partsAll function.body) t.pending := by
  obtain ⟨code, u, hcode, rfl, rfl⟩ := blockCode_eq_ok_iff.mp h
  refine (written_statements hcode).mono fun e he => ?_
  simp only [Stmt.partsAll, Stmt.partsAll_append, List.mem_append]
  exact .inr (.inr (.inl he))

/-- The functions of the pending blocks hold the code of every call in the blocks. -/
theorem exists_code_of_blockCodes {call : Node} (hcategory : call.category = .functionCall)
    {bound : Nat} {written : List String} {s t : CodeState} {functions : List BlockFunction}
    (h : cx.blockCodes bound written s = .ok functions t)
    (hcall : ∃ b ∈ s.pending, call.Among b.body) :
    ∃ code u v, cx.expression call u = .ok code v ∧
      code ∈ functions.flatMap fun b => Stmt.partsAll b.body := by
  induction bound generalizing written s functions with
  | zero =>
    obtain ⟨b, hb, hcall⟩ := hcall
    rcases blockCodes_eq_ok h with ⟨hnil, rfl⟩ | ⟨_, _, _, _, _, _, hbound, _⟩
    · rw [hnil] at hb
      cases hb
    · cases hbound
  | succ bound ih =>
    obtain ⟨b, hb, hcall⟩ := hcall
    rcases blockCodes_eq_ok h with
      ⟨hnil, rfl⟩ | ⟨_, first, u, v, function, rest, hbound, hpending, _, hfunction, hrest, rfl⟩
    · rw [hnil] at hb
      cases hb
    · obtain rfl := Nat.succ.inj hbound
      have hwritten := written_blockCode hfunction
      have hcovers : cx.Covers call (Stmt.partsAll function.body) v.pending := by
        rw [hpending] at hb
        rcases List.mem_cons.mp hb with rfl | hb
        · exact hwritten.covers call hcategory hcall
        · exact .inr ⟨b, hwritten.grows hb, hcall⟩
      rw [List.flatMap_cons]
      rcases hcovers with ⟨code, x, y, hcode, hmem⟩ | hlater
      · exact ⟨code, x, y, hcode, List.mem_append_left _ hmem⟩
      · obtain ⟨code, x, y, hcode, hmem⟩ := ih hrest hlater
        exact ⟨code, x, y, hcode, List.mem_append_right _ hmem⟩

theorem written_rootCode {body : List Node} {s t : CodeState} {code : List Stmt}
    (h : cx.rootCode body s = .ok code t) :
    cx.Written body s.pending (Stmt.partsAll code) t.pending := by
  obtain ⟨c, hbody, rfl⟩ := rootCode_eq_ok_iff.mp h
  refine (written_statements hbody).mono fun e he => ?_
  simp only [Stmt.partsAll, Stmt.partsAll_append, List.mem_append]
  exact .inr (.inr (.inl he))

end CodeContext

/-- Every call of a template that compiles has its code in the module. -/
theorem Template.exists_code_of_mem_walk {template : Template} {env : Environment}
    {moduleVar : String} {module : Module} (h : template.compile env moduleVar = .ok module)
    {call : Node} (hcall : call ∈ template.walk) (hcategory : call.category = .functionCall) :
    let cx : CodeContext := ⟨template.name, env, template.requiresAsync env⟩
    ∃ code s t, cx.expression call s = .ok code t ∧ code ∈ module.parts := by
  intro cx
  obtain ⟨s, t, hroot, hblocks⟩ := Template.compile_eq_ok h
  have hamong : call.Among template.body := Node.among_of_mem_walk hcall
  rcases (CodeContext.written_rootCode hroot).covers call hcategory hamong with
    ⟨code, u, v, hcode, hmem⟩ | hlater
  · exact ⟨code, u, v, hcode, List.mem_append_left _ hmem⟩
  · obtain ⟨code, u, v, hcode, hmem⟩ :=
      CodeContext.exists_code_of_blockCodes hcategory hblocks hlater
    exact ⟨code, u, v, hcode, List.mem_append_right _ hmem⟩

end TemplateManifest
