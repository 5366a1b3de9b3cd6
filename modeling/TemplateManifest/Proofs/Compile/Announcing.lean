import TemplateManifest.Proofs.Compile.BlockCalls
import TemplateManifest.Proofs.Compile.Scope
import TemplateManifest.Proofs.Compile.Written

/-!
Code generation calls the blocks that it leaves to later. A step of code generation that adds blocks
to the pending ones writes a call for each of them, in their order, and no other call of a block. Main
statement: `CodeContext.announces_statements`, for any nodes.
-/

namespace TemplateManifest

open Script Vocabulary

namespace Coder

variable {α β : Type}

/-- The step leaves some blocks to later, and `after` has a call of each of them after the calls
    counted `before`. The step never fails for the number of blocks. -/
structure Announces (step : Coder α) (before : List Expr) (after : α → List Expr) : Prop where
  calls : ∀ s a t, step s = .ok a t → ∃ later : List PendingBlock,
    t.pending = s.pending ++ later ∧ after a = before ++ later.map fun b => getBlock b.name
  fault : ∀ s fault t, step s = .error fault t → fault ≠ .tooManyBlocks

section

variable {step : Coder α} {m : List Expr} {f : α → List Expr} {g : β → List Expr}

/-- What is known of the value of a step may be used after it. -/
theorem Announces.bind_of {P : α → Prop} {next : α → Coder β} (h : step.Announces m f)
    (hP : ∀ s a t, step s = .ok a t → P a) (hnext : ∀ a, P a → (next a).Announces (f a) g) :
    Announces (step >>= next) m g where
  calls s b t hstep := by
    obtain ⟨a, u, ha, hb⟩ := bind_eq_ok_iff.mp hstep
    obtain ⟨later, hpending, hf⟩ := h.calls s a u ha
    obtain ⟨later', hpending', hg⟩ := (hnext a (hP s a u ha)).calls u b t hb
    refine ⟨later ++ later', by rw [hpending', hpending, List.append_assoc], ?_⟩
    rw [hg, hf, List.map_append, List.append_assoc]
  fault s fault t hstep := by
    rcases bind_eq_error_iff.mp hstep with hfault | ⟨a, u, ha, hfault⟩
    · exact h.fault s fault t hfault
    · exact (hnext a (hP s a u ha)).fault u fault t hfault

theorem Announces.bind {next : α → Coder β} (h : step.Announces m f)
    (hnext : ∀ a, (next a).Announces (f a) g) : Announces (step >>= next) m g :=
  h.bind_of (P := fun _ => True) (fun _ _ _ _ => trivial) fun a _ => hnext a

theorem announces_pure {a : α} (h : f a = m) : (pure a : Coder α).Announces m f where
  calls s b t hstep := by
    obtain ⟨rfl, rfl⟩ := pure_eq_ok_iff.mp hstep
    exact ⟨[], (List.append_nil _).symm, by rw [h, List.map_nil, List.append_nil]⟩
  fault _ _ _ h := absurd h pure_ne_error

/-- A value is put together of what a step gives. -/
theorem Announces.bind_pure {k : α → β} (h : step.Announces m f) (hg : ∀ a, g (k a) = f a) :
    Announces (step >>= fun a => pure (k a)) m g :=
  h.bind fun a => announces_pure (hg a)

theorem announces_throw {fault : CompileFault} (h : fault ≠ .tooManyBlocks) :
    (throw fault : Coder α).Announces m f where
  calls _ _ _ h := absurd h throw_ne_ok
  fault s fault' t hstep := by
    cases hstep
    exact h

/-- A step that never fails and keeps the blocks. -/
theorem announces_of_keeps (h : ∀ s, ∃ a t, step s = .ok a t ∧ t.pending = s.pending) :
    step.Announces m fun _ => m where
  calls s a t hstep := by
    obtain ⟨a', t', hok, hpending⟩ := h s
    rw [hok] at hstep
    cases hstep
    exact ⟨[], by rw [hpending, List.append_nil], (List.append_nil m).symm⟩
  fault s fault t hstep := by
    obtain ⟨a, u, hok, -⟩ := h s
    rw [hok] at hstep
    cases hstep

theorem announces_modify {change : CodeState → CodeState}
    (h : ∀ s, (change s).pending = s.pending) :
    (modify change : Coder PUnit).Announces m fun _ => m :=
  announces_of_keeps fun s => ⟨_, _, rfl, h s⟩

theorem Announces.inScope (h : step.Announces m f) : Announces (Coder.inScope step) m f :=
  .bind (announces_modify fun _ => rfl) fun _ => h.bind fun _ =>
    .bind (announces_modify fun _ => rfl) fun _ => announces_pure rfl

theorem Announces.isolated (h : step.Announces m f) : Announces (Coder.isolated step) m f :=
  .bind (announces_of_keeps fun _ => ⟨_, _, rfl, rfl⟩) fun _ =>
    .bind (announces_modify fun _ => rfl) fun _ => h.bind fun _ =>
      .bind (announces_modify fun _ => rfl) fun _ => announces_pure rfl

end

section

variable {m : List Expr}

theorem announces_fresh : fresh.Announces m fun _ => m :=
  announces_of_keeps fun _ => ⟨_, _, rfl, rfl⟩

theorem announces_freshAll (count : Nat) : (freshAll count).Announces m fun _ => m := by
  induction count with
  | zero => exact announces_pure rfl
  | succ count ih => exact announces_fresh.bind fun _ => ih.bind_pure fun _ => rfl

theorem announces_holder? (symbol : String) : (holder? symbol).Announces m fun _ => m :=
  announces_of_keeps fun _ => ⟨_, _, rfl, rfl⟩

theorem announces_variablesFor (symbols : List String) :
    (variablesFor symbols).Announces m fun _ => m := by
  induction symbols with
  | nil => exact announces_pure rfl
  | cons symbol symbols ih =>
    refine (announces_holder? symbol).bind fun holder => ?_
    cases holder with
    | some v => exact ih.bind_pure fun _ => rfl
    | none => exact announces_fresh.bind fun _ => ih.bind_pure fun _ => rfl

theorem announces_bind (symbol : String) (v : Variable) :
    (Coder.bind symbol v).Announces m fun _ => m := by
  refine announces_of_keeps fun s => ?_
  unfold Coder.bind
  split <;> exact ⟨_, _, rfl, rfl⟩

theorem announces_bindAll (entries : List (String × Variable)) :
    (bindAll entries).Announces m fun _ => m := by
  induction entries with
  | nil => exact announces_pure rfl
  | cons entry entries ih => exact (announces_bind _ _).bind fun _ => ih

/-- The block that is left to later is the one that has to be called. -/
theorem announces_addBlock (b : PendingBlock) :
    (addBlock b).Announces m fun _ => m ++ [getBlock b.name] where
  calls s a t h := by
    rw [← modify_eq_ok_iff.mp h]
    exact ⟨[b], rfl, rfl⟩
  fault _ _ _ h := by cases h

end

end Coder

namespace CodeContext

open Coder

variable {cx : CodeContext} {m : List Expr}

theorem announces_membersCode (module : Variable) (names : List (String × Option String)) :
    (membersCode module names).Announces m fun code => m ++ blockCalls (Stmt.partsAll code) := by
  induction names with
  | nil => exact announces_pure (by simp)
  | cons entry names ih =>
    exact announces_fresh.bind fun v => (announces_bind _ v).bind fun _ => ih.bind_pure fun code => by
      simp

theorem announces_importCode (target : Expr) (withContext : Bool) :
    (cx.importCode target withContext).Announces (m ++ blockCalls target.parts) fun result =>
      m ++ blockCalls (Stmt.partsAll result.2) := by
  refine announces_fresh.bind_pure fun v => ?_
  have hargs : blockCalls (Expr.partsAll (if withContext then
      [method (name "context") "getVariables" [], name "frame"] else [])) = [] := by
    split <;> rfl
  simp (disch := decide) [Stmt.parts, hargs]

theorem announces_inclusionCode (target : Expr) (form : Inclusion) :
    (cx.inclusionCode target form).Announces (m ++ blockCalls target.parts) fun code =>
      m ++ blockCalls (Stmt.partsAll code) := by
  cases form with
  | parent | part ignoreMissing =>
    refine announces_fresh.bind_pure fun v => ?_
    simp (disch := decide) [Stmt.parts]
  | module exportsName withContext =>
    refine (announces_importCode target withContext).bind fun result => ?_
    exact (announces_bind _ _).bind_pure fun _ => by simp
  | members names withContext =>
    refine (announces_importCode target withContext).bind fun result => ?_
    exact (announces_membersCode _ names).bind_pure fun code => by simp

/-- The defaults and the body of a macro announce what the macro announces. -/
theorem announces_macroCode {isCaller : Bool} {params : List (String × Option Node)}
    {defaults : Coder (List (String × Expr))} {body : Coder (List Stmt)}
    (hdefaults : ∀ m, defaults.Announces m fun code =>
      m ++ blockCalls (Expr.partsAll (code.map (·.2))))
    (hbody : ∀ m, body.Announces m fun code => m ++ blockCalls (Stmt.partsAll code)) :
    (cx.macroCode isCaller params defaults body).Announces m fun code =>
      m ++ blockCalls code.parts := by
  refine .inScope ((announces_bindAll _).bind fun _ => (hdefaults _).bind fun ds => ?_)
  refine (hbody _).bind_pure fun code => ?_
  rw [blockCalls_makeMacro, List.append_assoc]

/-- The arguments and the bodies of a custom tag announce what the call of its extension
    announces. -/
theorem announces_extension {α : Type} {e : Extension} {extensionMethod : String} {isAsync : Bool}
    {argCode kwargCode closureCode : Coder (List Expr)} {k : Expr → α} {f : α → List Expr}
    (hargs : ∀ m, argCode.Announces m fun code => m ++ blockCalls (Expr.partsAll code))
    (hkwargs : ∀ m, kwargCode.Announces m fun code => m ++ blockCalls (Expr.partsAll code))
    (hclosures : ∀ m, closureCode.Announces m fun code => m ++ blockCalls (Expr.partsAll code))
    (hf : ∀ code, f (k code) = m ++ blockCalls code.parts) :
    Announces (do
      let args ← argCode
      let kwargs ← kwargCode
      let closures ← closureCode
      return k (extensionCode e extensionMethod isAsync (args ++ kwargs ++ closures))) m f := by
  refine (hargs _).bind fun as => (hkwargs _).bind fun ks => (hclosures _).bind_pure fun cs => ?_
  simp [hf]

/-- Nodes without code, of which there are none, announce nothing. -/
theorem announces_otherwise {β : Type} {nodes : List Node} {k : List Stmt → β}
    {f : List Stmt → List Expr} {g : β → List Expr} (h : (cx.statements nodes).Announces m f)
    (hg : ∀ code, (nodes = [] → code = []) → g (k code) = f code) :
    Announces (cx.statements nodes >>= fun code => pure (k code)) m g := by
  refine h.bind_of (P := fun code => nodes = [] → code = []) ?_ fun code hcode =>
    announces_pure (hg code hcode)
  rintro s code t hcode rfl
  exact (pure_eq_ok_iff.mp hcode).1.symm

mutual

theorem announces_expression (m : List Expr) : ∀ node : Node,
    (cx.expression node).Announces m fun code => m ++ blockCalls code.parts
  | .literal pos value => by
    rw [expression]
    exact announces_pure (by simp)
  | .symbol pos symbol => by
    rw [expression]
    refine (announces_holder? symbol).bind fun holder => ?_
    cases holder <;> exact announces_pure (by simp)
  | .group _ inner => by
    rw [expression]
    exact (announces_expression _ inner).bind_pure fun code => by simp
  | .array _ items => by
    rw [expression]
    exact (announces_expressions _ items).bind_pure fun code => by simp
  | .dict _ entries => by
    rw [expression]
    exact (announces_entryCode _ entries).bind_pure fun code => by simp
  | .lookup _ target key => by
    rw [expression]
    exact (announces_expression _ target).bind fun t => (announces_expression _ key).bind_pure
      fun k => by simp (disch := decide)
  | .call pos callee args kwargs => by
    rw [expression]
    exact (announces_expression _ callee).bind fun c => (announces_expressions _ args).bind fun as =>
      (announces_keywordCode _ kwargs).bind_pure fun ks => by simp
  | .filter _ filter target args kwargs => by
    rw [expression]
    cases cx.filterIsAsync? filter with
    | none => exact announces_throw nofun
    | some isAsync =>
      exact (announces_expression _ target).bind fun t => (announces_expressions _ args).bind fun as =>
        (announces_keywordCode _ kwargs).bind_pure fun ks => by simp (disch := decide)
  | .test _ target test args negated => by
    rw [expression]
    refine (announces_expression _ target).bind fun t =>
      (announces_expressions _ args).bind_pure fun as => ?_
    split <;> simp (disch := decide)
  | .unary _ op operand => by
    rw [expression]
    exact (announces_expression _ operand).bind_pure fun code => by simp
  | .binary pos op left right => by
    rw [expression]
    exact (announces_expression _ left).bind fun l => (announces_expression _ right).bind_pure
      fun r => by simp
  | .compare _ first rest => by
    rw [expression]
    refine (announces_expression _ first).bind fun code => ?_
    simpa using announces_comparedCode m (first.operandCode false code) rest
  | .inlineIf _ cond body otherwise => by
    rw [expression]
    exact (announces_expression _ cond).bind fun c => (announces_expression _ body).bind fun b =>
      (announces_optionalCode _ otherwise).bind_pure fun o => by simp
  | .extensionCall pos site extensionMethod args kwargs bodies isAsync => by
    rw [expression]
    cases cx.env.extension? site with
    | none => exact announces_throw nofun
    | some e =>
      exact announces_extension (k := id) (fun m => announces_expressions m args)
        (fun m => announces_keywordCode m kwargs) (fun m => announces_closureCode m bodies)
        fun _ => rfl
  | .callerBody _ params body => by
    rw [expression_callerBody]
    exact announces_macroCode (fun m => announces_defaultCode m params) fun m =>
      announces_statements m body
  | .capture _ body => by
    rw [expression]
    exact (announces_statements _ body).inScope.bind_pure fun code => by simp
  | .data _ _ | .output _ _ | .ifElse _ _ _ _ | .forEach _ _ _ _ _ | .assign _ _ _
  | .block _ _ _ | .macroDef _ _ _ _ | .inclusion _ _ _ => announces_throw nofun

theorem announces_expressions (m : List Expr) : ∀ nodes : List Node,
    (cx.expressions nodes).Announces m fun code => m ++ blockCalls (Expr.partsAll code)
  | [] => announces_pure (by simp)
  | node :: nodes => by
    rw [expressions]
    exact (announces_expression _ node).bind fun code => (announces_expressions _ nodes).bind_pure
      fun rest => by simp

theorem announces_optionalCode (m : List Expr) : ∀ node : Option Node,
    (cx.optionalCode node).Announces m fun code => m ++ blockCalls code.parts
  | none => announces_pure (by simp)
  | some node => by
    rw [optionalCode]
    exact announces_expression m node

theorem announces_entryCode (m : List Expr) : ∀ entries : List (Node × Node),
    (cx.entryCode entries).Announces m fun code => m ++ blockCalls (Expr.partsEntries code)
  | [] => announces_pure (by simp)
  | (key, value) :: entries => by
    by_cases hliteral : ∃ pos literal, key = .literal pos literal
    · obtain ⟨pos, literal, rfl⟩ := hliteral
      rw [entryCode]
      exact (announces_expression _ value).bind fun code => (announces_entryCode _ entries).bind_pure
        fun rest => by simp
    · rw [entryCode]
      · exact (announces_expression _ key).bind fun k => (announces_expression _ value).bind fun v =>
          (announces_entryCode _ entries).bind_pure fun rest => by simp
      · exact fun pos literal heq => hliteral ⟨pos, literal, heq⟩

theorem announces_keywordCode (m : List Expr) : ∀ kwargs : List (String × Node),
    (cx.keywordCode kwargs).Announces m fun code => m ++ blockCalls (Expr.partsAll code)
  | [] => announces_pure (by simp)
  | (keyword, value) :: kwargs => by
    rw [keywordCode]
    exact (announces_expression _ value).bind fun code => (announces_keywordEntries _ kwargs).bind_pure
      fun entries => by simp (disch := decide)

theorem announces_keywordEntries (m : List Expr) : ∀ kwargs : List (String × Node),
    (cx.keywordEntries kwargs).Announces m fun code => m ++ blockCalls (Expr.partsEntries code)
  | [] => announces_pure (by simp)
  | (keyword, value) :: kwargs => by
    rw [keywordEntries]
    exact (announces_expression _ value).bind fun code => (announces_keywordEntries _ kwargs).bind_pure
      fun entries => by simp

theorem announces_comparedCode (m : List Expr) (start : Expr) : ∀ rest : List (CompareOp × Node),
    (cx.comparedCode start rest).Announces (m ++ blockCalls start.parts) fun code =>
      m ++ blockCalls code.parts
  | [] => announces_pure rfl
  | (op, operand) :: rest => by
    rw [comparedCode]
    refine (announces_expression _ operand).bind fun code => ?_
    have h := announces_comparedCode m
      (.operation op.code start (operand.operandCode false code)) rest
    simpa using h

theorem announces_closureCode (m : List Expr) : ∀ bodies : List (List Node),
    (cx.closureCode bodies).Announces m fun code => m ++ blockCalls (Expr.partsAll code)
  | [] => announces_pure (by simp)
  | body :: bodies => by
    rw [closureCode]
    exact (announces_statements _ body).inScope.bind fun b => (announces_closureCode _ bodies).bind_pure
      fun rest => by simp

theorem announces_defaultCode (m : List Expr) : ∀ params : List (String × Option Node),
    (cx.defaultCode params).Announces m fun code => m ++ blockCalls (Expr.partsAll (code.map (·.2)))
  | [] => announces_pure (by simp)
  | (_, none) :: params => by
    rw [defaultCode]
    exact announces_defaultCode m params
  | (param, some node) :: params => by
    rw [defaultCode]
    exact (announces_expression _ node).bind fun code => (announces_defaultCode _ params).bind_pure
      fun rest => by simp

theorem announces_outputCode (m : List Expr) : ∀ nodes : List Node,
    (cx.outputCode nodes).Announces m fun code => m ++ blockCalls (Stmt.partsAll code)
  | [] => announces_pure (by simp)
  | node :: nodes => by
    by_cases hdata : ∃ pos text, node = .data pos text
    · obtain ⟨pos, text, rfl⟩ := hdata
      rw [outputCode]
      exact (announces_outputCode _ nodes).bind_pure fun rest => by simp
    · rw [outputCode]
      · refine (announces_expression _ node).bind fun code => ?_
        refine (announces_outputCode _ nodes).bind_pure fun rest => ?_
        split <;> simp (disch := decide)
      · exact fun pos text heq => hdata ⟨pos, text, heq⟩

theorem announces_statement (m : List Expr) : ∀ node : Node,
    (cx.statement node).Announces m fun code => m ++ blockCalls (Stmt.partsAll code)
  | .data pos text => by
    rw [statement]
    exact announces_pure (by simp)
  | .output _ nodes => by
    rw [statement_output]
    exact announces_outputCode _ nodes
  | .ifElse _ cond body otherwise => by
    rw [statement]
    refine (announces_expression _ cond).bind fun c => (announces_statements _ body).bind fun b => ?_
    refine announces_otherwise (announces_statements _ otherwise) fun code hcode => ?_
    split
    · next hempty => simp [Stmt.parts, hcode (List.isEmpty_iff.mp hempty)]
    · simp [Stmt.parts]
  | .forEach _ targets iterated body otherwise => by
    rw [statement]
    refine (announces_expression _ iterated).bind fun e => announces_fresh.bind fun arr =>
      announces_fresh.bind fun len => announces_fresh.bind fun i => ?_
    refine Announces.bind (f := fun result : List Variable × List Stmt =>
      m ++ blockCalls e.parts ++ blockCalls (Stmt.partsAll result.2)) (.inScope ?_) fun result => ?_
    · exact (announces_freshAll _).bind fun holders => (announces_bindAll _).bind fun _ =>
        (announces_statements _ body).bind_pure fun _ => rfl
    · refine announces_otherwise (announces_statements _ otherwise) fun code hcode => ?_
      split
      · next hempty => simp [blockCalls_loopCode, hcode (List.isEmpty_iff.mp hempty)]
      · simp [blockCalls_loopCode]
  | .assign _ targets value => by
    rw [statement]
    refine (announces_expression _ value).bind fun e => (announces_variablesFor targets).bind
      fun holders => (announces_bindAll _).bind_pure fun _ => ?_
    rw [blockCalls_assignment]
  | .block pos blockName body => by
    rw [statement]
    refine (announces_addBlock ⟨blockName, body⟩).bind_pure fun _ => ?_
    have hcall : blockCalls (method (name "context") "getBlock" [.string blockName]).parts =
        [getBlock blockName] := rfl
    simp [Stmt.parts, hcall]
  | .macroDef _ macroName params body => by
    rw [statement]
    refine announces_fresh.bind fun v => ?_
    refine (announces_macroCode (fun m => announces_defaultCode m params)
      fun m => announces_statements m body).bind fun code => ?_
    exact (announces_bind _ _).bind_pure fun _ => by simp [Stmt.parts]
  | .inclusion _ form template => by
    rw [statement]
    exact (announces_expression _ template).bind fun target => announces_inclusionCode target form
  | .extensionCall pos site extensionMethod args kwargs bodies isAsync => by
    rw [statement]
    cases cx.env.extension? site with
    | none => exact announces_throw nofun
    | some e =>
      exact announces_extension (k := fun value => [outputValue value cx.env.options.autoescape])
        (fun m => announces_expressions m args) (fun m => announces_keywordCode m kwargs)
        (fun m => announces_closureCode m bodies) fun code => by simp
  | .literal _ _ | .symbol _ _ | .group _ _ | .array _ _ | .dict _ _ | .lookup _ _ _
  | .call _ _ _ _ | .filter _ _ _ _ _ | .test _ _ _ _ _ | .unary _ _ _ | .binary _ _ _ _
  | .compare _ _ _ | .inlineIf _ _ _ _ | .callerBody _ _ _ | .capture _ _ => announces_throw nofun

theorem announces_statements (m : List Expr) : ∀ nodes : List Node,
    (cx.statements nodes).Announces m fun code => m ++ blockCalls (Stmt.partsAll code)
  | [] => announces_pure (by simp)
  | node :: nodes => by
    rw [statements]
    exact (announces_statement _ node).bind fun code => (announces_statements _ nodes).bind_pure
      fun rest => by simp

end

end CodeContext

end TemplateManifest
