import TemplateManifest.Compile.Template
import TemplateManifest.Proofs.Steps

/-!
What code generation gives for a node, told by what it gives for the parts of the node. A step that
ends well is taken apart here, once for each kind of node and each step; what is proved by going
through a tree starts from these lemmas.
-/

namespace TemplateManifest

open Script Vocabulary

namespace Coder

variable {s t : CodeState}

theorem fresh_eq_ok {v : Variable} (h : fresh s = .ok v t) :
    v = .temp (s.temps + 1) ∧ t = { s with temps := s.temps + 1 } := by
  cases h
  exact ⟨rfl, rfl⟩

theorem freshAll_succ_eq_ok_iff {count : Nat} {vs : List Variable} :
    freshAll (count + 1) s = .ok vs t ↔ ∃ rest,
      freshAll count { s with temps := s.temps + 1 } = .ok rest t ∧
        vs = .temp (s.temps + 1) :: rest := by
  rw [freshAll, bind_of_ok (show fresh s = .ok (.temp (s.temps + 1)) { s with temps := s.temps + 1 }
    from rfl)]
  simp only [bind_eq_ok_iff, pure_eq_ok_iff]
  grind

/-- The first of some symbols has its variable, or gets a new temporary. -/
theorem variablesFor_cons_eq_ok {symbol : String} {symbols : List String} {vs : List Variable}
    (h : variablesFor (symbol :: symbols) s = .ok vs t) : ∃ v u rest,
      (s.holder? symbol = some v ∧ u = s ∨
        s.holder? symbol = none ∧ v = .temp (s.temps + 1) ∧ u = { s with temps := s.temps + 1 }) ∧
      variablesFor symbols u = .ok rest t ∧ vs = v :: rest := by
  obtain ⟨holder, _, hholder, h⟩ := bind_eq_ok_iff.mp h
  cases hholder
  cases hx : s.holder? symbol with
  | some v =>
    rw [hx] at h
    obtain ⟨_, _, hv, h⟩ := bind_eq_ok_iff.mp h
    obtain ⟨rfl, rfl⟩ := pure_eq_ok_iff.mp hv
    obtain ⟨rest, w, hrest, h⟩ := bind_eq_ok_iff.mp h
    obtain ⟨rfl, rfl⟩ := pure_eq_ok_iff.mp h
    exact ⟨v, s, rest, .inl ⟨rfl, rfl⟩, hrest, rfl⟩
  | none =>
    rw [hx] at h
    obtain ⟨v, u, hv, h⟩ := bind_eq_ok_iff.mp h
    obtain ⟨rest, w, hrest, h⟩ := bind_eq_ok_iff.mp h
    obtain ⟨rfl, rfl⟩ := pure_eq_ok_iff.mp h
    exact ⟨v, u, rest, .inr ⟨rfl, fresh_eq_ok hv⟩, hrest, rfl⟩

/-- A step in a scope of its own is the step after a scope has been opened; the scope is closed
    after it. -/
theorem inScope_eq_ok_iff {α : Type} {step : Coder α} {a : α} :
    inScope step s = .ok a t ↔ ∃ u, step { s with scopes := [] :: s.scopes } = .ok a u ∧
      t = { u with scopes := u.scopes.tail } := by
  simp only [inScope, bind_eq_ok_iff, modify_eq_ok_iff, pure_eq_ok_iff]
  grind

/-- The targets of a loop get new temporaries, which hold them while the body is written. -/
theorem inScope_targets_eq_ok_iff {targets : List String} {step : Coder (List Stmt)}
    {result : List Variable × List Stmt} :
    inScope (do
      let holders ← freshAll targets.length
      bindAll (targets.zip holders)
      return (holders, ← step)) s = .ok result t ↔ ∃ u v w,
        freshAll targets.length { s with scopes := [] :: s.scopes } = .ok result.1 u ∧
          bindAll (targets.zip result.1) u = .ok () v ∧ step v = .ok result.2 w ∧
          t = { w with scopes := w.scopes.tail } := by
  obtain ⟨holders, body⟩ := result
  simp only [inScope_eq_ok_iff, bind_eq_ok_iff, pure_eq_ok_iff]
  grind

/-- In isolation a step sees one empty scope. -/
theorem isolated_eq_ok_iff {α : Type} {step : Coder α} {a : α} :
    isolated step s = .ok a t ↔ ∃ u, step { s with scopes := [[]] } = .ok a u ∧
      t = { u with scopes := s.scopes } := by
  simp only [isolated, bind_eq_ok_iff, get_eq_ok_iff, modify_eq_ok_iff, pure_eq_ok_iff]
  grind

end Coder

/-- The code of a key of a dictionary, from its code as an expression. -/
def Node.keyCode (key : Node) (code : Expr) : Expr :=
  match key with
  | .literal _ _ => code
  | _ => .array [code]

theorem Node.keyCode_of_computed {key : Node} (code : Expr)
    (h : ∀ pos literal, key = .literal pos literal → False) : key.keyCode code = .array [code] := by
  unfold Node.keyCode
  split
  · exact (h _ _ rfl).elim
  · rfl

/-- The code that puts out the value of a node, which is checked first if it must be defined. -/
def CodeContext.putOut (cx : CodeContext) (pos : Position) (value : Expr) : Stmt :=
  outputValue (if cx.env.options.throwOnUndefined then
    runtime "ensureDefined" [value, number pos.line, number pos.col] else value)
    cx.env.options.autoescape

namespace CodeContext

open Coder

variable {cx : CodeContext} {pos : Position} {s t : CodeState}

section

variable {code : Expr}

theorem expression_literal_eq_ok_iff {value : Literal} :
    cx.expression (.literal pos value) s = .ok code t ↔
      code = .ofNode (.literal pos value) (literal value) ∧ t = s := by
  simp only [expression, pure_eq_ok_iff]
  grind

theorem expression_symbol_eq_ok_iff {symbol : String} :
    cx.expression (.symbol pos symbol) s = .ok code t ↔ t = s ∧
      code = .ofNode (.symbol pos symbol)
        ((s.holder? symbol).elim (contextLookup symbol) .variable) := by
  rw [expression, bind_of_ok (show holder? symbol s = .ok (s.holder? symbol) s from rfl)]
  cases s.holder? symbol <;> simp only [pure_eq_ok_iff, Option.elim] <;> grind

theorem expression_group_eq_ok_iff {inner : Node} :
    cx.expression (.group pos inner) s = .ok code t ↔ ∃ c,
      cx.expression inner s = .ok c t ∧ code = .paren c := by
  simp only [expression, bind_eq_ok_iff, pure_eq_ok_iff]
  grind

theorem expression_array_eq_ok_iff {items : List Node} :
    cx.expression (.array pos items) s = .ok code t ↔ ∃ cs,
      cx.expressions items s = .ok cs t ∧ code = .array cs := by
  simp only [expression, bind_eq_ok_iff, pure_eq_ok_iff]
  grind

theorem expression_dict_eq_ok_iff {entries : List (Node × Node)} :
    cx.expression (.dict pos entries) s = .ok code t ↔ ∃ cs,
      cx.entryCode entries s = .ok cs t ∧ code = .object cs := by
  simp only [expression, bind_eq_ok_iff, pure_eq_ok_iff]
  grind

theorem expression_lookup_eq_ok_iff {target key : Node} :
    cx.expression (.lookup pos target key) s = .ok code t ↔ ∃ c u k,
      cx.expression target s = .ok c u ∧ cx.expression key u = .ok k t ∧
        code = runtime "memberLookup" [.paren c, k] := by
  simp only [expression, bind_eq_ok_iff, pure_eq_ok_iff]
  grind

theorem expression_call_eq_ok_iff {callee : Node} {args : List Node}
    {kwargs : List (String × Node)} :
    cx.expression (.call pos callee args kwargs) s = .ok code t ↔ ∃ called u as v ks,
      cx.expression callee s = .ok called u ∧ cx.expressions args u = .ok as v ∧
        cx.keywordCode kwargs v = .ok ks t ∧
        code = callCode pos called callee.calleeText (as ++ ks) := by
  simp only [expression, bind_eq_ok_iff, pure_eq_ok_iff]
  grind

/-- A filter has code only if it is known. -/
theorem expression_filter_eq_ok_iff {filter : String} {target : Node} {args : List Node}
    {kwargs : List (String × Node)} :
    cx.expression (.filter pos filter target args kwargs) s = .ok code t ↔ ∃ isAsync c u as v ks,
      cx.filterIsAsync? filter = some isAsync ∧ cx.expression target s = .ok c u ∧
        cx.expressions args u = .ok as v ∧ cx.keywordCode kwargs v = .ok ks t ∧
        code = awaitedIf isAsync (method (method (name "env") "getFilter" [.string filter]) "call"
          (name "context" :: c :: (as ++ ks))) := by
  rw [expression]
  cases cx.filterIsAsync? filter with
  | none => simp [throw_ne_ok]
  | some isAsync =>
    simp only [bind_eq_ok_iff, pure_eq_ok_iff]
    grind

theorem expression_test_eq_ok_iff {target : Node} {test : String} {args : List Node}
    {negated : Bool} :
    cx.expression (.test pos target test args negated) s = .ok code t ↔ ∃ c u as,
      cx.expression target s = .ok c u ∧ cx.expressions args u = .ok as t ∧
        let result : Expr := .paren (.operation .strictEq (method (method (name "env") "getTest"
          [.string test]) "call" (name "context" :: c :: as)) (truth true))
        code = if negated then .signed .not result else result := by
  simp only [expression, bind_eq_ok_iff, pure_eq_ok_iff]
  grind

theorem expression_unary_eq_ok_iff {op : UnaryOp} {operand : Node} :
    cx.expression (.unary pos op operand) s = .ok code t ↔ ∃ c,
      cx.expression operand s = .ok c t ∧ code = .signed op.code (operand.operandCode false c) := by
  simp only [expression, bind_eq_ok_iff, pure_eq_ok_iff]
  grind

theorem expression_binary_eq_ok_iff {op : BinaryOp} {left right : Node} :
    cx.expression (.binary pos op left right) s = .ok code t ↔ ∃ l u r,
      cx.expression left s = .ok l u ∧ cx.expression right u = .ok r t ∧
        code = .ofNode (.binary pos op left right)
          (op.code (left.operandCode (op = .add) l) (right.operandCode (op = .add) r)) := by
  simp only [expression, bind_eq_ok_iff, pure_eq_ok_iff]
  grind

theorem expression_compare_eq_ok_iff {first : Node} {rest : List (CompareOp × Node)} :
    cx.expression (.compare pos first rest) s = .ok code t ↔ ∃ c u,
      cx.expression first s = .ok c u ∧
        cx.comparedCode (first.operandCode false c) rest u = .ok code t := by
  simp only [expression, bind_eq_ok_iff]

theorem expression_inlineIf_eq_ok_iff {cond body : Node} {otherwise : Option Node} :
    cx.expression (.inlineIf pos cond body otherwise) s = .ok code t ↔ ∃ c u b v o,
      cx.expression cond s = .ok c u ∧ cx.expression body u = .ok b v ∧
        cx.optionalCode otherwise v = .ok o t ∧ code = .paren (.conditional c b o) := by
  simp only [expression, bind_eq_ok_iff, pure_eq_ok_iff]
  grind

/-- A call of an extension has code only if the extension is known. -/
theorem expression_extensionCall_eq_ok_iff {site : Site} {extensionMethod : String}
    {args : List Node} {kwargs : List (String × Node)} {bodies : List (List Node)}
    {isAsync : Bool} :
    cx.expression (.extensionCall pos site extensionMethod args kwargs bodies isAsync) s =
        .ok code t ↔ ∃ e as u ks v cs,
      cx.env.extension? site = some e ∧ cx.expressions args s = .ok as u ∧
        cx.keywordCode kwargs u = .ok ks v ∧ cx.closureCode bodies v = .ok cs t ∧
        code = extensionCode e extensionMethod isAsync (as ++ ks ++ cs) := by
  rw [expression]
  cases cx.env.extension? site with
  | none => simp [throw_ne_ok]
  | some e =>
    simp only [bind_eq_ok_iff, pure_eq_ok_iff]
    grind

theorem expression_capture_eq_ok_iff {body : List Node} :
    cx.expression (.capture pos body) s = .ok code t ↔ ∃ b,
      inScope (cx.statements body) s = .ok b t ∧
        code = cx.awaitedIfAsync (.call (.paren (cx.closure b)) []) := by
  simp only [expression, bind_eq_ok_iff, pure_eq_ok_iff]
  grind

/-- A macro has a scope of its own, in which its positional parameters are visible at once. -/
theorem macroCode_eq_ok_iff {isCaller : Bool} {params : List (String × Option Node)}
    {defaults : Coder (List (String × Expr))} {body : Coder (List Stmt)} :
    cx.macroCode isCaller params defaults body s = .ok code t ↔
      let positional := (params.filter fun p => p.2.isNone).map (·.1)
      ∃ u ds v b w,
        bindAll (positional.map fun p => (p, .param p)) { s with scopes := [] :: s.scopes } =
            .ok () u ∧
          defaults u = .ok ds v ∧ body v = .ok b w ∧ t = { w with scopes := w.scopes.tail } ∧
          code = cx.makeMacro isCaller positional ds b := by
  simp only [macroCode, inScope_eq_ok_iff, bind_eq_ok_iff, pure_eq_ok_iff]
  grind

theorem comparedCode_cons_eq_ok_iff {start : Expr} {op : CompareOp} {operand : Node}
    {rest : List (CompareOp × Node)} :
    cx.comparedCode start ((op, operand) :: rest) s = .ok code t ↔ ∃ c u,
      cx.expression operand s = .ok c u ∧
        cx.comparedCode (.operation op.code start (operand.operandCode false c)) rest u =
          .ok code t := by
  simp only [comparedCode, bind_eq_ok_iff]

end

theorem expressions_cons_eq_ok_iff {node : Node} {nodes : List Node} {code : List Expr} :
    cx.expressions (node :: nodes) s = .ok code t ↔ ∃ c u cs,
      cx.expression node s = .ok c u ∧ cx.expressions nodes u = .ok cs t ∧ code = c :: cs := by
  simp only [expressions, bind_eq_ok_iff, pure_eq_ok_iff]
  grind

/-- A key that is a literal has the code that it has as an expression, and leaves the state as it
    is. -/
theorem entryCode_cons_eq_ok_iff {key value : Node} {entries : List (Node × Node)}
    {code : List (Expr × Expr)} :
    cx.entryCode ((key, value) :: entries) s = .ok code t ↔ ∃ k u c v cs,
      cx.expression key s = .ok k u ∧ cx.expression value u = .ok c v ∧
        cx.entryCode entries v = .ok cs t ∧ code = (key.keyCode k, c) :: cs := by
  by_cases hliteral : ∃ pos literal, key = .literal pos literal
  · obtain ⟨pos, literal, rfl⟩ := hliteral
    simp only [entryCode, Node.keyCode, expression_literal_eq_ok_iff, bind_eq_ok_iff,
      pure_eq_ok_iff]
    grind
  · have hcomputed : ∀ pos literal, key = .literal pos literal → False := fun pos literal heq =>
      hliteral ⟨pos, literal, heq⟩
    rw [entryCode]
    · simp only [Node.keyCode_of_computed _ hcomputed, bind_eq_ok_iff, pure_eq_ok_iff]
      grind
    · exact hcomputed

theorem keywordCode_cons_eq_ok_iff {keyword : String} {value : Node}
    {kwargs : List (String × Node)} {code : List Expr} :
    cx.keywordCode ((keyword, value) :: kwargs) s = .ok code t ↔ ∃ c u entries,
      cx.expression value s = .ok c u ∧ cx.keywordEntries kwargs u = .ok entries t ∧
        code = [runtime "makeKeywordArgs" [.object ((.string keyword, c) :: entries)]] := by
  simp only [keywordCode, bind_eq_ok_iff, pure_eq_ok_iff]
  grind

theorem keywordEntries_cons_eq_ok_iff {keyword : String} {value : Node}
    {kwargs : List (String × Node)} {code : List (Expr × Expr)} :
    cx.keywordEntries ((keyword, value) :: kwargs) s = .ok code t ↔ ∃ c u entries,
      cx.expression value s = .ok c u ∧ cx.keywordEntries kwargs u = .ok entries t ∧
        code = (.string keyword, c) :: entries := by
  simp only [keywordEntries, bind_eq_ok_iff, pure_eq_ok_iff]
  grind

theorem closureCode_cons_eq_ok_iff {body : List Node} {bodies : List (List Node)}
    {code : List Expr} :
    cx.closureCode (body :: bodies) s = .ok code t ↔ ∃ b u cs,
      inScope (cx.statements body) s = .ok b u ∧ cx.closureCode bodies u = .ok cs t ∧
        code = cx.closure b :: cs := by
  simp only [closureCode, bind_eq_ok_iff, pure_eq_ok_iff]
  grind

theorem defaultCode_cons_eq_ok_iff {param : String} {node : Node}
    {params : List (String × Option Node)} {code : List (String × Expr)} :
    cx.defaultCode ((param, some node) :: params) s = .ok code t ↔ ∃ c u cs,
      cx.expression node s = .ok c u ∧ cx.defaultCode params u = .ok cs t ∧
        code = (param, c) :: cs := by
  simp only [defaultCode, bind_eq_ok_iff, pure_eq_ok_iff]
  grind

section

variable {code : List Stmt}

/-- A part of an output is text, or its value is put out. -/
theorem outputCode_cons_eq_ok {node : Node} {nodes : List Node}
    (h : cx.outputCode (node :: nodes) s = .ok code t) :
    (∃ pos text cs, node = .data pos text ∧ cx.outputCode nodes s = .ok cs t ∧
      code = dataCode text ++ cs) ∨
    ∃ c u cs, cx.expression node s = .ok c u ∧ cx.outputCode nodes u = .ok cs t ∧
      code = cx.putOut node.pos c :: cs := by
  by_cases hdata : ∃ pos text, node = .data pos text
  · obtain ⟨pos, text, rfl⟩ := hdata
    rw [outputCode] at h
    obtain ⟨cs, u, hnodes, h⟩ := bind_eq_ok_iff.mp h
    obtain ⟨rfl, rfl⟩ := pure_eq_ok_iff.mp h
    exact .inl ⟨pos, text, cs, rfl, hnodes, rfl⟩
  · rw [outputCode] at h
    · obtain ⟨c, u, hnode, h⟩ := bind_eq_ok_iff.mp h
      obtain ⟨cs, v, hnodes, h⟩ := bind_eq_ok_iff.mp h
      obtain ⟨rfl, rfl⟩ := pure_eq_ok_iff.mp h
      exact .inr ⟨c, u, cs, hnode, hnodes, rfl⟩
    · exact fun pos text heq => hdata ⟨pos, text, heq⟩

theorem statement_ifElse_eq_ok_iff {cond : Node} {body otherwise : List Node} :
    cx.statement (.ifElse pos cond body otherwise) s = .ok code t ↔ ∃ c u b v o,
      cx.expression cond s = .ok c u ∧ cx.statements body u = .ok b v ∧
        cx.statements otherwise v = .ok o t ∧
        code = [if otherwise.isEmpty then .branch c b else .branchElse c b o] := by
  simp only [statement, bind_eq_ok_iff, pure_eq_ok_iff]
  grind

/-- A loop takes three temporaries for itself before its targets are bound. -/
theorem statement_forEach_eq_ok {targets : List String} {iterated : Node}
    {body otherwise : List Node}
    (h : cx.statement (.forEach pos targets iterated body otherwise) s = .ok code t) :
    ∃ c u result v o,
      cx.expression iterated s = .ok c u ∧
        inScope (do
          let holders ← freshAll targets.length
          bindAll (targets.zip holders)
          return (holders, ← cx.statements body)) { u with temps := u.temps + 3 } =
            .ok result v ∧
        cx.statements otherwise v = .ok o t ∧
        code = loopCode (.temp (u.temps + 1)) (.temp (u.temps + 2)) (.temp (u.temps + 3)) c
          (targets.zip result.1) result.2 (if otherwise.isEmpty then none else some o) := by
  rw [statement] at h
  obtain ⟨c, u, hiterated, h⟩ := bind_eq_ok_iff.mp h
  obtain ⟨arr, _, harr, h⟩ := bind_eq_ok_iff.mp h
  obtain ⟨len, _, hlen, h⟩ := bind_eq_ok_iff.mp h
  obtain ⟨i, _, hi, h⟩ := bind_eq_ok_iff.mp h
  obtain ⟨result, v, hscope, h⟩ := bind_eq_ok_iff.mp h
  obtain ⟨o, w, hotherwise, h⟩ := bind_eq_ok_iff.mp h
  obtain ⟨rfl, rfl⟩ := pure_eq_ok_iff.mp h
  obtain ⟨rfl, rfl⟩ := fresh_eq_ok harr
  obtain ⟨rfl, rfl⟩ := fresh_eq_ok hlen
  obtain ⟨rfl, rfl⟩ := fresh_eq_ok hi
  exact ⟨c, u, result, v, o, hiterated, hscope, hotherwise, rfl⟩

theorem statement_assign_eq_ok_iff {targets : List String} {value : Node} :
    cx.statement (.assign pos targets value) s = .ok code t ↔ ∃ c u holders v,
      cx.expression value s = .ok c u ∧ variablesFor targets u = .ok holders v ∧
        bindAll (targets.zip holders) v = .ok () t ∧
        code = holders.map (fun v => .declare v none) ++ .assignAll holders c ::
          (targets.zip holders).flatMap fun (target, v) => publish target v := by
  simp only [statement, bind_eq_ok_iff, pure_eq_ok_iff]
  grind

theorem statement_block_eq_ok_iff {blockName : String} {body : List Node} :
    cx.statement (.block pos blockName body) s = .ok code t ↔
      t = { s with pending := s.pending ++ [⟨blockName, body⟩] } ∧
        code = [.branch (.signed .not (name "parentTemplate")) [.append (.named "output")
          (cx.awaitedIfAsync (.call (method (name "context") "getBlock" [.string blockName])
            renderArguments))]] := by
  simp only [statement, addBlock, bind_eq_ok_iff, modify_eq_ok_iff, pure_eq_ok_iff]
  grind

theorem statement_macroDef_eq_ok_iff {macroName : String} {params : List (String × Option Node)}
    {body : List Node} :
    cx.statement (.macroDef pos macroName params body) s = .ok code t ↔ ∃ c u,
      cx.macroCode false params (cx.defaultCode params) (cx.statements body)
          { s with temps := s.temps + 1 } = .ok c u ∧
        Coder.bind macroName (.temp (s.temps + 1)) u = .ok () t ∧
        code = .declare (.temp (s.temps + 1)) (some c) :: publish macroName (.temp (s.temps + 1)) := by
  rw [statement, bind_of_ok (show fresh s = .ok (.temp (s.temps + 1))
    { s with temps := s.temps + 1 } from rfl)]
  simp only [bind_eq_ok_iff, pure_eq_ok_iff]
  grind

theorem statement_inclusion_eq_ok_iff {form : Inclusion} {template : Node} :
    cx.statement (.inclusion pos form template) s = .ok code t ↔ ∃ c u,
      cx.expression template s = .ok c u ∧ cx.inclusionCode c form u = .ok code t := by
  simp only [statement, bind_eq_ok_iff]

theorem statement_extensionCall_eq_ok_iff {site : Site} {extensionMethod : String}
    {args : List Node} {kwargs : List (String × Node)} {bodies : List (List Node)}
    {isAsync : Bool} :
    cx.statement (.extensionCall pos site extensionMethod args kwargs bodies isAsync) s =
        .ok code t ↔ ∃ e as u ks v cs,
      cx.env.extension? site = some e ∧ cx.expressions args s = .ok as u ∧
        cx.keywordCode kwargs u = .ok ks v ∧ cx.closureCode bodies v = .ok cs t ∧
        code = [outputValue (extensionCode e extensionMethod isAsync (as ++ ks ++ cs))
          cx.env.options.autoescape] := by
  rw [statement]
  cases cx.env.extension? site with
  | none => simp [throw_ne_ok]
  | some e =>
    simp only [bind_eq_ok_iff, pure_eq_ok_iff]
    grind

theorem membersCode_cons_eq_ok_iff {module : Variable} {exported : String} {renamed : Option String}
    {names : List (String × Option String)} :
    membersCode module ((exported, renamed) :: names) s = .ok code t ↔
      let v : Variable := .temp (s.temps + 1)
      let target := renamed.getD exported
      ∃ u cs, Coder.bind target v { s with temps := s.temps + 1 } = .ok () u ∧
        membersCode module names u = .ok cs t ∧
        code = memberCode module exported v ++ publish target v ++ cs := by
  rw [membersCode, bind_of_ok (show fresh s = .ok (.temp (s.temps + 1))
    { s with temps := s.temps + 1 } from rfl)]
  simp only [bind_eq_ok_iff, pure_eq_ok_iff]
  grind

theorem inclusionCode_module_eq_ok_iff {target : Expr} {exportsName : String}
    {withContext : Bool} :
    cx.inclusionCode target (.module exportsName withContext) s = .ok code t ↔ ∃ imported u,
      cx.importCode target withContext s = .ok imported u ∧
        Coder.bind exportsName imported.1 u = .ok () t ∧
        code = imported.2 ++ publish exportsName imported.1 := by
  simp only [inclusionCode, bind_eq_ok_iff, pure_eq_ok_iff]
  grind

theorem inclusionCode_members_eq_ok_iff {target : Expr} {names : List (String × Option String)}
    {withContext : Bool} :
    cx.inclusionCode target (.members names withContext) s = .ok code t ↔ ∃ imported u cs,
      cx.importCode target withContext s = .ok imported u ∧
        membersCode imported.1 names u = .ok cs t ∧ code = imported.2 ++ cs := by
  simp only [inclusionCode, bind_eq_ok_iff, pure_eq_ok_iff]
  grind

theorem statements_cons_eq_ok_iff {node : Node} {nodes : List Node} :
    cx.statements (node :: nodes) s = .ok code t ↔ ∃ c u cs,
      cx.statement node s = .ok c u ∧ cx.statements nodes u = .ok cs t ∧ code = c ++ cs := by
  simp only [statements, bind_eq_ok_iff, pure_eq_ok_iff]
  grind

theorem rootCode_eq_ok_iff {body : List Node} :
    cx.rootCode body s = .ok code t ↔ ∃ c, cx.statements body s = .ok c t ∧
      code = prologue ++ .declare (.named "parentTemplate") (some (.constant "null")) ::
        (c ++ [.branch (name "parentTemplate")
          [.return (cx.awaitedIfAsync (method (name "parentTemplate") "rootRenderFunc"
            renderArguments))], .return (name "output")]) := by
  simp only [rootCode, bind_eq_ok_iff, pure_eq_ok_iff]
  grind

end

/-- The function of a block is written apart from the open scopes. -/
theorem blockCode_eq_ok_iff {b : PendingBlock} {function : BlockFunction} :
    cx.blockCode b s = .ok function t ↔ ∃ c u,
      cx.statements b.body { s with scopes := [[]] } = .ok c u ∧
        t = { u with scopes := s.scopes } ∧
        function = ⟨b.name, prologue ++ pushFrame [truth true] :: (c ++ [.return (name "output")])⟩ := by
  simp only [blockCode, isolated_eq_ok_iff, bind_eq_ok_iff, pure_eq_ok_iff]
  grind

theorem blockCode_name {b : PendingBlock} {function : BlockFunction}
    (h : cx.blockCode b s = .ok function t) : function.name = b.name := by
  obtain ⟨c, u, -, -, rfl⟩ := blockCode_eq_ok_iff.mp h
  rfl

theorem nextBlock?_eq_ok {s t : CodeState} {next : Option PendingBlock}
    (h : nextBlock? s = .ok next t) :
    (next = none ∧ s.pending = []) ∨ ∃ b, next = some b ∧ s.pending = b :: t.pending := by
  unfold nextBlock? at h
  cases hpending : s.pending with
  | nil =>
    rw [hpending] at h
    cases h
    exact .inl ⟨rfl, rfl⟩
  | cons b pending =>
    rw [hpending] at h
    cases h
    exact .inr ⟨b, rfl, rfl⟩

/-- Writing the functions of the pending blocks ends when no block is pending. Otherwise it takes
    the first block, whose name is new, and goes on with those that are left. -/
theorem blockCodes_eq_ok {bound : Nat} {written : List String} {s t : CodeState}
    {functions : List BlockFunction} (h : cx.blockCodes bound written s = .ok functions t) :
    (s.pending = [] ∧ functions = []) ∨
      ∃ bound' b u v function rest, bound = bound' + 1 ∧ s.pending = b :: u.pending ∧
        b.name ∉ written ∧ cx.blockCode b u = .ok function v ∧
        cx.blockCodes bound' (b.name :: written) v = .ok rest t ∧ functions = function :: rest := by
  rw [blockCodes] at h
  obtain ⟨next, u, hnext, h⟩ := bind_eq_ok_iff.mp h
  rcases nextBlock?_eq_ok hnext with ⟨rfl, hpending⟩ | ⟨b, rfl, hpending⟩
  · obtain ⟨rfl, rfl⟩ := pure_eq_ok_iff.mp h
    exact .inl ⟨hpending, rfl⟩
  · simp only at h
    split at h
    · obtain ⟨_, _, hthrow, _⟩ := bind_eq_ok_iff.mp h
      exact absurd hthrow throw_ne_ok
    · next hnew =>
      cases bound with
      | zero => exact absurd h throw_ne_ok
      | succ bound =>
        obtain ⟨function, v, hfunction, h⟩ := bind_eq_ok_iff.mp h
        obtain ⟨rest, w, hrest, h⟩ := bind_eq_ok_iff.mp h
        obtain ⟨rfl, rfl⟩ := pure_eq_ok_iff.mp h
        exact .inr ⟨bound, b, u, v, function, rest, rfl, hpending, by simpa using hnew, hfunction,
          hrest, rfl⟩

end CodeContext

theorem Template.compile_eq_ok_iff {template : Template} {env : Environment} {moduleVar : String}
    {module : Module} :
    let cx : CodeContext := ⟨template.name, env, template.requiresAsync env⟩
    template.compile env moduleVar = .ok module ↔ isModuleVariable moduleVar = true ∧
      ∃ root s blocks t, cx.rootCode template.body {} = .ok root s ∧
        cx.blockCodes (Node.sizeAll template.body) [] s = .ok blocks t ∧
        module = ⟨moduleVar, template.requiresAsync env, root, blocks⟩ := by
  intro cx
  constructor
  · intro h
    unfold Template.compile at h
    split at h
    · cases h
    · next hvariable =>
      simp only at h
      split at h
      · next m t hcoder =>
        cases h
        obtain ⟨root, s, hroot, hcoder⟩ := bind_eq_ok_iff.mp hcoder
        obtain ⟨blocks, t, hblocks, hcoder⟩ := bind_eq_ok_iff.mp hcoder
        obtain ⟨rfl, rfl⟩ := pure_eq_ok_iff.mp hcoder
        exact ⟨by simpa using hvariable, root, s, blocks, t, hroot, hblocks, rfl⟩
      · cases h
  · rintro ⟨hvariable, root, s, blocks, t, hroot, hblocks, rfl⟩
    simp only [Template.compile, hvariable, Bool.not_true, Bool.false_eq_true, if_false]
    rw [bind_of_ok hroot, bind_of_ok hblocks]
    rfl

/-- What compiling a template into a module does. -/
theorem Template.compile_eq_ok {template : Template} {env : Environment} {moduleVar : String}
    {module : Module} (h : template.compile env moduleVar = .ok module) :
    let cx : CodeContext := ⟨template.name, env, template.requiresAsync env⟩
    ∃ s t, cx.rootCode template.body {} = .ok module.root s ∧
      cx.blockCodes (Node.sizeAll template.body) [] s = .ok module.blocks t := by
  obtain ⟨-, root, s, blocks, t, hroot, hblocks, rfl⟩ := Template.compile_eq_ok_iff.mp h
  exact ⟨s, t, hroot, hblocks⟩

/-- Why a template is not compiled: because of the variable, in the root function, or in the function
    of a block. -/
theorem Template.compile_error_cases {template : Template} {env : Environment} {moduleVar : String}
    {fault : CompileFault} (h : template.compile env moduleVar = .error fault) :
    let cx : CodeContext := ⟨template.name, env, template.requiresAsync env⟩
    fault = .invalidModuleVariable moduleVar ∧ isModuleVariable moduleVar = false ∨
      (∃ t, cx.rootCode template.body {} = .error fault t) ∨
      ∃ root s t, cx.rootCode template.body {} = .ok root s ∧
        cx.blockCodes (Node.sizeAll template.body) [] s = .error fault t := by
  unfold Template.compile at h
  split at h
  · next hvariable =>
    cases h
    exact .inl ⟨rfl, by simpa using hvariable⟩
  · simp only at h
    split at h
    · cases h
    · next fault' t hcoder =>
      cases h
      obtain hroot | ⟨root, s, hroot, hcoder⟩ := bind_eq_error_iff.mp hcoder
      · exact .inr (.inl ⟨t, hroot⟩)
      · obtain hblocks | ⟨_, _, _, hpure⟩ := bind_eq_error_iff.mp hcoder
        · exact .inr (.inr ⟨root, s, t, hroot, hblocks⟩)
        · exact absurd hpure pure_ne_error


end TemplateManifest
