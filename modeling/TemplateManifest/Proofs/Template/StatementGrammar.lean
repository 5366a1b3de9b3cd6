import TemplateManifest.Proofs.Template.Grammar
import TemplateManifest.Proofs.Template.Within
import TemplateManifest.Template.Parse

/-!
What the grammar of statements gives when custom tags are read in the standard form: only statements
stand where a statement is read, and what they hold is an expression wherever a value is needed.
-/

namespace TemplateManifest

/-- The extension's tags are read in the standard form. -/
def Extension.IsStandard (e : Extension) : Prop :=
  ∃ hasBody identity isAsync, e.form = .standard hasBody identity isAsync

/-- The defaults of parameters are expressions. -/
def Node.AreDefaults (params : List (String × Option Node)) : Prop :=
  ∀ node ∈ params.filterMap (·.2), node.IsExpression

/-- The node is a statement of the grammar. Its custom tags call extensions of the environment. -/
inductive Node.IsStatement (env : Environment) : Node → Prop where
  | data {pos : Position} {text : String} : IsStatement env (.data pos text)
  | output {pos : Position} {value : Node} (h : value.IsExpression) :
      IsStatement env (.output pos [value])
  | ifElse {pos : Position} {cond : Node} {body otherwise : List Node} (hcond : cond.IsExpression)
      (hbody : ∀ node ∈ body, IsStatement env node)
      (hotherwise : ∀ node ∈ otherwise, IsStatement env node) :
      IsStatement env (.ifElse pos cond body otherwise)
  | forEach {pos : Position} {targets : List String} {iterated : Node} {body otherwise : List Node}
      (hiterated : iterated.IsExpression) (hbody : ∀ node ∈ body, IsStatement env node)
      (hotherwise : ∀ node ∈ otherwise, IsStatement env node) :
      IsStatement env (.forEach pos targets iterated body otherwise)
  | assign {pos : Position} {targets : List String} {value : Node} (h : value.IsExpression) :
      IsStatement env (.assign pos targets value)
  | assignBody {pos pos' : Position} {targets : List String} {body : List Node}
      (h : ∀ node ∈ body, IsStatement env node) :
      IsStatement env (.assign pos targets (.capture pos' body))
  | block {pos : Position} {name : String} {body : List Node}
      (h : ∀ node ∈ body, IsStatement env node) : IsStatement env (.block pos name body)
  | macroDef {pos : Position} {name : String} {params : List (String × Option Node)}
      {body : List Node} (hparams : AreDefaults params)
      (hbody : ∀ node ∈ body, IsStatement env node) :
      IsStatement env (.macroDef pos name params body)
  | callBlock {pos pos' : Position} {callee : Node} {args : List Node}
      {kwargs : List (String × Node)} {params : List (String × Option Node)} {body : List Node}
      (hcallee : callee.IsExpression) (hargs : ∀ node ∈ args, node.IsExpression)
      (hkwargs : ∀ entry ∈ kwargs, entry.2.IsExpression) (hparams : AreDefaults params)
      (hbody : ∀ node ∈ body, IsStatement env node) :
      IsStatement env (.output pos
        [.call pos' callee args (kwargs ++ [("caller", .callerBody pos params body)])])
  | filterBlock {pos pos' : Position} {name : String} {body args : List Node}
      {kwargs : List (String × Node)} (hbody : ∀ node ∈ body, IsStatement env node)
      (hargs : ∀ node ∈ args, node.IsExpression)
      (hkwargs : ∀ entry ∈ kwargs, entry.2.IsExpression) :
      IsStatement env (.output pos [.filter pos' name (.capture pos body) args kwargs])
  | inclusion {pos : Position} {form : Inclusion} {template : Node} (h : template.IsExpression) :
      IsStatement env (.inclusion pos form template)
  | extensionCall {pos : Position} {site : Site} {method : String} {args : List Node}
      {kwargs : List (String × Node)} {bodies : List (List Node)} {isAsync : Bool}
      (hsite : (env.extension? site).isSome = true) (hargs : ∀ node ∈ args, node.IsExpression)
      (hkwargs : ∀ entry ∈ kwargs, entry.2.IsExpression)
      (hbodies : ∀ body ∈ bodies, ∀ node ∈ body, IsStatement env node) :
      IsStatement env (.extensionCall pos site method args kwargs bodies isAsync)

/-- All nodes are statements of the grammar. -/
def Node.AreStatements (env : Environment) (nodes : List Node) : Prop :=
  ∀ node ∈ nodes, node.IsStatement env

namespace Parser

theorem yields_closeTag (name : String) : (closeTag name).Yields fun _ => True :=
  (yields_skipIf _).bind fun _ _ => (yields_expect _ _).bind fun _ _ => yields_pure trivial

theorem yields_expectKeyword (keyword : String) : (expectKeyword keyword).Yields fun _ => True := by
  refine (yields_skipIf _).bind fun skipped _ => ?_
  split
  · exact yields_pure trivial
  · exact yields_peek.bind fun _ _ => yields_fail _

theorem yields_names (what : String) : (names what).Yields fun _ => True := by
  refine (yields_expectSymbol what).bind fun first _ =>
    yields_iterate (I := fun _ => True) (fun names _ => ?_) trivial
  refine (yields_skipIf _).bind fun skipped _ => ?_
  split
  · exact (yields_expectSymbol what).bind fun _ _ => yields_pure trivial
  · exact yields_pure trivial

end Parser

namespace Statement

open TemplateManifest.Parser Node

section Builtin

/-- The parsers of the built-in tags. -/
def builtins (bodies : Bodies) : List (Parser Node) :=
  [conditional bodies, loop bodies, assignment bodies, block bodies, macroDefinition bodies,
    callBlock bodies, filterBlock bodies, parentTemplate, includedTemplate, importedTemplate,
    importedNames]

theorem eq_or_of_ite_eq_some {α : Type} {condition : Prop} [Decidable condition] {a b : α}
    {rest : Option α} (h : (if condition then some a else rest) = some b) : b = a ∨ rest = some b := by
  split at h
  · exact .inl (Option.some.inj h).symm
  · exact .inr h

theorem mem_of_builtin? {bodies : Bodies} {name : String} {p : Parser Node}
    (h : builtin? bodies name = some p) : p ∈ builtins bodies := by
  unfold builtin? at h
  unfold builtins
  iterate 11 refine List.mem_cons.mpr ((eq_or_of_ite_eq_some h).imp_right fun h => ?_)
  cases h

end Builtin

theorem areDefaults_nil : AreDefaults [] :=
  List.forall_mem_nil _

theorem yields_parameter {params : List (String × Option Node)} (h : AreDefaults params) :
    (parameter params).Yields AreDefaults := by
  refine (yields_expectSymbol _).bind fun name _ => (yields_skipIf _).bind fun hasDefault _ => ?_
  split
  · refine yields_expression.bind fun default hdefault => yields_pure ?_
    rw [AreDefaults, List.filterMap_append]
    exact List.forall_mem_append.mpr ⟨h, List.forall_mem_singleton.mpr hdefault⟩
  · refine yields_pure ?_
    rw [AreDefaults, List.filterMap_append]
    exact List.forall_mem_append.mpr ⟨h, List.forall_mem_nil _⟩

theorem yields_parameters : parameters.Yields AreDefaults :=
  (yields_expect _ _).bind fun _ _ =>
    yields_commaSeparated _ _ _ (fun _ => yields_parameter) areDefaults_nil

theorem yieldsExpressions_nested : Expression.nested.YieldsExpressions :=
  fun goal s => Expression.yieldsExpressions_nestedTo (s.pending.length + 1) goal s

theorem yields_signature (tolerant : Bool) :
    (signature tolerant).Yields Expression.Arguments.AreExpressions := by
  refine yields_peek.bind fun token _ => ?_
  split
  · exact Expression.yields_callArguments yieldsExpressions_nested
  · have hbare : (iterate (fun args => do
        if (← peek).kind = .blockEnd then return .done args
        unless Expression.Arguments.isEmpty args do
          let _ ← expect .comma "',' between arguments"
        return .more (← Expression.argument Expression.nested args)) {} :
          Parser Expression.Arguments).Yields Expression.Arguments.AreExpressions := by
      refine yields_iterate (fun args hargs => yields_peek.bind fun token _ => ?_)
        Expression.areExpressions_empty
      have hmore : (do return Step.more (← Expression.argument Expression.nested args) :
          Parser (Step Expression.Arguments Expression.Arguments)).Yields
          (Step.Keeps Expression.Arguments.AreExpressions Expression.Arguments.AreExpressions) :=
        (Expression.yields_argument yieldsExpressions_nested hargs).bind fun _ h => yields_pure h
      split
      · exact yields_pure hargs
      · split
        · exact hmore
        · exact (yields_expect _ _).bind fun _ _ => hmore
    split
    · exact hbare
    · exact Yields.bind (P := fun _ => True) (yields_fail _) fun _ _ => hbare

/-- The parsers of bodies give statements. -/
def Bodies.YieldStatements (env : Environment) (bodies : Bodies) : Prop :=
  ∀ stop, (bodies stop).Yields (AreStatements env)

section

variable {env : Environment} {bodies : Bodies} (hbodies : bodies.YieldStatements env)
include hbodies

theorem yields_loop : (loop bodies).Yields (IsStatement env) := by
  refine yields_next.bind fun token _ => (yields_names _).bind fun targets _ => ?_
  refine (yields_expectKeyword _).bind fun _ _ => yields_expression.bind fun iterated hiterated => ?_
  refine (yields_closeTag _).bind fun _ _ => (hbodies _).bind fun body hbody => ?_
  refine (yields_skipIf _).bind fun hasElse _ => ?_
  split
  · refine (yields_closeTag _).bind fun _ _ => (hbodies _).bind fun otherwise hotherwise => ?_
    exact (yields_closeTag _).bind fun _ _ => yields_pure (.forEach hiterated hbody hotherwise)
  · exact (yields_closeTag _).bind fun _ _ =>
      yields_pure (.forEach hiterated hbody (List.forall_mem_nil _))

theorem yields_assignment : (assignment bodies).Yields (IsStatement env) := by
  refine yields_next.bind fun token _ => (yields_names _).bind fun targets _ => ?_
  refine (yields_skipIf _).bind fun hasValue _ => ?_
  split
  · exact yields_expression.bind fun value hvalue => (yields_closeTag _).bind fun _ _ =>
      yields_pure (.assign hvalue)
  · exact (yields_closeTag _).bind fun _ _ => (hbodies _).bind fun body hbody =>
      (yields_closeTag _).bind fun _ _ => yields_pure (.assignBody hbody)

theorem yields_block : (block bodies).Yields (IsStatement env) := by
  refine yields_next.bind fun token _ => (yields_expectSymbol _).bind fun name _ => ?_
  refine (yields_closeTag _).bind fun _ _ => (hbodies _).bind fun body hbody => ?_
  refine (yields_expectKeyword _).bind fun _ _ => (yields_skipIf _).bind fun _ _ => ?_
  exact (yields_expect _ _).bind fun _ _ => yields_pure (.block hbody)

theorem yields_macroDefinition : (macroDefinition bodies).Yields (IsStatement env) := by
  refine yields_next.bind fun token _ => (yields_expectSymbol _).bind fun name _ => ?_
  refine yields_parameters.bind fun params hparams => (yields_closeTag _).bind fun _ _ => ?_
  exact (hbodies _).bind fun body hbody => (yields_closeTag _).bind fun _ _ =>
    yields_pure (.macroDef hparams hbody)

/-- The conditions of branches are expressions, and their bodies are statements. -/
def AreBranches (env : Environment) (branches : List Branch) : Prop :=
  ∀ b ∈ branches, b.cond.IsExpression ∧ AreStatements env b.body

omit hbodies in
theorem areStatements_chain {branches : List Branch} (h : AreBranches env branches)
    {otherwise : List Node} (hotherwise : AreStatements env otherwise) :
    AreStatements env (chain branches otherwise) := by
  induction branches with
  | nil => exact hotherwise
  | cons b branches ih =>
    obtain ⟨⟨hcond, hbody⟩, h⟩ := List.forall_mem_cons.mp h
    exact List.forall_mem_singleton.mpr (.ifElse hcond hbody (ih h))

omit hbodies in
theorem isStatement_conditionalNode {branches : List Branch} (h : AreBranches env branches)
    (hne : branches ≠ []) {otherwise : List Node} (hotherwise : AreStatements env otherwise) :
    (conditionalNode branches otherwise).IsStatement env := by
  have hchain := areStatements_chain h hotherwise
  obtain ⟨b, branches, rfl⟩ := List.exists_cons_of_ne_nil hne
  exact hchain _ List.mem_cons_self

theorem yields_conditional : (conditional bodies).Yields (IsStatement env) := by
  refine yields_next.bind fun first _ => yields_iterate
    (I := fun state : List Branch × Token => AreBranches env state.1) (fun state hstate => ?_)
    (List.forall_mem_nil _)
  obtain ⟨branches, keyword⟩ := state
  refine yields_expression.bind fun cond hcond => (yields_closeTag _).bind fun _ _ => ?_
  refine (hbodies _).bind fun body hbody => yields_next.bind fun closing _ => ?_
  have hbranches : AreBranches env (branches ++ [⟨keyword.pos, cond, body⟩]) :=
    List.forall_mem_append.mpr ⟨hstate, List.forall_mem_singleton.mpr ⟨hcond, hbody⟩⟩
  split
  · exact yields_pure hbranches
  · split
    · exact (yields_closeTag _).bind fun _ _ => (hbodies _).bind fun otherwise hotherwise =>
        (yields_closeTag _).bind fun _ _ =>
          yields_pure (isStatement_conditionalNode hbranches (by simp) hotherwise)
    · exact (yields_closeTag _).bind fun _ _ =>
        yields_pure (isStatement_conditionalNode hbranches (by simp) (List.forall_mem_nil _))

theorem yields_callBlock : (callBlock bodies).Yields (IsStatement env) := by
  refine yields_next.bind fun token _ => yields_peek.bind fun opening _ => ?_
  split
  case' isTrue => refine yields_parameters.bind fun params hparams => ?_
  case' isFalse => refine (yields_pure areDefaults_nil).bind fun params hparams => ?_
  all_goals
    refine yields_expression.bind fun called hcalled => (yields_closeTag _).bind fun _ _ => ?_
    refine (hbodies _).bind fun body hbody => (yields_closeTag _).bind fun _ _ => ?_
    split
    · cases hcalled with
      | call hcallee hargs hkwargs =>
        exact yields_pure (.callBlock hcallee hargs hkwargs hparams hbody)
    · exact yields_failAt _ _

theorem yields_filterBlock : (filterBlock bodies).Yields (IsStatement env) := by
  refine yields_next.bind fun token _ => yields_peek.bind fun nameToken _ => ?_
  refine Expression.yields_filterName.bind fun name _ => ?_
  refine (Expression.yields_optionalArguments yieldsExpressions_nested).bind fun args hargs => ?_
  exact (yields_closeTag _).bind fun _ _ => (hbodies _).bind fun body hbody =>
    (yields_closeTag _).bind fun _ _ => yields_pure (.filterBlock hbody hargs.1 hargs.2)

omit hbodies in
theorem yields_parentTemplate : parentTemplate.Yields (IsStatement env) :=
  yields_next.bind fun _ _ => yields_expression.bind fun _ htemplate =>
    (yields_closeTag _).bind fun _ _ => yields_pure (.inclusion htemplate)

omit hbodies in
theorem yields_includedTemplate : includedTemplate.Yields (IsStatement env) := by
  refine yields_next.bind fun token _ => yields_expression.bind fun template htemplate => ?_
  refine (yields_skipIf _).bind fun ignoreMissing _ => ?_
  split
  · exact (yields_expectKeyword _).bind fun _ _ => (yields_closeTag _).bind fun _ _ =>
      yields_pure (.inclusion htemplate)
  · exact (yields_closeTag _).bind fun _ _ => yields_pure (.inclusion htemplate)

omit hbodies in
theorem yields_withContext : withContext.Yields fun _ => True := by
  refine (yields_skipIf _).bind fun isWith _ => ?_
  split
  · exact (yields_expectKeyword _).bind fun _ _ => yields_pure trivial
  · refine (yields_skipIf _).bind fun isWithout _ => ?_
    split
    · exact (yields_expectKeyword _).bind fun _ _ => yields_pure trivial
    · exact yields_pure trivial

omit hbodies in
theorem yields_importedTemplate : importedTemplate.Yields (IsStatement env) := by
  refine yields_next.bind fun token _ => yields_expression.bind fun template htemplate => ?_
  refine (yields_expectKeyword _).bind fun _ _ => (yields_expectSymbol _).bind fun target _ => ?_
  exact yields_withContext.bind fun context _ => (yields_closeTag _).bind fun _ _ =>
    yields_pure (.inclusion htemplate)

omit hbodies in
theorem yields_importedNames : importedNames.Yields (IsStatement env) := by
  refine yields_next.bind fun token _ => yields_expression.bind fun template htemplate => ?_
  refine (yields_expectKeyword _).bind fun _ _ => ?_
  refine Yields.bind (P := fun _ => True) (yields_iterate (I := fun _ => True) (fun names _ => ?_) trivial)
    fun form _ => (yields_closeTag _).bind fun _ _ => yields_pure (.inclusion htemplate)
  have hname : (do
      let name ← expectSymbol "import name"
      if ← skipSymbol "as" then
        return .more (names ++ [(name, some (← expectSymbol "import alias"))])
      else
        return .more (names ++ [(name, none)]) :
        Parser (Step (List (String × Option String)) Inclusion)).Yields
        (Step.Keeps (fun _ => True) fun _ => True) := by
    refine (yields_expectSymbol _).bind fun name _ => (yields_skipIf _).bind fun hasAlias _ => ?_
    split
    · exact (yields_expectSymbol _).bind fun _ _ => yields_pure trivial
    · exact yields_pure trivial
  refine yields_withContext.bind fun context _ => ?_
  split
  · exact yields_pure trivial
  · refine yields_peek.bind fun token _ => ?_
    split
    · split
      · exact Yields.bind (P := fun _ => True) (yields_fail _) fun _ _ => yields_pure trivial
      · exact yields_pure trivial
    · split
      · exact hname
      · exact (yields_expect _ _).bind fun _ _ => hname

theorem yields_standardTag {e : Extension} (he : e ∈ env.extensions) (hasBody : Bool)
    (identity : Identity) (isAsync : Bool) :
    (standardTag bodies e hasBody identity isAsync).Yields (IsStatement env) := by
  have hsite : (env.extension? (ownSite e identity)).isSome = true :=
    List.find?_isSome.mpr ⟨e, he, by cases identity <;> simp [ownSite, Extension.answers]⟩
  refine yields_next.bind fun tag _ => (yields_signature true).bind fun args hargs => ?_
  refine (yields_closeTag _).bind fun _ _ => ?_
  split
  · refine (hbodies _).bind fun body hbody => (yields_closeTag _).bind fun _ _ => ?_
    exact yields_pure (.extensionCall hsite hargs.1 hargs.2 (List.forall_mem_singleton.mpr hbody))
  · exact yields_pure (.extensionCall hsite hargs.1 hargs.2 (List.forall_mem_nil _))

theorem yields_of_builtin? {name : String} {p : Parser Node} (h : builtin? bodies name = some p) :
    p.Yields (IsStatement env) := by
  have hall : ∀ p ∈ builtins bodies, p.Yields (IsStatement env) := by
    simp only [builtins, List.forall_mem_cons]
    exact ⟨yields_conditional hbodies, yields_loop hbodies, yields_assignment hbodies,
      yields_block hbodies, yields_macroDefinition hbodies, yields_callBlock hbodies,
      yields_filterBlock hbodies, yields_parentTemplate, yields_includedTemplate,
      yields_importedTemplate, yields_importedNames, List.forall_mem_nil _⟩
  exact hall p (mem_of_builtin? h)

theorem yields_customTag {e : Extension} (he : e ∈ env.extensions) (hstandard : e.IsStandard) :
    (customTag bodies e).Yields (IsStatement env) := by
  obtain ⟨hasBody, identity, isAsync, hform⟩ := hstandard
  rw [customTag, hform]
  exact yields_standardTag hbodies he hasBody identity isAsync

variable (henv : ∀ e ∈ env.extensions, e.IsStandard)
include henv

theorem yields_statementOver : (statementOver env bodies).Yields (IsStatement env) := by
  refine yields_peek.bind fun token _ => ?_
  have hnamed {p : Parser Node} (h : p.Yields (IsStatement env)) : (do
      unless token.kind = .symbol do fail .missingTagName
      p : Parser Node).Yields (IsStatement env) := by
    split
    · exact h
    · exact Yields.bind (P := fun _ => True) (yields_fail _) fun _ _ => h
  split
  · next p hp => exact hnamed (yields_of_builtin? hbodies hp)
  · split
    · next e he =>
      have hmem := List.mem_of_find?_eq_some he
      exact hnamed (yields_customTag hbodies hmem (henv e hmem))
    · exact hnamed (yields_failAt _ _)

/-- A repetition that reads nodes reads one more statement, or stops. -/
theorem yields_nodeStep {stop : List String} {nodes : List Node} (h : AreStatements env nodes) :
    (nodeStep env bodies stop nodes).Yields (Step.Keeps (AreStatements env) (AreStatements env)) := by
  have hdone : AreStatements env nodes.reverse := fun node hnode =>
    h node (List.mem_reverse.mp hnode)
  refine yields_peek.bind fun token _ => ?_
  split
  · split
    · exact yields_pure hdone
    · exact Yields.bind (P := fun _ => True) (yields_fail _) fun _ _ => yields_pure hdone
  · exact yields_next.bind fun _ _ => yields_pure (List.forall_mem_cons.mpr ⟨.data, h⟩)
  · exact yields_next.bind fun _ _ => yields_pure (List.forall_mem_cons.mpr ⟨.data, h⟩)
  · have hvalue : (do
        let value ← expression
        let _ ← expect .variableEnd "end of variable tag"
        return .more (.output token.pos [value] :: nodes) :
          Parser (Step (List Node) (List Node))).Yields
          (Step.Keeps (AreStatements env) (AreStatements env)) :=
      yields_expression.bind fun value hvalue => (yields_expect _ _).bind fun _ _ =>
        yields_pure (List.forall_mem_cons.mpr ⟨.output hvalue, h⟩)
    refine yields_next.bind fun _ _ => yields_peek.bind fun closing _ => ?_
    split
    · exact Yields.bind (P := fun _ => True) (yields_fail _) fun _ _ => hvalue
    · exact hvalue
  · refine yields_next.bind fun _ _ => yields_peek.bind fun name _ => ?_
    split
    · exact yields_pure hdone
    · exact (yields_statementOver hbodies henv).bind fun node hnode =>
        yields_pure (List.forall_mem_cons.mpr ⟨hnode, h⟩)
  · exact yields_fail _

theorem yields_nodesOver (stop : List String) :
    (nodesOver env bodies stop).Yields (AreStatements env) :=
  yields_iterate (fun _ => yields_nodeStep hbodies henv) (List.forall_mem_nil _)

end

theorem yieldStatements_bodiesTo {env : Environment} (henv : ∀ e ∈ env.extensions, e.IsStandard)
    (depth : Nat) : (bodiesTo env depth).YieldStatements env := by
  induction depth with
  | zero => exact fun _ => yields_fail _
  | succ depth ih => exact fun stop => yields_nodesOver ih henv stop

end Statement

/-- What the parser of a template reads from tokens of a source are statements. -/
theorem Parser.yields_root {env : Environment} (henv : ∀ e ∈ env.extensions, e.IsStandard) :
    (Parser.root env).Yields (Node.AreStatements env) :=
  fun s => Statement.yieldStatements_bodiesTo henv (s.pending.length + 1) [] s

theorem TokenStream.isLexed_ofTokens {tokens : List Token} (h : ∀ token ∈ tokens, token.IsLexed) :
    (TokenStream.ofTokens tokens).IsLexed where
  pending token htoken := h token (List.takeWhile_subset _ htoken)
  last := by
    unfold TokenStream.ofTokens
    cases hfind : tokens.find? fun token => token.kind = .eof with
    | none => exact Token.isLexed_of_kind (fun h => by cases h) (fun h => by cases h)
    | some token => exact h token (List.mem_of_find?_eq_some hfind)

/-- The nodes of a template that has been read are statements. -/
theorem Template.areStatements_of_parse {env : Environment}
    (henv : ∀ e ∈ env.extensions, e.IsStandard) {name source : String} {template : Template}
    (h : Template.parse env name source = .ok template) :
    Node.AreStatements env template.body := by
  unfold Template.parse at h
  split at h
  · cases h
  · next tokens htokens =>
    split at h
    · next body rest hbody =>
      cases h
      exact (Parser.yields_root henv _ _ _ (TokenStream.isLexed_ofTokens
        (isLexed_of_mem_tokenize htokens)) hbody).1
    · cases h

end TemplateManifest
